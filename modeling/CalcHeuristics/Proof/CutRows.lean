import CalcHeuristics.Proof.Training
import CalcHeuristics.Stdio.CutRow

/-!
# Cut rows are noticed

Where the buffers of a run cut a row, a line of the file has too many fields or a field with two decimal
points, as long as the buffer size is even: cuts are then at even places of a row, and every row begins
with a digit and a point. The script converts every row of the heuristics that it keeps and every row of
the test data, so it refuses such files. What it cannot notice are whole rows in a different order.
-/

namespace CalcHeuristics

open Stdio FloatingPoint Fallible SideBySide

/-! ### What was printed -/

section
variable {cfg : Config} {modules : List Module} {runs : Benchmark → List Module} {folder : Benchmark}
  {file : CsvFile}

/-- Every character of the files was printed for some record. -/
theorem exists_record_of_mem_runs (h : ∀ M ∈ modules, GoesThrough cfg M) {c : Char}
    (hc : c ∈ (optRuns cfg modules (fun _ => []) file).map OutByte.char) :
    ∃ r : RowRecord, c ∈ r.text file := by
  rw [optRuns_append, List.nil_append] at hc
  obtain ⟨byte, hbyte, rfl⟩ := List.mem_map.1 hc
  obtain ⟨M, hM, hbyte⟩ := List.mem_flatMap.1 hbyte
  obtain ⟨records, _, hfiles⟩ := (h M hM).optOver_eq
  rw [hfiles] at hbyte
  obtain ⟨data, hdata, hbyte⟩ := mem_finalContents.1 hbyte
  rw [List.map_map] at hdata
  obtain ⟨stream, _, rfl⟩ := List.mem_map.1 hdata
  obtain ⟨row, hrow, hbyte⟩ := List.mem_flatten.1 hbyte
  obtain ⟨r, _, rfl⟩ := List.mem_map.1 hrow
  obtain ⟨d, hd, rfl⟩ := List.mem_map.1 hbyte
  exact ⟨r, hd⟩

variable (h : ∀ M ∈ runs folder, GoesThrough cfg M)
include h

theorem reader_runFiles : Csv.reader ','
      ((optRuns cfg (runs folder) (fun _ => []) file).map OutByte.char) =
    .ok ((lines isNewlineChar
      ((optRuns cfg (runs folder) (fun _ => []) file).map OutByte.char)).map (Csv.splitLine ',')) :=
  reader_of_printed fun _ hc => exists_record_of_mem_runs h hc

theorem eq_of_finds_runFiles {rows : List (List (List Char))}
    (hfinds : Finds (runFiles cfg runs) folder file rows) :
    rows = (lines isNewlineChar
      ((optRuns cfg (runs folder) (fun _ => []) file).map OutByte.char)).map (Csv.splitLine ',') := by
  obtain ⟨text, htext, hread⟩ := hfinds
  rw [eq_of_runFiles htext, reader_runFiles h] at hread
  exact (Except.ok.inj hread).symm

omit h in
theorem nulFree_runFiles (h : ∀ folder, ∀ M ∈ runs folder, GoesThrough cfg M) :
    NulFree (runFiles cfg runs) := by
  intro folder file rows hfinds row hrow field hfield hnul
  obtain rfl := eq_of_finds_runFiles (h folder) hfinds
  obtain ⟨line, hline, rfl⟩ := List.mem_map.1 hrow
  have hmem : Char.ofNat 0 ∈ (optRuns cfg (runs folder) (fun _ => []) file).map OutByte.char := by
    have hflat : (lines isNewlineChar
        ((optRuns cfg (runs folder) (fun _ => []) file).map OutByte.char)).flatten = _ :=
      lines_flatten _
    rw [← hflat]
    exact List.mem_flatten.2 ⟨line, hline, Csv.mem_of_mem_splitLine hfield hnul⟩
  obtain ⟨r, hr⟩ := exists_record_of_mem_runs (h folder) hmem
  rw [r.text_eq] at hr
  exact not_mem_csvLine (by decide) (by decide)
    (fun field hfield => r.not_mem_field hfield rfl (by decide)) hr

end

/-! ### A cut row -/

/-- A row begins with a digit and a point. -/
theorem RowRecord.exists_text_eq (r : RowRecord) (file : CsvFile) :
    ∃ c rest, r.text file = c :: '.' :: rest ∧ c ≠ ',' ∧ c ≠ '\n' := by
  obtain ⟨field, fields, hfields⟩ := List.exists_cons_of_ne_nil (r.fields_ne_nil file)
  have hmem : field ∈ r.fields file := hfields ▸ List.mem_cons_self
  obtain ⟨k, x, _, _, hle, rfl⟩ := r.exists_of_mem_fields hmem
  obtain ⟨d, _, hd⟩ := printfFixed_unit k hle
  have hclean : ∀ c : Char, c.isDigit = false → c ≠ '.' → Nat.digitChar d ≠ c := by
    rintro _ hdigit hpoint rfl
    exact r.not_mem_field hmem hdigit hpoint (hd ▸ List.mem_cons_self)
  have htext : ∃ rest, r.text file = printfFixed k x ++ rest := by
    rw [r.text_eq, hfields, csvLine]
    cases fields with
    | nil => exact ⟨['\n'], by simp⟩
    | cons field' fields =>
        exact ⟨_, by rw [List.intercalate_cons_cons, List.append_assoc, List.append_assoc]⟩
  obtain ⟨rest, hrest⟩ := htext
  refine ⟨Nat.digitChar d, _, by rw [hrest, hd]; rfl, hclean _ rfl (by decide),
    hclean _ rfl (by decide)⟩

theorem RowRecord.count_comma (r : RowRecord) (file : CsvFile) :
    (r.text file).count ',' + 1 = file.columns := by
  obtain ⟨c, rest, htext, _, hnewline⟩ := r.exists_text_eq file
  have hmem : c ∈ r.text file := htext ▸ List.mem_cons_self
  rw [← Csv.length_splitLine (by decide) hmem hnewline, r.splitLine_text, r.length_fields]

/-- A line that is no row of the file: it has too many fields, or the first one has two points. -/
def Unreadable (file : CsvFile) (line : List Char) : Prop :=
  (Csv.splitLine ',' line).length ≠ file.columns ∨
    ∃ field rest, Csv.splitLine ',' line = field :: rest ∧ 2 ≤ field.count '.'

theorem unreadable_of_cut {file : CsvFile} (r : RowRecord) {r' r'' : RowRecord} {k : Nat} {line : List Char}
    (hk : 2 ≤ k) (hstart : (r'.text file).take 2 <+: line) (hfull : r''.text file <:+ line) :
    Unreadable file ((r.text file).take k ++ line) := by
  obtain ⟨c, rest, htext, hcomma, hnewline⟩ := r.exists_text_eq file
  obtain ⟨c', rest', htext', hcomma', hnewline'⟩ := r'.exists_text_eq file
  obtain ⟨line, rfl⟩ : ∃ more, line = c' :: '.' :: more := by
    obtain ⟨more, rfl⟩ := hstart
    exact ⟨more, by rw [htext']; rfl⟩
  obtain ⟨k, rfl⟩ := Nat.exists_eq_add_of_le' hk
  rw [htext, List.take_succ_cons, List.take_succ_cons] at *
  have hmem : c ∈ c :: '.' :: rest.take k ++ c' :: '.' :: line := List.mem_cons_self
  by_cases hcut : ',' ∈ rest.take k
  · left
    have hcount := hfull.sublist.count_le ','
    have hcolumns := r''.count_comma file
    have hpos := List.count_pos_iff.2 hcut
    rw [Csv.length_splitLine (by decide) hmem hnewline, List.cons_append, List.cons_append,
      List.count_cons, List.count_cons, List.count_append]
    omega
  · right
    obtain ⟨fields, hfields⟩ := Csv.exists_splitOn ','
      ((c :: '.' :: rest.take k ++ c' :: '.' :: line).filter fun c => c ≠ '\n')
    rw [← Csv.splitLine_eq hmem hnewline] at hfields
    refine ⟨_, _, hfields, ?_⟩
    have hbefore : ∀ d ∈ (c :: '.' :: rest.take k).filter (fun c => c ≠ '\n'),
        decide (d ≠ ',') = true := by
      intro d hd
      obtain rfl | rfl | hd := by simpa using List.mem_of_mem_filter hd
      · exact decide_eq_true hcomma
      · rfl
      · exact decide_eq_true fun heq => hcut (heq ▸ hd)
    have hpoint : '.' ∈ (c :: '.' :: rest.take k).filter (fun c => c ≠ '\n') :=
      List.mem_filter.2 ⟨List.mem_cons_of_mem _ List.mem_cons_self, rfl⟩
    have hafter : (c' :: '.' :: line).filter (fun c => c ≠ '\n') =
        c' :: '.' :: line.filter fun c => c ≠ '\n' := by
      simp [hnewline']
    have hfirst : ∀ body : List Char, (c' :: '.' :: body).takeWhile (fun c => c ≠ ',') =
        c' :: '.' :: body.takeWhile fun c => c ≠ ',' := by
      intro body
      simp [hcomma']
    rw [List.filter_append, List.takeWhile_append_of_pos hbefore, hafter, hfirst,
      List.count_append, List.count_cons, List.count_cons_self]
    have hpos := List.count_pos_iff.2 hpoint
    omega

/-- A run whose streams stop inside a row leaves a line that is no row. -/
theorem exists_unreadable {cfg : Config} (heven : 2 ∣ cfg.bufferSize) {M : Module}
    (h : GoesThrough cfg M) {file : CsvFile}
    (hcut : ¬ WholeRows cfg.bufferSize file.rowWidth (M.map branchCount)) :
    ∃ line ∈ runLines cfg M file, Unreadable file line := by
  obtain ⟨records, hrecords, hfiles⟩ := h.optOver_eq
  have hrows : RowsOf isNewlineChar file.rowWidth (records.map (List.map (RowRecord.text · file))) :=
    rowsOf_map (fun r => r.isRow_text file) records
  have htext : ∀ rows ∈ records.map (List.map (RowRecord.text · file)), ∀ row ∈ rows,
      ∃ r : RowRecord, row = r.text file := by
    intro rows hrows row hrow
    obtain ⟨stream, _, rfl⟩ := List.mem_map.1 hrows
    obtain ⟨r, _, rfl⟩ := List.mem_map.1 hrow
    exact ⟨r, rfl⟩
  have hwidth : 2 ∣ file.rowWidth := by cases file <;> decide
  rw [← length_moduleRecords hrecords] at hcut
  obtain ⟨rows, hmem, row, hrow, k, line, hpos, hk, hspans, hline⟩ :=
    exists_cut_line heven hwidth hrows (by simpa [Function.comp_def] using hcut)
  obtain ⟨r, rfl⟩ := htext rows hmem row hrow
  obtain ⟨⟨rows', hmem', row', hrow', hstart⟩, rows'', hmem'', row'', hrow'', hfull⟩ := hspans
  obtain ⟨r', rfl⟩ := htext rows' hmem' row' hrow'
  obtain ⟨r'', rfl⟩ := htext rows'' hmem'' row'' hrow''
  refine ⟨_, ?_, unreadable_of_cut r (Nat.le_of_dvd hpos hk) hstart hfull⟩
  rw [runLines, hfiles, entryFile_bytes_char]
  exact hline

/-! ### What the script does with it -/

/-- A row that is converted has numbers in all its fields. -/
theorem float_of_mem {float : List Char → Option Datum} {rows : List (List (List Char))}
    {x : List (List Datum)} (h : rows.mapM (fun row => row.mapM float) = some x)
    {field : List Char} {rest : List (List Char)} (hrow : field :: rest ∈ rows) :
    float field ≠ none := by
  obtain ⟨row, hfields⟩ := exists_of_forall₂ (mapM_eq_some_iff.1 h) hrow
  obtain ⟨v, hv⟩ := exists_of_forall₂ (mapM_eq_some_iff.1 hfields) List.mem_cons_self
  rw [hv]
  exact Option.some_ne_none v

section
variable {cfg : Config} {float : List Char → Option Datum} {runs : Benchmark → List Module}
  {folder : Benchmark} {x y : List (List Datum)} (heven : 2 ∣ cfg.bufferSize)
  (h : ∀ M ∈ runs folder, GoesThrough cfg M)
include heven h

/-- The rows that are found in the file, of the right width, do not come from a cut row. -/
theorem wholeRows_of_finds {file : CsvFile} {rows : List (List (List Char))}
    (hfinds : Finds (runFiles cfg runs) folder file rows) (htable : IsTable file.columns rows)
    (hpoints : ∀ field rest, field :: rest ∈ rows → field.count '.' < 2) :
    ∀ M ∈ runs folder, WholeRows cfg.bufferSize file.rowWidth (M.map branchCount) := by
  intro M hM
  by_contra hcut
  obtain ⟨line, hline, hunreadable⟩ := exists_unreadable heven (h M hM) hcut
  have hmem : Csv.splitLine ',' line ∈ rows := by
    rw [eq_of_finds_runFiles h hfinds, lines_optRuns h]
    exact List.mem_map_of_mem (List.mem_flatMap.2 ⟨M, hM, hline⟩)
  obtain hlength | ⟨field, rest, hfields, hcount⟩ := hunreadable
  · exact hlength (htable.length_eq _ hmem)
  · exact absurd (hpoints field rest (hfields ▸ hmem)) (Nat.not_lt.2 hcount)

variable (hfloat : ∀ text : List Char, 2 ≤ text.count '.' → float text = none)
include hfloat

theorem TrainRows.wholeRows (hrows : TrainRows float (runFiles cfg runs) folder x y) :
    ∀ M ∈ runs folder, WholeRows cfg.bufferSize 32 (M.map branchCount) := by
  obtain ⟨t, t', hreads, _, hx, _⟩ := hrows
  refine wholeRows_of_finds heven h hreads.heuristics hreads.table_heuristics
    fun field rest hrow => ?_
  by_contra hcount
  have hne : field :: rest ≠ notApplicable := by
    rintro heq
    rw [notApplicable, List.replicate_succ, List.cons.injEq] at heq
    rw [heq.1] at hcount
    exact hcount (by decide)
  obtain ⟨i, hi⟩ := List.mem_iff_getElem?.1 hrow
  have hkept : field :: rest ∈ Numpy.without t (dropped t) :=
    Numpy.mem_without.2 ⟨i, hi, fun hdropped =>
      hne (Option.some.inj (hi.symm.trans (mem_dropped.1 hdropped)))⟩
  exact float_of_mem hx hkept (hfloat field (Nat.not_lt.1 hcount))

theorem TestRows.wholeRows (hrows : TestRows float (runFiles cfg runs) folder x y) :
    ∀ M ∈ runs folder, WholeRows cfg.bufferSize 18 (M.map branchCount) := by
  obtain ⟨t, t', hreads, _, hy⟩ := hrows
  refine wholeRows_of_finds heven h hreads.trueProbability hreads.table_trueProbability
    fun field rest hrow => ?_
  by_contra hcount
  exact float_of_mem hy hrow (hfloat field (Nat.not_lt.1 hcount))

end

section
variable {σ δ : Type} {np : Numpy.Package (List Char) Datum σ δ} {float : List Char → Option Datum}
  (hnp : np.Documented float IsText) {cfg : Config} {runs : Benchmark → List Module}
  (h : ∀ folder, ∀ M ∈ runs folder, GoesThrough cfg M)
include hnp h

/-- With an even buffer size the script only goes through when no row of a `heuristics.csv` is cut and no
row of the `true_probability.csv` it tests on. -/
theorem cut_rows_refused (heven : 2 ∣ cfg.bufferSize)
    (hfloat : ∀ text : List Char, 2 ≤ text.count '.' → float text = none) {data : TrainingData δ}
    (hdata : generateTrainingData np (runFiles cfg runs) = .ok data) :
    (∀ folder, ∀ M ∈ runs folder, (M.map branchCount).Pairwise fun n n' =>
        n' = 0 ∨ 32 ∣ flushed cfg.bufferSize (32 * n)) ∧
      ∀ folder ∈ testBenchmarkFolders, ∀ M ∈ runs folder, (M.map branchCount).Pairwise fun n n' =>
        n' = 0 ∨ 18 ∣ flushed cfg.bufferSize (18 * n) := by
  obtain ⟨trainAdded, testAdded, htrain, htest, _⟩ :=
    collects_of_generateTrainingData hnp (nulFree_runFiles h) hdata
  refine ⟨fun folder => ?_, fun folder hfolder => ?_⟩
  · obtain ⟨added, hadded⟩ := exists_of_forall₂ htrain (mem_trainBenchmarkFolders folder)
    exact hadded.wholeRows heven (h folder) hfloat
  · obtain ⟨added, hadded⟩ := exists_of_forall₂ htest hfolder
    exact hadded.wholeRows heven (h folder) hfloat

end

theorem readNearest_points (text : List Char) (h : 2 ≤ text.count '.') : readNearest text = none :=
  if_neg (Nat.not_lt.2 h)

theorem cut_rows_refused_earlyFlush :
    (∀ _ : Benchmark, ∀ M ∈ [earlyFlush], (M.map branchCount).Pairwise fun n n' =>
        n' = 0 ∨ 32 ∣ flushed 4096 (32 * n)) ∧
      ∀ folder ∈ testBenchmarkFolders, ∀ M ∈ [earlyFlush], (M.map branchCount).Pairwise fun n n' =>
        n' = 0 ∨ 18 ∣ flushed 4096 (18 * n) := by
  obtain ⟨data, hdata⟩ := exists_data_earlyFlush
  exact cut_rows_refused (Numpy.reference_documented readNearest IsText) goesThrough_earlyFlush
    (by decide) readNearest_points hdata

/-! ### Whole rows -/

section
variable {σ δ : Type} {np : Numpy.Package (List Char) Datum σ δ} {float : List Char → Option Datum}
  (hnp : np.Documented float IsText) {cfg : Config} {runs : Benchmark → List Module}
  (h : ∀ folder, ∀ M ∈ runs folder, GoesThrough cfg M)
include hnp h

end

/-- A file that does not exist, dimensions that do not fit, or a field that is no number. -/
def Refusal (files : CsvFiles) (e : PythonError) : Prop :=
  (e = .fileNotFound ∧ ∃ folder file, files folder file = none) ∨ e = .numpy .axis ∨ e = .numpy .value

section
variable {files : CsvFiles} {e : PythonError}

theorem refusal_of_mapError {α : Type} {x : Except Numpy.Error α}
    (h : x.mapError PythonError.numpy = .error e) (hx : x ≠ .error .index) : Refusal files e := by
  obtain ⟨e', he', rfl⟩ := mapError_eq_error_iff.1 h
  cases e' with
  | axis => exact Or.inr (Or.inl rfl)
  | index => exact absurd he' hx
  | value => exact Or.inr (Or.inr rfl)

variable {σ δ : Type} {np : Numpy.Package (List Char) Datum σ δ}

/-- A file that can be read, if it exists. -/
theorem refusal_of_readCsv {folder : Benchmark} {file : CsvFile}
    (hread : ∀ text, files folder file = some text → ∃ rows, Csv.reader ',' text = .ok rows)
    (h : readCsv np (files folder file) = .error e) : Refusal files e := by
  cases htext : files folder file with
  | none =>
      rw [htext] at h
      exact Or.inl ⟨(Except.error.inj h).symm, folder, file, htext⟩
  | some text =>
      obtain ⟨rows, hrows⟩ := hread text htext
      rw [htext, readCsv, hrows] at h
      exact absurd h (by simp [Except.mapError, Except.map])

variable {float : List Char → Option Datum} (hnp : np.Documented float IsText)
include hnp

theorem delete_astype_ne_index {s : σ} {ps : List Nat} (hin : ∀ i ∈ ps, i < np.length s) :
    (np.delete s ps >>= np.astype) ≠ .error .index := by
  intro h
  obtain hdelete | ⟨s', _, hastype⟩ := bind_eq_error_iff.1 h
  · exact hnp.delete_ne_error hin _ hdelete
  · exact hnp.astype_ne_index s' hastype

theorem astype_concatenate_ne_index {s : σ} {a : δ} :
    (np.astype s >>= np.concatenate a) ≠ .error .index := by
  intro h
  obtain hastype | ⟨b, _, hconcat⟩ := bind_eq_error_iff.1 h
  · exact hnp.astype_ne_index s hastype
  · exact hnp.concatenate_ne_index a b hconcat

variable {folder : Benchmark} {set : δ × δ}
  (hread : ∀ file text, files folder file = some text → ∃ rows, Csv.reader ',' text = .ok rows)
include hread

/-- Files with one number of rows leave no position out of range. -/
theorem refusal_of_addTrain
    (hlength : ∀ {h p}, Finds files folder .heuristics h → Finds files folder .trueProbability p →
      p.length = h.length)
    (h : addTrain np files set folder = .error e) : Refusal files e := by
  rw [addTrain] at h
  obtain h | ⟨s, hs, h⟩ := bind_eq_error_iff.1 h
  · exact refusal_of_readCsv (hread .heuristics) h
  obtain h | ⟨s', hs', h⟩ := bind_eq_error_iff.1 h
  · exact refusal_of_readCsv (hread .trueProbability) h
  obtain ⟨rows, hfinds, rfl⟩ := readCsv_eq_ok_iff.1 hs
  obtain ⟨rows', hfinds', rfl⟩ := readCsv_eq_ok_iff.1 hs'
  obtain h | ⟨mask, hmask, h⟩ := bind_eq_error_iff.1 h
  · exact refusal_of_mapError h (hnp.allEqual_ne_index _ _)
  have hin : ∀ i ∈ np.nonzero mask, i < np.length (np.array rows) := fun i hi => by
    rw [← hnp.length_allEqual (mapError_eq_ok_iff.1 hmask)]
    exact Numpy.lt_of_mem_positions (hnp.nonzero_eq mask ▸ hi)
  have hin' : ∀ i ∈ np.nonzero mask, i < np.length (np.array rows') := by
    rw [hnp.length_array, hlength hfinds hfinds', ← hnp.length_array]
    exact hin
  obtain h | ⟨_, _, h⟩ := bind_eq_error_iff.1 h
  · exact refusal_of_mapError h (delete_astype_ne_index hnp hin)
  obtain h | ⟨_, _, h⟩ := bind_eq_error_iff.1 h
  · exact refusal_of_mapError h (delete_astype_ne_index hnp hin')
  obtain h | ⟨_, _, h⟩ := bind_eq_error_iff.1 h
  · exact refusal_of_mapError h (hnp.concatenate_ne_index _ _)
  obtain h | ⟨_, _, h⟩ := bind_eq_error_iff.1 h
  · exact refusal_of_mapError h (hnp.concatenate_ne_index _ _)
  · simp [pure, Except.pure] at h

theorem refusal_of_addTest (h : addTest np files set folder = .error e) : Refusal files e := by
  rw [addTest] at h
  obtain h | ⟨s, _, h⟩ := bind_eq_error_iff.1 h
  · exact refusal_of_readCsv (hread .heuristics) h
  obtain h | ⟨s', _, h⟩ := bind_eq_error_iff.1 h
  · exact refusal_of_readCsv (hread .trueProbability) h
  obtain h | ⟨_, _, h⟩ := bind_eq_error_iff.1 h
  · exact refusal_of_mapError h (astype_concatenate_ne_index hnp)
  obtain h | ⟨_, _, h⟩ := bind_eq_error_iff.1 h
  · exact refusal_of_mapError h (astype_concatenate_ne_index hnp)
  · simp [pure, Except.pure] at h

end

/-- Whatever the buffers do to the rows, both files of a benchmark are read if they exist, and have one
number of rows: the script never deletes a row that is not there, and what is left are benchmarks without a
file, dimensions that do not fit and fields that are no numbers. -/
theorem script_errors {σ δ : Type} {np : Numpy.Package (List Char) Datum σ δ}
    {float : List Char → Option Datum} (hnp : np.Documented float IsText) {cfg : Config}
    {runs : Benchmark → List Module} (h : ∀ folder, ∀ M ∈ runs folder, GoesThrough cfg M)
    {e : PythonError} (herror : generateTrainingData np (runFiles cfg runs) = .error e) :
    (e = .fileNotFound ∧ ∃ folder file, runFiles cfg runs folder file = none) ∨
      e = .numpy .axis ∨ e = .numpy .value := by
  have hnul : NulFree (runFiles cfg runs) := nulFree_runFiles h
  have hread : ∀ folder file text, runFiles cfg runs folder file = some text →
      ∃ rows, Csv.reader ',' text = .ok rows := fun folder file text htext =>
    ⟨_, eq_of_runFiles htext ▸ reader_runFiles (h folder)⟩
  have hlength : ∀ {folder rows rows'}, Finds (runFiles cfg runs) folder .heuristics rows →
      Finds (runFiles cfg runs) folder .trueProbability rows' → rows'.length = rows.length := by
    intro folder rows rows' hfinds hfinds'
    rw [eq_of_finds_runFiles (h folder) hfinds, eq_of_finds_runFiles (h folder) hfinds',
      List.length_map, List.length_map, length_lines_optRuns (h folder),
      length_lines_optRuns (h folder)]
  rw [generateTrainingData] at herror
  obtain htrain | ⟨train, htrain, herror⟩ := bind_eq_error_iff.1 herror
  · obtain ⟨folder, _, set, hstep⟩ := error_of_foldlM htrain
    exact refusal_of_addTrain hnp (hread folder) hlength hstep
  obtain htest | ⟨test, htest, herror⟩ := bind_eq_error_iff.1 herror
  · obtain ⟨folder, _, set, hstep⟩ := error_of_foldlM htest
    exact refusal_of_addTest hnp (hread folder) hstep
  obtain ⟨_, _, hholds⟩ :=
    adds_of_foldlM (fun _ _ folder _ _ => trainRows_of_addTrain hnp hnul folder) (holds_empty hnp) htrain
  obtain ⟨_, _, hholds'⟩ :=
    adds_of_foldlM (fun _ _ folder _ _ => testRows_of_addTest hnp hnul folder) (holds_empty hnp) htest
  rw [labels_of_hasRows hnp hholds.y, ok_bind, labels_of_hasRows hnp hholds'.y] at herror
  exact absurd herror (by simp [bind, Except.bind, pure, Except.pure])

/-- The script fails on the files of a run that cut a row, and not for want of a file. -/
theorem script_errors_chains : ∃ e, generateTrainingData (Numpy.reference readNearest)
      (runFiles (stdio 4096 (by decide)) fun _ => [chains]) = .error e ∧
    (e = .numpy .axis ∨ e = .numpy .value) := by
  have hnp := Numpy.reference_documented readNearest IsText
  have hthrough : ∀ _ : Benchmark, ∀ M ∈ [chains], GoesThrough (stdio 4096 (by decide)) M :=
    fun _ _ hM => List.mem_singleton.1 hM ▸ goesThrough_chains
  cases hrun : generateTrainingData (Numpy.reference readNearest)
      (runFiles (stdio 4096 (by decide)) fun _ => [chains]) with
  | ok data =>
      obtain ⟨_, _, _, htest, _⟩ :=
        collects_of_generateTrainingData hnp (nulFree_runFiles hthrough) hrun
      obtain ⟨_, hrows⟩ := exists_of_forall₂ htest List.mem_cons_self
      have hwhole := hrows.wholeRows (by decide) (hthrough .basicmath) readNearest_points chains
        (List.mem_singleton.2 rfl)
      rw [counts_chains, WholeRows] at hwhole
      exact absurd hwhole (by decide)
  | error e =>
      refine ⟨e, rfl, (script_errors hnp hthrough hrun).resolve_left ?_⟩
      rintro ⟨_, folder, file, hnone⟩
      refine absurd hnone (Option.ne_none_iff_exists'.2 (exists_runFiles (hthrough folder) ?_))
      rw [runBranches, List.map_singleton, counts_chains]
      decide

end CalcHeuristics
