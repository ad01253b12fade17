import CalcHeuristics.Numpy.Reference
import CalcHeuristics.Proof.Crash
import CalcHeuristics.Proof.DataSet

/-!
# The data sets of the pass

The files of runs that go through are read as the branches of these runs, once for each branch. When the
streams of every function flush in step, features and label of an example are those of one branch;
the condition is the one under which the lines of the two files correspond.
-/

namespace CalcHeuristics

open Stdio FloatingPoint SideBySide

/-! ### The order of the branches -/

/-- The records of a run that goes through. -/
def printedRecords (M : Module) : List RowRecord :=
  match moduleRecords M with
  | .ok records => records.flatten
  | .error _ => []

/-- The streams of the two files flush in step in every function whose rows are followed by those of a
later one. -/
def InStep (C : Nat) (M : Module) : Prop :=
  (M.map branchCount).Pairwise fun n n' => n' = 0 ∨ n = 0 ∨ ∃ a < n, C ∣ 2 * a ∧ 32 * (n - a) ≤ C

section
variable {cfg : Config}

/-- The lines of both files are the rows of the records, in one order. -/
theorem exists_order {M : Module} (h : GoesThrough cfg M) (hstep : InStep cfg.bufferSize M) :
    ∃ order : List RowRecord, order.Perm (printedRecords M) ∧ ∀ file,
      runLines cfg M file = order.map (RowRecord.text · file) := by
  obtain ⟨records, hrecords, hfiles⟩ := h.optOver_eq
  have hflush : (records.map List.length).Pairwise fun n n' =>
      n' = 0 ∨ FlushInStep cfg.bufferSize 32 18 n := by
    rw [length_moduleRecords hrecords]
    simp only [flushInStep_iff cfg.bufferSize_pos (by decide : 18 ≤ 32) (by decide)]
    exact hstep
  obtain ⟨order, horder, hheuristics, htrueProb⟩ :=
    (RowRecord.ownedRow .heuristics).exists_order (RowRecord.ownedRow .trueProbability) hflush
  refine ⟨order, by rwa [printedRecords, hrecords], fun file => ?_⟩
  have hchars : (order.map (RowRecord.bytes file)).map (List.map OutByte.char) =
      order.map (RowRecord.text · file) := by
    simp [RowRecord.bytes, Function.comp_def]
  rw [runLines, hfiles, lines_char, ← hchars]
  cases file
  · rw [hheuristics]
  · rw [htrueProb]

theorem exists_order_runs {modules : List Module} (h : ∀ M ∈ modules, GoesThrough cfg M)
    (hstep : ∀ M ∈ modules, InStep cfg.bufferSize M) :
    ∃ order : List RowRecord, order.Perm (modules.flatMap printedRecords) ∧ ∀ file,
      lines isNewlineChar ((optRuns cfg modules (fun _ => []) file).map OutByte.char) =
        order.map (RowRecord.text · file) := by
  simp only [lines_optRuns h]
  induction modules with
  | nil => exact ⟨[], .refl _, fun _ => rfl⟩
  | cons M modules ih =>
      obtain ⟨first, hfirst, hlines⟩ :=
        exists_order (h M List.mem_cons_self) (hstep M List.mem_cons_self)
      obtain ⟨rest, hrest, hlines'⟩ := ih (fun N hN => h N (List.mem_cons_of_mem _ hN))
        fun N hN => hstep N (List.mem_cons_of_mem _ hN)
      refine ⟨first ++ rest, hfirst.append hrest, fun file => ?_⟩
      rw [List.flatMap_cons, hlines, hlines', List.map_append]

end

/-! ### The examples of a benchmark -/

/-- The eight numbers of a row. -/
def RowRecord.features (r : RowRecord) : List Datum :=
  r.heuristics.columns.map fun prediction => .finite prediction.value

/-- The two true probabilities as doubles. -/
def RowRecord.probabilities (r : RowRecord) : List Datum :=
  [.finite (binary64.nearest (scaled 6 r.takenBrProb.toRat / 10 ^ 6)),
    .finite (binary64.nearest (scaled 6 (1 - r.takenBrProb.toRat) / 10 ^ 6))]

/-- Some heuristic has something to say. -/
def RowRecord.applies (r : RowRecord) : Bool :=
  r.heuristics.columns ≠ List.replicate 8 .notApplicable

theorem rowLabel_probabilities (r : RowRecord) : rowLabel r.probabilities = r.label := by
  have hle : scaled 6 r.takenBrProb.toRat ≤ 1000000 := scaled_le 6 r.takenBrProb.toRat_le_one
  show Datum.finite (roundEven (binary64.nearest (scaled 6 r.takenBrProb.toRat / 10 ^ 6))) = _
  rw [roundEven_nearest hle, RowRecord.label]
  by_cases hhalf : r.takenBrProb.numerator < 1073742898
  · rw [if_pos ((scaled_le_half_iff _).2 hhalf), if_neg (Nat.not_le.2 hhalf), Int.cast_zero]
  · rw [if_neg (mt (scaled_le_half_iff _).1 hhalf), if_pos (Nat.not_lt.1 hhalf), Int.cast_one]

theorem printfFixed_value_injective :
    Function.Injective fun prediction : Prediction => printfFixed 1 prediction.value := by
  intro p q h
  have hread := congrArg readFixed h
  simp only [readFixed_printfFixed, scaled_value] at hread
  cases p <;> cases q <;> first | rfl | norm_num [Prediction.value] at hread

/-- The row that is dropped is the one without predictions. -/
theorem fields_eq_notApplicable_iff (r : RowRecord) :
    r.fields .heuristics = notApplicable ↔ r.applies = false := by
  have hpoint5 : notApplicable =
      (List.replicate 8 Prediction.notApplicable).map fun p => printfFixed 1 p.value := by
    decide +kernel
  rw [hpoint5, RowRecord.fields, printfFixed_value_injective.list_map.eq_iff, RowRecord.applies]
  simp

section
variable {float : List Char → Option Datum} (hfloat : ReadsFixed float)
include hfloat

theorem mapM_fields_heuristics (r : RowRecord) :
    (r.fields .heuristics).mapM float = some r.features :=
  mapM_map_eq_some fun prediction _ => float_prediction hfloat prediction

theorem mapM_fields_trueProbability (r : RowRecord) :
    (r.fields .trueProbability).mapM float = some r.probabilities := by
  have hle : 1 - r.takenBrProb.toRat ≤ 1 := sub_le_self 1 r.takenBrProb.toRat_nonneg
  rw [mapM_eq_some_iff]
  exact .cons (float_printfFixed hfloat r.takenBrProb.toRat_le_one)
    (.cons (float_printfFixed hfloat hle) .nil)

omit hfloat

theorem isTable_fields (file : CsvFile) {order : List RowRecord} (hne : order ≠ []) :
    IsTable file.columns (order.map (RowRecord.fields · file)) := by
  refine ⟨by simpa using hne, fun row hrow => ?_⟩
  obtain ⟨r, _, rfl⟩ := List.mem_map.1 hrow
  exact r.length_fields file

/-- The texts of a benchmark are the rows of records, for each file in an order of its own. -/
structure Ordered (files : CsvFiles) (folder : Benchmark) (order : CsvFile → List RowRecord) :
    Prop where
  exists_text : ∀ file, order file ≠ [] → ∃ text, files folder file = some text
  lines_text : ∀ file text, files folder file = some text →
    lines isNewlineChar text = (order file).map (RowRecord.text · file)

section
variable {files : CsvFiles} {folder : Benchmark} {order : CsvFile → List RowRecord}
  (h : Ordered files folder order)
include h

theorem Ordered.eq_of_finds {file : CsvFile} {rows : List (List (List Char))}
    (hfinds : Finds files folder file rows) : rows = (order file).map (RowRecord.fields · file) := by
  obtain ⟨text, htext, hread⟩ := hfinds
  exact Except.ok.inj (hread.symm.trans (reader_of_rows (h.lines_text file text htext)))

theorem Ordered.finds {file : CsvFile} (hne : order file ≠ []) :
    Finds files folder file ((order file).map (RowRecord.fields · file)) := by
  obtain ⟨text, htext⟩ := h.exists_text file hne
  exact ⟨text, htext, reader_of_rows (h.lines_text file text htext)⟩

/-- The reader finds the fields of the records, unless there are none. -/
theorem Ordered.reads_iff {t t' : List (List (List Char))} :
    Reads files folder t t' ↔ (∀ file, order file ≠ []) ∧
      t = (order .heuristics).map (RowRecord.fields · .heuristics) ∧
      t' = (order .trueProbability).map (RowRecord.fields · .trueProbability) := by
  constructor
  · rintro ⟨hfinds, hfinds', htable, htable'⟩
    obtain rfl := h.eq_of_finds hfinds
    obtain rfl := h.eq_of_finds hfinds'
    refine ⟨fun file => ?_, rfl, rfl⟩
    cases file with
    | heuristics => simpa using htable.ne_nil
    | trueProbability => simpa using htable'.ne_nil
  · rintro ⟨hne, rfl, rfl⟩
    exact ⟨h.finds (hne _), h.finds (hne _), isTable_fields .heuristics (hne _),
      isTable_fields .trueProbability (hne _)⟩

end

theorem nulFree_of_ordered {files : CsvFiles} {order : Benchmark → CsvFile → List RowRecord}
    (h : ∀ folder, Ordered files folder (order folder)) : NulFree files := by
  intro folder file rows hfinds row hrow field hfield
  obtain rfl := (h folder).eq_of_finds hfinds
  obtain ⟨r, _, rfl⟩ := List.mem_map.1 hrow
  exact r.not_mem_field hfield rfl (by decide)

/-- The rows that are dropped are those of the records on which no heuristic applies. -/
theorem dropped_fields (order : List RowRecord) :
    dropped (order.map (RowRecord.fields · .heuristics)) =
      Numpy.positions (order.map fun r => !r.applies) := by
  rw [dropped, List.map_map]
  congr 1
  apply List.map_congr_left
  intro r _
  rw [Function.comp_apply, Bool.eq_iff_iff, decide_eq_true_iff, fields_eq_notApplicable_iff,
    Bool.not_eq_true']

theorem without_dropped {α : Type} (order : List RowRecord) (f : RowRecord → α) :
    Numpy.without (order.map f) (dropped (order.map (RowRecord.fields · .heuristics))) =
      (order.filter RowRecord.applies).map f := by
  rw [dropped_fields, Numpy.without_positions]
  simp

include hfloat

theorem mapM_fields (order : List RowRecord) :
    (order.map (RowRecord.fields · .heuristics)).mapM (fun row => row.mapM float) =
        some (order.map RowRecord.features) ∧
      (order.map (RowRecord.fields · .trueProbability)).mapM (fun row => row.mapM float) =
        some (order.map RowRecord.probabilities) :=
  ⟨mapM_map_eq_some fun r _ => mapM_fields_heuristics hfloat r,
    mapM_map_eq_some fun r _ => mapM_fields_trueProbability hfloat r⟩

/-- With one order for both files, the examples are those of the records on which some heuristic
applies. -/
theorem Ordered.trainRows_iff {files : CsvFiles} {folder : Benchmark} {order : List RowRecord}
    (h : Ordered files folder fun _ => order) {x y : List (List Datum)} :
    TrainRows float files folder x y ↔ order ≠ [] ∧
      x = (order.filter RowRecord.applies).map RowRecord.features ∧
        y = (order.filter RowRecord.applies).map RowRecord.probabilities := by
  obtain ⟨hx, hy⟩ := mapM_fields hfloat (order.filter RowRecord.applies)
  constructor
  · rintro ⟨t, t', hreads, _, hx', hy'⟩
    obtain ⟨hne, rfl, rfl⟩ := h.reads_iff.1 hreads
    rw [without_dropped, hx, Option.some.injEq] at hx'
    rw [without_dropped, hy, Option.some.injEq] at hy'
    exact ⟨hne .heuristics, hx'.symm, hy'.symm⟩
  · rintro ⟨hne, rfl, rfl⟩
    refine ⟨_, _, h.reads_iff.2 ⟨fun _ => hne, rfl, rfl⟩, fun i hi => ?_, ?_, ?_⟩
    · simpa using lt_of_mem_dropped hi
    · rw [without_dropped, hx]
    · rw [without_dropped, hy]

theorem Ordered.testRows_iff {files : CsvFiles} {folder : Benchmark}
    {order : CsvFile → List RowRecord} (h : Ordered files folder order)
    {x y : List (List Datum)} :
    TestRows float files folder x y ↔ (∀ file, order file ≠ []) ∧
      x = (order .heuristics).map RowRecord.features ∧
        y = (order .trueProbability).map RowRecord.probabilities := by
  have hx := (mapM_fields hfloat (order .heuristics)).1
  have hy := (mapM_fields hfloat (order .trueProbability)).2
  constructor
  · rintro ⟨t, t', hreads, hx', hy'⟩
    obtain ⟨hne, rfl, rfl⟩ := h.reads_iff.1 hreads
    exact ⟨hne, Option.some.inj (hx'.symm.trans hx), Option.some.inj (hy'.symm.trans hy)⟩
  · rintro ⟨hne, rfl, rfl⟩
    exact ⟨_, _, h.reads_iff.2 ⟨hne, rfl, rfl⟩, hx, hy⟩

end

/-! ### The data sets -/

theorem mem_trainBenchmarkFolders (folder : Benchmark) : folder ∈ trainBenchmarkFolders := by
  cases folder <;> decide

theorem labels_probabilities (records : List RowRecord) :
    ((records.map RowRecord.probabilities).filterMap List.head?).map Datum.round =
      records.map RowRecord.label := by
  rw [map_rowLabel fun row hrow => ?_, List.map_map]
  · exact List.map_congr_left fun r _ => rowLabel_probabilities r
  · obtain ⟨r, _, rfl⟩ := List.mem_map.1 hrow
    rfl

section
variable {σ δ : Type}

/-- The data sets made of the records of every benchmark. -/
structure Examples (np : Numpy.Package (List Char) Datum σ δ) (order : Benchmark → List RowRecord)
    (data : TrainingData δ) : Prop where
  xTrain : np.HasRows data.xTrain 8
    (((trainBenchmarkFolders.flatMap order).filter RowRecord.applies).map RowRecord.features)
  yTrain : data.yTrain =
    ((trainBenchmarkFolders.flatMap order).filter RowRecord.applies).map RowRecord.label
  xTest : np.HasRows data.xTest 8 ((testBenchmarkFolders.flatMap order).map RowRecord.features)
  yTest : data.yTest = (testBenchmarkFolders.flatMap order).map RowRecord.label

variable {np : Numpy.Package (List Char) Datum σ δ}

theorem Collects.examples {order : Benchmark → List RowRecord} {data : TrainingData δ}
    (h : Collects np
      (trainBenchmarkFolders.map fun folder =>
        (((order folder).filter RowRecord.applies).map RowRecord.features,
          ((order folder).filter RowRecord.applies).map RowRecord.probabilities))
      (testBenchmarkFolders.map fun folder =>
        ((order folder).map RowRecord.features, (order folder).map RowRecord.probabilities)) data) :
    Examples np order data := by
  have hfilter {α : Type} (g : RowRecord → α) (folders : List Benchmark) :
      (folders.flatMap fun folder => ((order folder).filter RowRecord.applies).map g) =
        ((folders.flatMap order).filter RowRecord.applies).map g := by
    rw [List.filter_flatMap, List.map_flatMap]
  have hall {α : Type} (g : RowRecord → α) (folders : List Benchmark) :
      (folders.flatMap fun folder => (order folder).map g) = (folders.flatMap order).map g := by
    rw [List.map_flatMap]
  obtain ⟨hx, hy, hx', hy'⟩ := h
  simp only [List.flatMap_map, hfilter, hall, labels_probabilities] at hx hy hx' hy'
  exact ⟨hx, hy, hx', hy'⟩

/-- Where both files of every benchmark are the rows of its records, the data sets are made of them. -/
theorem trainingData_of_ordered {float : List Char → Option Datum} (hnp : np.Documented float IsText)
    (hfloat : ReadsFixed float) {files : CsvFiles} {order : Benchmark → List RowRecord}
    (h : ∀ folder, Ordered files folder fun _ => order folder) :
    ((∃ data, generateTrainingData np files = .ok data) ↔ ∀ folder, order folder ≠ []) ∧
      ∀ data, generateTrainingData np files = .ok data → Examples np order data := by
  have hnul : NulFree files := nulFree_of_ordered h
  have htrain (added) : List.Forall₂ (fun folder a => TrainRows float files folder a.1 a.2)
      trainBenchmarkFolders added ↔ (∀ folder, order folder ≠ []) ∧
        added = trainBenchmarkFolders.map fun folder =>
          (((order folder).filter RowRecord.applies).map RowRecord.features,
            ((order folder).filter RowRecord.applies).map RowRecord.probabilities) := by
    have hall : (∀ folder, order folder ≠ []) ↔ ∀ folder ∈ trainBenchmarkFolders, order folder ≠ [] :=
      ⟨fun hne folder _ => hne folder, fun hne folder => hne folder (mem_trainBenchmarkFolders folder)⟩
    rw [hall, ← forall₂_iff_map]
    simp only [(h _).trainRows_iff hfloat, Prod.ext_iff]
  have htest (added) : List.Forall₂ (fun folder a => TestRows float files folder a.1 a.2)
      testBenchmarkFolders added ↔ (∀ folder ∈ testBenchmarkFolders, order folder ≠ []) ∧
        added = testBenchmarkFolders.map fun folder =>
          ((order folder).map RowRecord.features, (order folder).map RowRecord.probabilities) := by
    rw [← forall₂_iff_map]
    have : Nonempty CsvFile := ⟨.heuristics⟩
    simp only [(h _).testRows_iff hfloat, Prod.ext_iff, forall_const]
  have hdata : ∀ data, generateTrainingData np files = .ok data →
      (∀ folder, order folder ≠ []) ∧ Examples np order data := by
    intro data hdata
    obtain ⟨trainAdded, testAdded, hadded, hadded', hcollects⟩ :=
      collects_of_generateTrainingData hnp hnul hdata
    obtain ⟨hne, rfl⟩ := (htrain _).1 hadded
    obtain ⟨_, rfl⟩ := (htest _).1 hadded'
    exact ⟨hne, hcollects.examples⟩
  refine ⟨⟨fun ⟨data, h⟩ => (hdata data h).1, fun hne => ?_⟩, fun data h => (hdata data h).2⟩
  obtain ⟨data, hdata, _⟩ := exists_generateTrainingData hnp hnul ((htrain _).2 ⟨hne, rfl⟩)
    ((htest _).2 ⟨fun folder _ => hne folder, rfl⟩)
  exact ⟨data, hdata⟩

end

/-- The label of a branch is one when the taken edge has at least 1074 of the 2 ^ 31 units more than half,
so ties and the smallest leads count as not taken. -/
theorem label_of_trueProb {float : List Char → Option Datum} (hfloat : ReadsFixed float)
    (p : BranchProbability) : ∃ a b v,
      Csv.reader ',' (trueProbText p) = .ok [[a, b]] ∧ float a = some v ∧
        v.round = .finite (if 2 ^ 30 + 1074 ≤ p.numerator then 1 else 0) := by
  let anyRow : HeuristicRow := ⟨.notApplicable, .notApplicable, .notApplicable, .notApplicable,
    .notApplicable, .notApplicable, .notApplicable, .notApplicable⟩
  let r : RowRecord := ⟨⟨0, 0⟩, p, anyRow⟩
  have hlines : lines isNewlineChar (r.text .trueProbability) =
      [r].map (RowRecord.text · .trueProbability) := by
    simpa using (r.isRow_text .trueProbability).lines_append []
  refine ⟨_, _, _, reader_of_rows hlines, float_printfFixed hfloat p.toRat_le_one, ?_⟩
  exact rowLabel_probabilities r

/-- A reader of numbers with at most one point. -/
def readNearest (text : List Char) : Option Datum :=
  if text.count '.' < 2 then some (.finite (binary64.nearest (readFixed text))) else none

theorem readsFixed_readNearest : ReadsFixed readNearest := by
  intro whole decimals _ hdigits _
  refine if_pos ?_
  have hclean : ∀ part : List Char, (∀ c ∈ part, c.isDigit = true) → part.count '.' = 0 := by
    intro part hpart
    refine List.count_eq_zero_of_not_mem fun hmem => ?_
    exact absurd (hpart '.' hmem) (by decide)
  rw [List.count_append, List.count_cons_self,
    hclean whole fun c hc => hdigits c (List.mem_append_left _ hc),
    hclean decimals fun c hc => hdigits c (List.mem_append_right _ hc)]
  decide

theorem label_of_trueProb_tie : ∃ a b v,
    Csv.reader ',' (trueProbText ⟨2 ^ 30, by decide⟩) = .ok [[a, b]] ∧ readNearest a = some v ∧
      v.round = .finite 0 :=
  label_of_trueProb readsFixed_readNearest ⟨2 ^ 30, by decide⟩

/-! ### From the runs to the data sets -/

section
variable {cfg : Config} {M : Module} {modules : List Module}

theorem length_printedRecords (h : GoesThrough cfg M) :
    (printedRecords M).length = (M.map branchCount).sum := by
  obtain ⟨records, hrecords, _⟩ := h.optOver_eq
  rw [printedRecords, hrecords, List.length_flatten, length_moduleRecords hrecords]

theorem length_flatMap_printedRecords (h : ∀ M ∈ modules, GoesThrough cfg M) :
    (modules.flatMap printedRecords).length = runBranches modules := by
  rw [List.length_flatMap, runBranches]
  congr 1
  exact List.map_congr_left fun M hM => length_printedRecords (h M hM)

/-- A run with a branch creates both files. -/
theorem GoesThrough.creates (h : GoesThrough cfg M) (hbranch : 0 < (M.map branchCount).sum)
    (file : CsvFile) : creates cfg M file = true := by
  refine creates_of_served (fun hnone => hbranch.ne' ?_) file
  rw [List.sum_eq_zero_iff, List.forall_mem_map]
  intro f hf
  rw [← served_append_unserved cfg M, hnone] at hf
  exact h.2 f hf

end

/-- The files of the benchmarks after runs in directories that had none. -/
def runFiles (cfg : Config) (runs : Benchmark → List Module) : CsvFiles := fun folder file =>
  if (runs folder).any (creates cfg · file) then
    some ((optRuns cfg (runs folder) (fun _ => []) file).map OutByte.char)
  else none

section
variable {cfg : Config} {runs : Benchmark → List Module} {folder : Benchmark} {file : CsvFile}

theorem eq_of_runFiles {text : List Char} (h : runFiles cfg runs folder file = some text) :
    text = (optRuns cfg (runs folder) (fun _ => []) file).map OutByte.char := by
  rw [runFiles] at h
  split_ifs at h
  exact (Option.some.inj h).symm

theorem exists_runFiles (h : ∀ M ∈ runs folder, GoesThrough cfg M)
    (hbranch : 0 < runBranches (runs folder)) : ∃ text, runFiles cfg runs folder file = some text := by
  have hcreates : (runs folder).any (creates cfg · file) = true := by
    by_contra hnone
    refine hbranch.ne' ?_
    rw [runBranches, List.sum_eq_zero_iff, List.forall_mem_map]
    intro M hM
    by_contra hpos
    exact hnone (List.any_eq_true.2 ⟨M, hM, (h M hM).creates (Nat.pos_of_ne_zero hpos) file⟩)
  exact ⟨_, if_pos hcreates⟩

/-- The lines of the files, as far as the files exist, are the rows of records in some order. -/
theorem ordered_runFiles (h : ∀ M ∈ runs folder, GoesThrough cfg M) {order : CsvFile → List RowRecord}
    (hlength : ∀ file, (order file).length = runBranches (runs folder))
    (hlines : ∀ file, lines isNewlineChar
      ((optRuns cfg (runs folder) (fun _ => []) file).map OutByte.char) =
        (order file).map (RowRecord.text · file)) :
    Ordered (runFiles cfg runs) folder order where
  exists_text file hne := exists_runFiles h (hlength file ▸ List.length_pos_iff.2 hne)
  lines_text file _ htext := eq_of_runFiles htext ▸ hlines file

end

section
variable {cfg : Config} {runs : Benchmark → List Module}
  (h : ∀ folder, ∀ M ∈ runs folder, GoesThrough cfg M)
  (hstep : ∀ folder, ∀ M ∈ runs folder, InStep cfg.bufferSize M)
include h hstep

theorem exists_ordered : ∃ order : Benchmark → List RowRecord,
    (∀ folder, (order folder).Perm ((runs folder).flatMap printedRecords)) ∧
      (∀ folder, (order folder).length = runBranches (runs folder)) ∧
        ∀ folder, Ordered (runFiles cfg runs) folder fun _ => order folder := by
  have hexists := fun folder => exists_order_runs (h folder) (hstep folder)
  choose order horder hlines using hexists
  have hlength : ∀ folder, (order folder).length = runBranches (runs folder) := by
    intro folder
    rw [(horder folder).length_eq, length_flatMap_printedRecords (h folder)]
  exact ⟨order, horder, hlength, fun folder =>
    ordered_runFiles (h folder) (fun _ => hlength folder) (hlines folder)⟩

/-- When the streams flush in step, features and labels are those of the branches, one example for each;
the script fails exactly when some benchmark has no branch. -/
theorem trainingData_of_runs {σ δ : Type} {np : Numpy.Package (List Char) Datum σ δ}
    {float : List Char → Option Datum} (hnp : np.Documented float IsText) (hfloat : ReadsFixed float) :
    ∃ order : Benchmark → List RowRecord,
      (∀ folder, (order folder).Perm ((runs folder).flatMap printedRecords)) ∧
        ((∃ data, generateTrainingData np (runFiles cfg runs) = .ok data) ↔
            ∀ folder, 0 < runBranches (runs folder)) ∧
          ∀ data, generateTrainingData np (runFiles cfg runs) = .ok data →
            Examples np order data := by
  obtain ⟨order, horder, hlength, hordered⟩ := exists_ordered h hstep
  obtain ⟨hok, hexamples⟩ := trainingData_of_ordered hnp hfloat hordered
  refine ⟨order, horder, hok.trans (forall_congr' fun folder => ?_), hexamples⟩
  rw [← hlength, List.length_pos_iff]

end

/-- A run over two functions, the first of which flushes both its streams after 2048 rows. -/
def earlyFlush : Module := [analysedChain 2049, analysedChain 1]

theorem branchCounts_earlyFlush : earlyFlush.map branchCount = [2049, 1] :=
  map_branchCount_chain [2049, 1]

theorem goesThrough_earlyFlush (folder : Benchmark) : ∀ M ∈ (fun _ => [earlyFlush]) folder,
    GoesThrough (stdio 4096 (by decide)) M := by
  intro M hM
  obtain rfl := List.mem_singleton.1 hM
  exact goesThrough_chain [2049, 1]

theorem inStep_earlyFlush (folder : Benchmark) : ∀ M ∈ (fun _ => [earlyFlush]) folder,
    InStep (stdio 4096 (by decide)).bufferSize M := by
  intro M hM
  obtain rfl := List.mem_singleton.1 hM
  rw [InStep, branchCounts_earlyFlush, List.pairwise_pair]
  exact Or.inr (Or.inr ⟨2048, by decide, by decide, by decide⟩)

theorem runBranches_earlyFlush : runBranches [earlyFlush] = 2050 := by
  rw [runBranches, List.map_singleton, branchCounts_earlyFlush]
  rfl

theorem exists_data_earlyFlush : ∃ data, generateTrainingData (Numpy.reference readNearest)
    (runFiles (stdio 4096 (by decide)) fun _ => [earlyFlush]) = .ok data := by
  obtain ⟨order, _, hlength, hordered⟩ := exists_ordered goesThrough_earlyFlush inStep_earlyFlush
  obtain ⟨hok, _⟩ := trainingData_of_ordered
    (Numpy.reference_documented readNearest IsText) readsFixed_readNearest hordered
  refine hok.2 fun folder hnil => ?_
  have hcount := hlength folder
  rw [hnil, runBranches_earlyFlush] at hcount
  exact absurd hcount (by decide)

theorem trainingData_of_runs_earlyFlush : ∃ order : Benchmark → List RowRecord,
    (∀ folder, (order folder).Perm ([earlyFlush].flatMap printedRecords)) ∧
      ∃ data, generateTrainingData (Numpy.reference readNearest)
          (runFiles (stdio 4096 (by decide)) fun _ => [earlyFlush]) = .ok data ∧
        Examples (Numpy.reference readNearest) order data := by
  obtain ⟨order, horder, hok, hexamples⟩ := trainingData_of_runs goesThrough_earlyFlush
    inStep_earlyFlush (Numpy.reference_documented readNearest IsText) readsFixed_readNearest
  obtain ⟨data, hdata⟩ := hok.2 fun _ => by
    rw [runBranches_earlyFlush]
    decide
  exact ⟨order, horder, data, hdata, hexamples data hdata⟩

end CalcHeuristics
