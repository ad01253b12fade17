import CalcHeuristics.Fallible.Bind
import CalcHeuristics.Proof.Fields

/-!
# From the files to the data sets

What `generate_training_data` returns is determined by the rows of fields that the reader finds:
`TrainRows` and `TestRows` say when a benchmark is added and what it adds. From the array package this takes
what is documented, on fields without null characters, which an array of texts gives back as they were.
-/

namespace CalcHeuristics

open Stdio FloatingPoint Fallible SideBySide

/-! ### What is in the files -/

section
variable (float : List Char → Option Datum) (files : CsvFiles) (folder : Benchmark)

/-- The file exists, and these are the rows that the reader finds in it. -/
def Finds (file : CsvFile) (rows : List (List (List Char))) : Prop :=
  ∃ text, files folder file = some text ∧ Csv.reader ',' text = .ok rows

/-- A field without null characters. -/
def IsText (field : List Char) : Prop := Char.ofNat 0 ∉ field

/-- No field in the files has a null character. -/
def NulFree : Prop :=
  ∀ folder file rows, Finds files folder file rows → ∀ row ∈ rows, ∀ field ∈ row, IsText field

/-- Rows that make an array of two dimensions. -/
structure IsTable (width : Nat) (rows : List (List (List Char))) : Prop where
  ne_nil : rows ≠ []
  length_eq : ∀ row ∈ rows, row.length = width

/-- The reader finds tables of the right widths in the two files of a benchmark. -/
structure Reads (h p : List (List (List Char))) : Prop where
  heuristics : Finds files folder .heuristics h
  trueProbability : Finds files folder .trueProbability p
  table_heuristics : IsTable 8 h
  table_trueProbability : IsTable 2 p

/-- The positions of the rows that are no training examples. -/
def dropped (rows : List (List (List Char))) : List Nat :=
  Numpy.positions (rows.map fun row => row = notApplicable)

/-- What a benchmark adds to the training set. -/
def TrainRows (x y : List (List Datum)) : Prop :=
  ∃ h p, Reads files folder h p ∧ (∀ i ∈ dropped h, i < p.length) ∧
    (Numpy.without h (dropped h)).mapM (fun row => row.mapM float) = some x ∧
    (Numpy.without p (dropped h)).mapM (fun row => row.mapM float) = some y

/-- What a benchmark adds to the test set. -/
def TestRows (x y : List (List Datum)) : Prop :=
  ∃ h p, Reads files folder h p ∧ h.mapM (fun row => row.mapM float) = some x ∧
    p.mapM (fun row => row.mapM float) = some y

end

section
variable {files : CsvFiles} {folder : Benchmark} {file : CsvFile} {rows : List (List (List Char))}

theorem Finds.unique {rows' : List (List (List Char))} (h : Finds files folder file rows)
    (h' : Finds files folder file rows') : rows' = rows := by
  obtain ⟨text, htext, hread⟩ := h
  obtain ⟨text', htext', hread'⟩ := h'
  obtain rfl := Option.some.inj (htext.symm.trans htext')
  exact Except.ok.inj (hread'.symm.trans hread)

theorem Reads.unique {h p h' p' : List (List (List Char))} (hreads : Reads files folder h p)
    (hreads' : Reads files folder h' p') : h' = h ∧ p' = p :=
  ⟨hreads.heuristics.unique hreads'.heuristics,
    hreads.trueProbability.unique hreads'.trueProbability⟩

theorem isText_notApplicable : ∀ field ∈ notApplicable, IsText field := by
  intro field hfield
  rw [List.eq_of_mem_replicate hfield, IsText]
  decide

theorem mem_dropped {i : Nat} : i ∈ dropped rows ↔ rows[i]? = some notApplicable := by
  rw [dropped, Numpy.mem_positions, List.getElem?_map, Option.map_eq_some_iff]
  simp only [decide_eq_true_iff, exists_eq_right]

section
variable {float : List Char → Option Datum} {x y : List (List Datum)}

theorem TrainRows.length_label (h : TrainRows float files folder x y) : ∀ row ∈ y, row.length = 2 := by
  obtain ⟨h, p, hreads, _, _, hy⟩ := h
  exact Numpy.length_of_mapM hy fun row hrow =>
    hreads.table_trueProbability.length_eq row (Numpy.mem_of_mem_without hrow)

theorem TestRows.length_label (h : TestRows float files folder x y) : ∀ row ∈ y, row.length = 2 := by
  obtain ⟨h, p, hreads, _, hy⟩ := h
  exact Numpy.length_of_mapM hy hreads.table_trueProbability.length_eq

end

theorem lt_of_mem_dropped {i : Nat} (hi : i ∈ dropped rows) : i < rows.length :=
  (List.getElem?_eq_some_iff.1 (mem_dropped.1 hi)).1

end

/-! ### One file -/

section
variable {σ δ : Type} {np : Numpy.Package (List Char) Datum σ δ} {files : CsvFiles}
  {folder : Benchmark} {file : CsvFile} {rows : List (List (List Char))} {a : δ} {width : Nat}
  {X : List (List Datum)}

theorem readCsv_eq_ok_iff {s : σ} : readCsv np (files folder file) = .ok s ↔
    ∃ rows, Finds files folder file rows ∧ s = np.array rows := by
  cases htext : files folder file with
  | none => simp [readCsv, Finds, htext]
  | some text =>
      rw [readCsv]
      cases hread : Csv.reader ',' text <;>
        simp [Finds, htext, hread, Except.mapError, Except.map, eq_comm]

variable {float : List Char → Option Datum} (hnp : np.Documented float IsText) (hnul : NulFree files)
  (hfinds : Finds files folder file rows) (ha : np.HasRows a width X)
include hnp hnul hfinds

theorem texts_iff {t : Numpy.Table (List Char)} :
    np.texts (np.array rows) = some t ↔ rows ≠ [] ∧ t.rows = rows :=
  hnp.texts_array (hnul folder file rows hfinds)

omit hnp in
theorem exists_texts (hnp : np.Documented float IsText) (htable : IsTable width rows) :
    ∃ t, np.texts (np.array rows) = some t ∧ t.width = width ∧ t.rows = rows :=
  ⟨⟨width, rows, htable.length_eq⟩, (texts_iff hnp hnul hfinds).2 ⟨htable.ne_nil, rfl⟩, rfl, rfl⟩

include ha

/-- What is converted and put at the end are the rows of a table. -/
theorem of_added {b : δ} (hrun : (np.astype (np.array rows) >>= np.concatenate a) = .ok b) :
    IsTable width rows ∧ ∃ x, rows.mapM (fun row => row.mapM float) = some x ∧
      np.HasRows b width (X ++ x) := by
  obtain ⟨t, x, ht, rfl, hx, hb⟩ := hnp.of_astype_concatenate ha hrun
  obtain ⟨hne, rfl⟩ := (texts_iff hnp hnul hfinds).1 ht
  exact ⟨⟨hne, t.length_eq⟩, x, hx, hb⟩

theorem exists_added {x : List (List Datum)} (htable : IsTable width rows)
    (hx : rows.mapM (fun row => row.mapM float) = some x) :
    ∃ c b, np.astype (np.array rows) = .ok c ∧ np.concatenate a c = .ok b ∧
      np.HasRows b width (X ++ x) := by
  obtain ⟨t, ht, hwidth, rfl⟩ := exists_texts hnul hfinds hnp htable
  exact hnp.exists_astype_concatenate ha ht hwidth hx

/-- Some rows are deleted before. -/
theorem of_added_without {b : δ} {ps : List Nat}
    (hrun : ((np.delete (np.array rows) ps >>= np.astype) >>= np.concatenate a) = .ok b) :
    IsTable width rows ∧ (∀ i ∈ ps, i < rows.length) ∧
      ∃ x, (Numpy.without rows ps).mapM (fun row => row.mapM float) = some x ∧
        np.HasRows b width (X ++ x) := by
  rw [bind_assoc, bind_eq_ok_iff] at hrun
  obtain ⟨s, hdelete, hrun⟩ := hrun
  obtain ⟨t, x, ht, rfl, hx, hb⟩ := hnp.of_astype_concatenate ha hrun
  obtain ⟨t', ht', hwidth, hrows, hin⟩ := hnp.of_delete hdelete ht
  obtain ⟨hne, rfl⟩ := (texts_iff hnp hnul hfinds).1 ht'
  exact ⟨⟨hne, hwidth ▸ t'.length_eq⟩, hin, x, hrows ▸ hx, hb⟩

theorem exists_added_without {ps : List Nat} {x : List (List Datum)} (htable : IsTable width rows)
    (hin : ∀ i ∈ ps, i < rows.length)
    (hx : (Numpy.without rows ps).mapM (fun row => row.mapM float) = some x) :
    ∃ s c b, np.delete (np.array rows) ps = .ok s ∧ np.astype s = .ok c ∧
      np.concatenate a c = .ok b ∧ np.HasRows b width (X ++ x) := by
  obtain ⟨t, ht, hwidth, rfl⟩ := exists_texts hnul hfinds hnp htable
  obtain ⟨s, hs, htexts⟩ := hnp.exists_delete ht hin
  obtain ⟨c, b, hc, hb, hrows⟩ := hnp.exists_astype_concatenate ha htexts hwidth hx
  exact ⟨s, c, b, hs, hc, hb, hrows⟩

end

/-! ### One benchmark -/

section
variable {σ δ : Type} {np : Numpy.Package (List Char) Datum σ δ}

/-- A set of examples: the rows of its two arrays. -/
structure Holds (np : Numpy.Package (List Char) Datum σ δ) (set : δ × δ) (x y : List (List Datum)) :
    Prop where
  x : np.HasRows set.1 8 x
  y : np.HasRows set.2 2 y

variable {float : List Char → Option Datum} (hnp : np.Documented float IsText) {files : CsvFiles}
  (hnul : NulFree files) (folder : Benchmark) {set set' : δ × δ} {X Y x y : List (List Datum)}
include hnp hnul

theorem allEqual_notApplicable {file : CsvFile} {rows : List (List (List Char))}
    (hfinds : Finds files folder file rows) (htable : IsTable 8 rows) :
    np.allEqual (np.array rows) notApplicable = .ok (rows.map fun row => row = notApplicable) := by
  obtain ⟨t, ht, hwidth, rfl⟩ := exists_texts hnul hfinds hnp htable
  exact hnp.allEqual_texts isText_notApplicable ht (by rw [hwidth]; rfl) (by rw [hwidth]; decide)

theorem trainRows_of_addTrain (hset : Holds np set X Y)
    (h : addTrain np files set folder = .ok set') :
    ∃ x y, TrainRows float files folder x y ∧ Holds np set' (X ++ x) (Y ++ y) := by
  simp only [addTrain, bind_eq_ok_iff, mapError_eq_ok_iff, readCsv_eq_ok_iff] at h
  obtain ⟨_, ⟨h, hfinds, rfl⟩, _, ⟨p, hfinds', rfl⟩, mask, hmask, a, ha, b, hb, xTrain, hx, yTrain, hy,
    heq⟩ := h
  obtain rfl := Except.ok.inj heq
  have hrun := bind_eq_ok_iff.2 ⟨a, bind_eq_ok_iff.2 ha, hx⟩
  have hrun' := bind_eq_ok_iff.2 ⟨b, bind_eq_ok_iff.2 hb, hy⟩
  obtain ⟨htable, _, x, hx, hX⟩ := of_added_without hnp hnul hfinds hset.x hrun
  obtain ⟨htable', hin, y, hy, hY⟩ := of_added_without hnp hnul hfinds' hset.y hrun'
  obtain rfl := Except.ok.inj (hmask.symm.trans (allEqual_notApplicable hnp hnul folder hfinds htable))
  rw [hnp.nonzero_eq] at hin hx hy
  exact ⟨x, y, ⟨h, p, ⟨hfinds, hfinds', htable, htable'⟩, hin, hx, hy⟩, hX, hY⟩

theorem exists_addTrain (hset : Holds np set X Y) (h : TrainRows float files folder x y) :
    ∃ set', addTrain np files set folder = .ok set' ∧ Holds np set' (X ++ x) (Y ++ y) := by
  obtain ⟨h, p, hreads, hin, hx, hy⟩ := h
  obtain ⟨s, c, xTrain, hs, hc, hconcat, hX⟩ := exists_added_without hnp hnul hreads.heuristics
    hset.x hreads.table_heuristics (fun i hi => lt_of_mem_dropped hi) hx
  obtain ⟨s', c', yTrain, hs', hc', hconcat', hY⟩ := exists_added_without hnp hnul
    hreads.trueProbability hset.y hreads.table_trueProbability hin hy
  refine ⟨(xTrain, yTrain), ?_, hX, hY⟩
  simp only [addTrain, bind_eq_ok_iff, mapError_eq_ok_iff, readCsv_eq_ok_iff]
  rw [dropped, ← hnp.nonzero_eq] at hs hs'
  exact ⟨_, ⟨h, hreads.heuristics, rfl⟩, _, ⟨p, hreads.trueProbability, rfl⟩, _,
    allEqual_notApplicable hnp hnul folder hreads.heuristics hreads.table_heuristics, c, ⟨s, hs, hc⟩, c',
    ⟨s', hs', hc'⟩, xTrain, hconcat, yTrain, hconcat', rfl⟩

theorem testRows_of_addTest (hset : Holds np set X Y) (h : addTest np files set folder = .ok set') :
    ∃ x y, TestRows float files folder x y ∧ Holds np set' (X ++ x) (Y ++ y) := by
  simp only [addTest, bind_eq_ok_iff, mapError_eq_ok_iff, readCsv_eq_ok_iff] at h
  obtain ⟨_, ⟨h, hfinds, rfl⟩, _, ⟨p, hfinds', rfl⟩, xTest, hx, yTest, hy, heq⟩ := h
  obtain rfl := Except.ok.inj heq
  obtain ⟨htable, x, hx, hX⟩ := of_added hnp hnul hfinds hset.x (bind_eq_ok_iff.2 hx)
  obtain ⟨htable', y, hy, hY⟩ := of_added hnp hnul hfinds' hset.y (bind_eq_ok_iff.2 hy)
  exact ⟨x, y, ⟨h, p, ⟨hfinds, hfinds', htable, htable'⟩, hx, hy⟩, hX, hY⟩

theorem exists_addTest (hset : Holds np set X Y) (h : TestRows float files folder x y) :
    ∃ set', addTest np files set folder = .ok set' ∧ Holds np set' (X ++ x) (Y ++ y) := by
  obtain ⟨h, p, hreads, hx, hy⟩ := h
  obtain ⟨c, xTest, hc, hconcat, hX⟩ := exists_added hnp hnul hreads.heuristics hset.x
    hreads.table_heuristics hx
  obtain ⟨c', yTest, hc', hconcat', hY⟩ := exists_added hnp hnul hreads.trueProbability hset.y
    hreads.table_trueProbability hy
  refine ⟨(xTest, yTest), ?_, hX, hY⟩
  simp only [addTest, bind_eq_ok_iff, mapError_eq_ok_iff, readCsv_eq_ok_iff]
  exact ⟨_, ⟨h, hreads.heuristics, rfl⟩, _, ⟨p, hreads.trueProbability, rfl⟩, xTest, ⟨c, hc, hconcat⟩,
    yTest, ⟨c', hc', hconcat'⟩, rfl⟩

end

/-! ### All benchmarks -/

section
variable {σ δ : Type} {np : Numpy.Package (List Char) Datum σ δ}

section
variable {step : δ × δ → Benchmark → Except PythonError (δ × δ)}
  {Adds : Benchmark → List (List Datum) → List (List Datum) → Prop}

/-- A loop over benchmarks puts what they add one after the other. -/
theorem adds_of_foldlM
    (hstep : ∀ set set' folder X Y, Holds np set X Y → step set folder = .ok set' →
      ∃ x y, Adds folder x y ∧ Holds np set' (X ++ x) (Y ++ y))
    {folders : List Benchmark} {set set' : δ × δ} {X Y : List (List Datum)} (hset : Holds np set X Y)
    (h : folders.foldlM step set = .ok set') :
    ∃ added : List (List (List Datum) × List (List Datum)),
      List.Forall₂ (fun folder a => Adds folder a.1 a.2) folders added ∧
        Holds np set' (X ++ added.flatMap Prod.fst) (Y ++ added.flatMap Prod.snd) := by
  induction folders generalizing set X Y with
  | nil =>
      obtain rfl := Except.ok.inj h
      exact ⟨[], .nil, by simpa using hset⟩
  | cons folder folders ih =>
      rw [List.foldlM_cons, bind_eq_ok_iff] at h
      obtain ⟨first, hfirst, hrest⟩ := h
      obtain ⟨x, y, hxy, hholds⟩ := hstep _ _ _ _ _ hset hfirst
      obtain ⟨added, hadded, hholds'⟩ := ih hholds hrest
      refine ⟨(x, y) :: added, .cons hxy hadded, ?_⟩
      simpa only [List.flatMap_cons, List.append_assoc] using hholds'

theorem exists_foldlM
    (hstep : ∀ set folder X Y x y, Holds np set X Y → Adds folder x y →
      ∃ set', step set folder = .ok set' ∧ Holds np set' (X ++ x) (Y ++ y))
    {folders : List Benchmark} {added : List (List (List Datum) × List (List Datum))}
    (hadded : List.Forall₂ (fun folder a => Adds folder a.1 a.2) folders added)
    {set : δ × δ} {X Y : List (List Datum)} (hset : Holds np set X Y) :
    ∃ set', folders.foldlM step set = .ok set' ∧
      Holds np set' (X ++ added.flatMap Prod.fst) (Y ++ added.flatMap Prod.snd) := by
  induction hadded generalizing set X Y with
  | nil => exact ⟨set, rfl, by simpa using hset⟩
  | cons hxy _ ih =>
      obtain ⟨first, hfirst, hholds⟩ := hstep _ _ _ _ _ _ hset hxy
      obtain ⟨set', hrest, hholds'⟩ := ih hholds
      refine ⟨set', ?_, by simpa only [List.flatMap_cons, List.append_assoc] using hholds'⟩
      rw [List.foldlM_cons, hfirst]
      exact hrest

end

/-- The data sets that were put together from what the benchmarks add. -/
structure Collects (np : Numpy.Package (List Char) Datum σ δ)
    (trainAdded testAdded : List (List (List Datum) × List (List Datum))) (data : TrainingData δ) :
    Prop where
  xTrain : np.HasRows data.xTrain 8 (trainAdded.flatMap Prod.fst)
  yTrain : data.yTrain = ((trainAdded.flatMap Prod.snd).filterMap List.head?).map Datum.round
  xTest : np.HasRows data.xTest 8 (testAdded.flatMap Prod.fst)
  yTest : data.yTest = ((testAdded.flatMap Prod.snd).filterMap List.head?).map Datum.round

variable {float : List Char → Option Datum} (hnp : np.Documented float IsText) {files : CsvFiles}
  (hnul : NulFree files)
include hnp

theorem holds_empty : Holds np (np.empty 8, np.empty 2) [] [] :=
  ⟨hnp.hasRows_empty 8, hnp.hasRows_empty 2⟩

theorem labels_of_hasRows {a : δ} {y : List (List Datum)} (h : np.HasRows a 2 y) :
    labels np a = .ok ((y.filterMap List.head?).map Datum.round) := by
  rw [labels, hnp.firstColumn_of_hasRows h (by decide)]
  rfl

include hnul

theorem collects_of_generateTrainingData {data : TrainingData δ}
    (h : generateTrainingData np files = .ok data) :
    ∃ trainAdded testAdded,
      List.Forall₂ (fun folder a => TrainRows float files folder a.1 a.2) trainBenchmarkFolders
          trainAdded ∧
        List.Forall₂ (fun folder a => TestRows float files folder a.1 a.2) testBenchmarkFolders
          testAdded ∧
        Collects np trainAdded testAdded data := by
  simp only [generateTrainingData, bind_eq_ok_iff] at h
  obtain ⟨train, htrain, test, htest, yTrain, hyTrain, yTest, hyTest, heq⟩ := h
  obtain rfl := Except.ok.inj heq
  obtain ⟨trainAdded, hadded, hholds⟩ :=
    adds_of_foldlM (fun _ _ folder _ _ => trainRows_of_addTrain hnp hnul folder) (holds_empty hnp) htrain
  obtain ⟨testAdded, hadded', hholds'⟩ :=
    adds_of_foldlM (fun _ _ folder _ _ => testRows_of_addTest hnp hnul folder) (holds_empty hnp) htest
  rw [labels_of_hasRows hnp hholds.y] at hyTrain
  rw [labels_of_hasRows hnp hholds'.y] at hyTest
  exact ⟨trainAdded, testAdded, hadded, hadded', hholds.x, (Except.ok.inj hyTrain).symm, hholds'.x,
    (Except.ok.inj hyTest).symm⟩

theorem exists_generateTrainingData
    {trainAdded testAdded : List (List (List Datum) × List (List Datum))}
    (htrain : List.Forall₂ (fun folder a => TrainRows float files folder a.1 a.2)
      trainBenchmarkFolders trainAdded)
    (htest : List.Forall₂ (fun folder a => TestRows float files folder a.1 a.2)
      testBenchmarkFolders testAdded) :
    ∃ data, generateTrainingData np files = .ok data ∧ Collects np trainAdded testAdded data := by
  obtain ⟨train, htrain, hholds⟩ :=
    exists_foldlM (fun _ folder _ _ _ _ => exists_addTrain hnp hnul folder) htrain (holds_empty hnp)
  obtain ⟨test, htest, hholds'⟩ :=
    exists_foldlM (fun _ folder _ _ _ _ => exists_addTest hnp hnul folder) htest (holds_empty hnp)
  refine ⟨⟨train.1, _, test.1, _⟩, ?_, hholds.x, rfl, hholds'.x, rfl⟩
  rw [generateTrainingData, htrain, ok_bind, htest, ok_bind, labels_of_hasRows hnp hholds.y, ok_bind,
    labels_of_hasRows hnp hholds'.y]
  rfl

end

/-! ### Labels -/

/-- The label of a row of true probabilities. -/
def rowLabel (row : List Datum) : Datum := (row.headD .nan).round

theorem map_rowLabel {rows : List (List Datum)} (h : ∀ row ∈ rows, row.length = 2) :
    (rows.filterMap List.head?).map Datum.round = rows.map rowLabel := by
  induction rows with
  | nil => rfl
  | cons row rows ih =>
      rw [List.forall_mem_cons] at h
      obtain ⟨a, row, rfl⟩ := List.exists_cons_of_length_eq_add_one h.1
      rw [List.map_cons, ← ih h.2]
      rfl

end CalcHeuristics
