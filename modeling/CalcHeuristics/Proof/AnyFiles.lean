import CalcHeuristics.Proof.Training

/-!
# Whatever is in the files

What the script does to the rows of two files that nobody vouches for. Rows are dropped by position, so
they stay together as long as the two files of a benchmark have one number of rows, which is never
checked; and the benchmark the model is tested on is one it was trained on.
-/

namespace CalcHeuristics

open Stdio FloatingPoint SideBySide

/-! ### When the script goes through -/

section
variable {float : List Char → Option Datum} {files : CsvFiles} {folder : Benchmark}

/-- What the rows of a training benchmark must be like: tables of the right widths, a row beside every row
that is dropped, and numbers in all fields that are kept. -/
structure Trainable (float : List Char → Option Datum) (h p : List (List (List Char))) : Prop where
  table_heuristics : IsTable 8 h
  table_trueProbability : IsTable 2 p
  dropped : ∀ i : Nat, h[i]? = some notApplicable → i < p.length
  number_heuristics : ∀ row ∈ h, row ≠ notApplicable → ∀ field ∈ row, ∃ v, float field = some v
  number_trueProbability : ∀ (i : Nat) (row : List (List Char)), p[i]? = some row →
    h[i]? ≠ some notApplicable → ∀ field ∈ row, ∃ v, float field = some v

theorem exists_converted_iff {rows : List (List (List Char))} :
    (∃ x, rows.mapM (fun row => row.mapM float) = some x) ↔
      ∀ row ∈ rows, ∀ field ∈ row, ∃ v, float field = some v := by
  rw [exists_mapM_iff]
  simp only [exists_mapM_iff]

theorem exists_trainRows_iff : (∃ x y, TrainRows float files folder x y) ↔
    ∃ h p, Finds files folder .heuristics h ∧ Finds files folder .trueProbability p ∧
      Trainable float h p := by
  constructor
  · rintro ⟨x, y, h, p, hreads, hin, hx, hy⟩
    have hnumber := exists_converted_iff.1 ⟨x, hx⟩
    have hnumber' := exists_converted_iff.1 ⟨y, hy⟩
    simp only [Numpy.mem_without, mem_dropped] at hin hnumber hnumber'
    refine ⟨h, p, hreads.heuristics, hreads.trueProbability, hreads.table_heuristics,
      hreads.table_trueProbability, hin, fun row hrow hne => ?_,
      fun i row hi hkept => hnumber' row ⟨i, hi, hkept⟩⟩
    obtain ⟨i, hi⟩ := List.mem_iff_getElem?.1 hrow
    exact hnumber row ⟨i, hi, fun hdropped => hne (Option.some.inj (hi.symm.trans hdropped))⟩
  · rintro ⟨h, p, hfinds, hfinds', htrain⟩
    have hx : ∃ x, (Numpy.without h (dropped h)).mapM (fun row => row.mapM float) = some x := by
      rw [exists_converted_iff]
      intro row hrow
      obtain ⟨i, hi, hkept⟩ := Numpy.mem_without.1 hrow
      refine htrain.number_heuristics row (List.mem_of_getElem? hi) ?_
      rintro rfl
      exact hkept (mem_dropped.2 hi)
    have hy : ∃ y, (Numpy.without p (dropped h)).mapM (fun row => row.mapM float) = some y := by
      rw [exists_converted_iff]
      intro row hrow
      obtain ⟨i, hi, hkept⟩ := Numpy.mem_without.1 hrow
      exact htrain.number_trueProbability i row hi (mt mem_dropped.2 hkept)
    obtain ⟨x, hx⟩ := hx
    obtain ⟨y, hy⟩ := hy
    exact ⟨x, y, h, p, ⟨hfinds, hfinds', htrain.table_heuristics, htrain.table_trueProbability⟩,
      fun i hi => htrain.dropped i (mem_dropped.1 hi), hx, hy⟩

theorem exists_testRows_iff : (∃ x y, TestRows float files folder x y) ↔
    ∃ h p, Reads files folder h p ∧ ∀ rows ∈ [h, p], ∀ row ∈ rows, ∀ field ∈ row,
      ∃ v, float field = some v := by
  constructor
  · rintro ⟨x, y, h, p, hreads, hx, hy⟩
    refine ⟨h, p, hreads, ?_⟩
    rw [List.forall_mem_cons, List.forall_mem_singleton]
    exact ⟨exists_converted_iff.1 ⟨x, hx⟩, exists_converted_iff.1 ⟨y, hy⟩⟩
  · rintro ⟨h, p, hreads, hnumber⟩
    rw [List.forall_mem_cons, List.forall_mem_singleton] at hnumber
    obtain ⟨x, hx⟩ := exists_converted_iff.2 hnumber.1
    obtain ⟨y, hy⟩ := exists_converted_iff.2 hnumber.2
    exact ⟨x, y, h, p, hreads, hx, hy⟩

end

section
variable {σ δ : Type} {np : Numpy.Package (List Char) Datum σ δ} {float : List Char → Option Datum}
  (hnp : np.Documented float IsText) {files : CsvFiles} (hnul : NulFree files)
include hnp hnul

/-- The script goes through exactly when the rows of every benchmark can be trained on and those of the
test benchmarks are numbers throughout. -/
theorem script_succeeds_iff :
    (∃ data, generateTrainingData np files = .ok data) ↔
      (∀ folder, ∃ h p, Finds files folder .heuristics h ∧ Finds files folder .trueProbability p ∧
          Trainable float h p) ∧
        ∀ folder ∈ testBenchmarkFolders, ∀ file rows, Finds files folder file rows →
          ∀ row ∈ rows, ∀ field ∈ row, ∃ v, float field = some v := by
  constructor
  · rintro ⟨data, hdata⟩
    obtain ⟨trainAdded, testAdded, htrain, htest, _⟩ :=
      collects_of_generateTrainingData hnp hnul hdata
    refine ⟨fun folder => ?_, fun folder hfolder file rows hfinds => ?_⟩
    · obtain ⟨a, ha⟩ := exists_of_forall₂ htrain (mem_trainBenchmarkFolders folder)
      exact exists_trainRows_iff.1 ⟨a.1, a.2, ha⟩
    · obtain ⟨a, ha⟩ := exists_of_forall₂ htest hfolder
      obtain ⟨h, p, hreads, hnumber⟩ := exists_testRows_iff.1 ⟨a.1, a.2, ha⟩
      cases file with
      | heuristics => exact hnumber rows (by simp [hreads.heuristics.unique hfinds])
      | trueProbability => exact hnumber rows (by simp [hreads.trueProbability.unique hfinds])
  · rintro ⟨htrain, htest⟩
    have htrainRows : ∀ folder ∈ trainBenchmarkFolders,
        ∃ a : List (List Datum) × List (List Datum), TrainRows float files folder a.1 a.2 := by
      intro folder _
      obtain ⟨x, y, hxy⟩ := exists_trainRows_iff.2 (htrain folder)
      exact ⟨(x, y), hxy⟩
    have htestRows : ∀ folder ∈ testBenchmarkFolders,
        ∃ a : List (List Datum) × List (List Datum), TestRows float files folder a.1 a.2 := by
      intro folder hfolder
      obtain ⟨h, p, hh, hp, htrainable⟩ := htrain folder
      have hnumber : ∀ rows ∈ [h, p], ∀ row ∈ rows, ∀ field ∈ row, ∃ v, float field = some v := by
        rw [List.forall_mem_cons, List.forall_mem_singleton]
        exact ⟨htest folder hfolder .heuristics h hh, htest folder hfolder .trueProbability p hp⟩
      obtain ⟨x, y, hxy⟩ := exists_testRows_iff.2 ⟨h, p, ⟨hh, hp, htrainable.table_heuristics,
        htrainable.table_trueProbability⟩, hnumber⟩
      exact ⟨(x, y), hxy⟩
    obtain ⟨trainAdded, htrainAdded⟩ := exists_forall₂_iff.2 htrainRows
    obtain ⟨testAdded, htestAdded⟩ := exists_forall₂_iff.2 htestRows
    obtain ⟨data, hdata, _⟩ := exists_generateTrainingData hnp hnul htrainAdded htestAdded
    exact ⟨data, hdata⟩

end

/-! ### Rows that stay together -/

/-- The rows that the reader finds in a file. -/
def csvRows (files : CsvFiles) (folder : Benchmark) (file : CsvFile) : List (List (List Char)) :=
  match files folder file with
  | some text => (Csv.reader ',' text).toOption.getD []
  | none => []

theorem csvRows_of_finds {files : CsvFiles} {folder : Benchmark} {file : CsvFile}
    {rows : List (List (List Char))} (h : Finds files folder file rows) :
    csvRows files folder file = rows := by
  obtain ⟨text, htext, hread⟩ := h
  rw [csvRows, htext]
  dsimp only
  rw [hread]
  rfl

/-- A row of each file, and the example they make. -/
def IsExample (float : List Char → Option Datum) (rows : List (List Char) × List (List Char))
    (ex : List Datum × Datum) : Prop :=
  rows.1.mapM float = some ex.1 ∧ ∃ y, rows.2.mapM float = some y ∧ rowLabel y = ex.2

section
variable {float : List Char → Option Datum} {files : CsvFiles} {folder : Benchmark}
  {x y : List (List Datum)}

theorem TrainRows.length_add (h : TrainRows float files folder x y) :
    x.length + (csvRows files folder .trueProbability).length =
      y.length + (csvRows files folder .heuristics).length := by
  obtain ⟨h, p, hreads, hin, hx, hy⟩ := h
  rw [csvRows_of_finds hreads.heuristics, csvRows_of_finds hreads.trueProbability,
    ← (mapM_eq_some_iff.1 hx).length_eq, ← (mapM_eq_some_iff.1 hy).length_eq]
  exact Numpy.length_without_add (fun i hi => lt_of_mem_dropped hi) hin

/-- The rows that are dropped are dropped from the pairs of rows. -/
theorem TrainRows.examples (h : TrainRows float files folder x y)
    (hlength : (csvRows files folder .heuristics).length =
      (csvRows files folder .trueProbability).length) :
    List.Forall₂ (IsExample float)
      (((csvRows files folder .heuristics).zip (csvRows files folder .trueProbability)).filter
        fun rows => rows.1 ≠ notApplicable) (x.zip (y.map rowLabel)) := by
  obtain ⟨h, p, hreads, _, hx, hy⟩ := h
  rw [csvRows_of_finds hreads.heuristics, csvRows_of_finds hreads.trueProbability] at hlength ⊢
  have hdropped : dropped h =
      Numpy.positions ((h.zip p).map fun rows => decide (rows.1 = notApplicable)) := by
    rw [dropped]
    conv_lhs => rw [← List.map_fst_zip hlength.le, List.map_map]
    rfl
  have hkept : (Numpy.without h (dropped h)).zip (Numpy.without p (dropped h)) =
      (h.zip p).filter fun rows => rows.1 ≠ notApplicable := by
    have hfilter := Numpy.without_positions id
      (fun rows : List (List Char) × List (List Char) => decide (rows.1 = notApplicable)) (h.zip p)
    rw [List.map_id, List.map_id] at hfilter
    rw [Numpy.zip_without, hdropped, hfilter]
    simp
  rw [← hkept, List.zip_map_right, List.forall₂_map_right_iff]
  refine (forall₂_zip_zip (mapM_eq_some_iff.1 hx) (mapM_eq_some_iff.1 hy)).imp ?_
  exact fun rows ex hrows => ⟨hrows.1, ex.2, hrows.2, rfl⟩

end

/-- A branch that only the call heuristic has something to say about. -/
def calledBranch : RowRecord :=
  ⟨⟨0, 0⟩, ⟨2 ^ 31, Nat.le_refl _⟩, ⟨.notApplicable, .notApplicable, .notApplicable, .notApplicable,
    .notApplicable, .taken, .notApplicable, .notApplicable⟩⟩

def calledBranchFiles : CsvFiles := fun _ file => some (calledBranch.text file)

theorem ordered_calledBranch (folder : Benchmark) :
    Ordered calledBranchFiles folder fun _ => [calledBranch] where
  exists_text file _ := ⟨_, rfl⟩
  lines_text file text htext := by
    rw [← Option.some.inj htext]
    simpa using (calledBranch.isRow_text file).lines_append []

theorem nulFree_calledBranch : NulFree calledBranchFiles := nulFree_of_ordered ordered_calledBranch

theorem exists_data_calledBranch : ∃ data,
    generateTrainingData (Numpy.reference readNearest) calledBranchFiles = .ok data ∧
      Examples (Numpy.reference readNearest) (fun _ => [calledBranch]) data := by
  obtain ⟨hok, hexamples⟩ := trainingData_of_ordered
    (Numpy.reference_documented readNearest IsText) readsFixed_readNearest ordered_calledBranch
  obtain ⟨data, hdata⟩ := hok.2 fun _ => List.cons_ne_nil _ _
  exact ⟨data, hdata, hexamples data hdata⟩

theorem csvRows_calledBranchFiles (folder : Benchmark) (file : CsvFile) :
    csvRows calledBranchFiles folder file = [calledBranch.fields file] :=
  csvRows_of_finds ((ordered_calledBranch folder).finds (List.cons_ne_nil _ _))

section
variable {σ δ : Type} {np : Numpy.Package (List Char) Datum σ δ} {float : List Char → Option Datum}
  (hnp : np.Documented float IsText) {files : CsvFiles} (hnul : NulFree files)
include hnp hnul

/-- Features and labels are as many as each other when the two files of the training benchmarks have as
many rows as each other in all, and they are those of the same rows when this holds of every benchmark. -/
theorem train_rows_paired {data : TrainingData δ} (h : generateTrainingData np files = .ok data) :
    ∃ x, np.HasRows data.xTrain 8 x ∧
      (x.length = data.yTrain.length ↔
        (trainBenchmarkFolders.map fun folder => (csvRows files folder .heuristics).length).sum =
          (trainBenchmarkFolders.map fun folder =>
            (csvRows files folder .trueProbability).length).sum) ∧
      ((∀ folder, (csvRows files folder .heuristics).length =
          (csvRows files folder .trueProbability).length) →
        List.Forall₂ (IsExample float)
          (trainBenchmarkFolders.flatMap fun folder =>
            ((csvRows files folder .heuristics).zip (csvRows files folder .trueProbability)).filter
              fun rows => rows.1 ≠ notApplicable)
          (x.zip data.yTrain)) := by
  obtain ⟨added, _, htrain, _, hcollects⟩ := collects_of_generateTrainingData hnp hnul h
  have hlabels : data.yTrain = added.flatMap fun a => a.2.map rowLabel := by
    rw [hcollects.yTrain, map_rowLabel fun row hrow => ?_, List.map_flatMap]
    obtain ⟨a, ha, hrow⟩ := List.mem_flatMap.1 hrow
    obtain ⟨folder, hrows⟩ : ∃ folder, TrainRows float files folder a.1 a.2 :=
      exists_of_forall₂ htrain.flip ha
    exact hrows.length_label row hrow
  refine ⟨_, hcollects.xTrain, ?_⟩
  rw [hlabels]
  clear h hcollects hlabels
  generalize trainBenchmarkFolders = folders at htrain ⊢
  constructor
  · have htotal : (added.flatMap Prod.fst).length +
          (folders.map fun folder => (csvRows files folder .trueProbability).length).sum =
        (added.flatMap fun a => a.2.map rowLabel).length +
          (folders.map fun folder => (csvRows files folder .heuristics).length).sum := by
      induction htrain with
      | nil => rfl
      | cons hrows _ ih =>
          have hadd := hrows.length_add
          simp only [List.flatMap_cons, List.length_append, List.length_map, List.map_cons,
            List.sum_cons] at ih ⊢
          omega
    omega
  · intro hlength
    induction htrain with
    | nil => exact .nil
    | cons hrows _ ih =>
        have hexamples := hrows.examples (hlength _)
        rw [List.flatMap_cons, List.flatMap_cons, List.flatMap_cons, List.zip_append ?_]
        · exact List.rel_append hexamples ih
        · have hadd := hrows.length_add
          rw [hlength] at hadd
          rw [List.length_map]
          omega

end

theorem train_rows_paired_calledBranch : ∃ data x,
    generateTrainingData (Numpy.reference readNearest) calledBranchFiles = .ok data ∧
      (Numpy.reference readNearest).HasRows data.xTrain 8 x ∧ x.length = data.yTrain.length ∧
      List.Forall₂ (IsExample readNearest)
        (trainBenchmarkFolders.flatMap fun folder =>
          ((csvRows calledBranchFiles folder .heuristics).zip
            (csvRows calledBranchFiles folder .trueProbability)).filter
              fun rows => rows.1 ≠ notApplicable)
        (x.zip data.yTrain) := by
  obtain ⟨data, hdata, _⟩ := exists_data_calledBranch
  obtain ⟨x, hx, htotal, hpairs⟩ := train_rows_paired
    (Numpy.reference_documented readNearest IsText) nulFree_calledBranch hdata
  refine ⟨data, x, hdata, hx, htotal.2 ?_, hpairs fun folder => ?_⟩
  · simp only [csvRows_calledBranchFiles, List.length_singleton]
  · simp only [csvRows_calledBranchFiles, List.length_singleton]

theorem script_succeeds_iff_calledBranch : (∀ folder, ∃ h p,
      Finds calledBranchFiles folder .heuristics h ∧ Finds calledBranchFiles folder .trueProbability p ∧
        Trainable readNearest h p) ∧
    ∀ folder ∈ testBenchmarkFolders, ∀ file rows, Finds calledBranchFiles folder file rows →
      ∀ row ∈ rows, ∀ field ∈ row, ∃ v, readNearest field = some v := by
  obtain ⟨data, hdata, _⟩ := exists_data_calledBranch
  exact (script_succeeds_iff (Numpy.reference_documented readNearest IsText)
    nulFree_calledBranch).1 ⟨data, hdata⟩

/-! ### Test examples in the training set -/

/-- What is added to the test set is also added to the training set, but for the rows in which every
field is that of a heuristic that does not apply. -/
theorem mem_trainRows {float : List Char → Option Datum} {files : CsvFiles} {folder : Benchmark}
    {x y x' y' : List (List Datum)} (htrain : TrainRows float files folder x y)
    (htest : TestRows float files folder x' y') {a b : List Datum} (hab : (a, b) ∈ x'.zip y')
    (happlies : a.map some ≠ notApplicable.map float) : (a, b) ∈ x.zip y := by
  obtain ⟨h, p, hreads, _, hx, hy⟩ := htrain
  obtain ⟨h', p', hreads', hx', hy'⟩ := htest
  obtain ⟨rfl, rfl⟩ := hreads.unique hreads'
  obtain rfl := Option.some.inj (hx.symm.trans (Numpy.mapM_without _ hx'))
  obtain rfl := Option.some.inj (hy.symm.trans (Numpy.mapM_without _ hy'))
  rw [Numpy.zip_without, Numpy.mem_without]
  obtain ⟨i, hi⟩ := List.mem_iff_getElem?.1 hab
  refine ⟨i, hi, fun hdropped => happlies ?_⟩
  -- a dropped row has the text of a row without predictions
  have hrow : h'[i]? = some notApplicable := mem_dropped.1 hdropped
  have hall := mapM_eq_some_iff.1 hx'
  have ha := (List.getElem?_zip_eq_some.1 hi).1
  obtain ⟨hlt, hget⟩ := List.getElem?_eq_some_iff.1 hrow
  obtain ⟨hlt', hget'⟩ := List.getElem?_eq_some_iff.1 ha
  have hfields := hall.get hlt hlt'
  rw [List.get_eq_getElem, List.get_eq_getElem, hget, hget', mapM_eq_some_iff] at hfields
  have hmap : List.Forall₂ (fun v w => v = w) (notApplicable.map float) (a.map some) := by
    rw [List.forall₂_map_left_iff, List.forall₂_map_right_iff]
    exact hfields
  exact (List.forall₂_eq_eq_eq ▸ hmap).symm

section
variable {σ δ : Type} {np : Numpy.Package (List Char) Datum σ δ} {float : List Char → Option Datum}
  (hnp : np.Documented float IsText) {files : CsvFiles} (hnul : NulFree files)
include hnp hnul

/-- The benchmark the model is tested on is the first it was trained on: whatever is in the files, every
test example on which some heuristic applies is a training example with the same label. -/
theorem test_examples_trained {data : TrainingData δ} (h : generateTrainingData np files = .ok data) :
    ∃ trained tested, np.HasRows data.xTrain 8 trained ∧ np.HasRows data.xTest 8 tested ∧
      ∀ x y, (x, y) ∈ tested.zip data.yTest → x.map some ≠ notApplicable.map float →
        (x, y) ∈ trained.zip data.yTrain := by
  obtain ⟨trainAdded, testAdded, htrain, htest, hcollects⟩ :=
    collects_of_generateTrainingData hnp hnul h
  obtain ⟨added, rest, hadded, _, rfl⟩ := List.forall₂_cons_left_iff.1 htrain
  obtain ⟨tested, more, htested, hmore, rfl⟩ := List.forall₂_cons_left_iff.1 htest
  obtain rfl := List.forall₂_nil_left_iff.1 hmore
  refine ⟨_, _, hcollects.xTrain, hcollects.xTest, fun x y hxy happlies => ?_⟩
  rw [hcollects.yTest, List.flatMap_singleton, List.flatMap_singleton,
    map_rowLabel htested.length_label, List.zip_map_right] at hxy
  obtain ⟨⟨a, b⟩, hab, heq⟩ := List.mem_map.1 hxy
  obtain ⟨rfl, rfl⟩ := Prod.mk.inj heq
  have hmem := mem_trainRows hadded htested hab happlies
  rw [hcollects.yTrain, List.flatMap_cons, List.flatMap_cons, List.filterMap_append,
    List.map_append, map_rowLabel hadded.length_label]
  refine mem_zip_append ?_
  rw [List.zip_map_right]
  exact List.mem_map.2 ⟨_, hmem, rfl⟩

end

theorem test_examples_trained_calledBranch : ∃ data trained,
    generateTrainingData (Numpy.reference readNearest) calledBranchFiles = .ok data ∧
      (Numpy.reference readNearest).HasRows data.xTrain 8 trained ∧
      (calledBranch.features, calledBranch.label) ∈ trained.zip data.yTrain := by
  obtain ⟨data, hdata, hexamples⟩ := exists_data_calledBranch
  obtain ⟨trained, tested, htrained, htested, hall⟩ := test_examples_trained
    (Numpy.reference_documented readNearest IsText) nulFree_calledBranch hdata
  refine ⟨data, trained, hdata, htrained, hall _ _ ?_ ?_⟩
  · rw [hexamples.xTest.unique htested, hexamples.yTest]
    exact List.mem_cons_self
  · have hhalf := float_prediction readsFixed_readNearest .notApplicable
    have htext : printfFixed 1 Prediction.notApplicable.value = ['0', '.', '5'] := by
      decide +kernel
    intro heq
    have hcall := congrArg (fun row => row[5]?) heq
    rw [notApplicable, List.map_replicate, ← htext, hhalf] at hcall
    simp [calledBranch, RowRecord.features, HeuristicRow.columns, Prediction.value] at hcall

end CalcHeuristics
