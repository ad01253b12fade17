import CalcHeuristics.Proof.Output
import CalcHeuristics.Stdio.RowBuffer

/-!
# What a crash leaves

A crash, on a branch the heuristics fault on or on a stream that could not be opened, loses what the streams
still held, which is everything for functions whose rows fit in one buffer. What is left in the files are
whole buffers. A buffer of 4096 bytes is a whole number of rows of `heuristics.csv`, so that file only ever
holds whole rows, after any number of runs and crashes.
-/

namespace CalcHeuristics

open Stdio

/-! ### The rows of a run that may crash -/

section
variable {file : CsvFile} {row : List OutByte} {printed : Printed}

theorem Stopped.isRow (s : Stopped) : IsRow OutByte.isNewline 18 s.bytes :=
  (isRow_trueProbText s.takenBrProb).map fun _ => rfl

/-- Whatever is printed is a row, also when the heuristics fault after it. -/
theorem Printed.isRow (h : row ∈ printed.rows file) :
    IsRow OutByte.isNewline file.rowWidth row := by
  have hrecord : ∀ r : RowRecord, IsRow OutByte.isNewline file.rowWidth (r.bytes file) :=
    (RowRecord.ownedRow file).isRow
  cases file with
  | heuristics =>
      obtain ⟨r, _, rfl⟩ := List.mem_map.1 h
      exact hrecord r
  | trueProbability =>
      obtain h | h := List.mem_append.1 h
      · obtain ⟨r, _, rfl⟩ := List.mem_map.1 h
        exact hrecord r
      · obtain ⟨s, _, rfl⟩ := List.mem_map.1 h
        exact s.isRow

theorem rowsOf_printed (functions : List Printed) (file : CsvFile) :
    RowsOf OutByte.isNewline file.rowWidth (functions.map (·.rows file)) := by
  intro rows hrows row hrow
  obtain ⟨printed, _, rfl⟩ := List.mem_map.1 hrows
  exact printed.isRow hrow

end

/-! ### A crash -/

theorem dvd_length_flatMap_early {α β : Type} (C : Nat) (l : List β) (f : β → List α) :
    C ∣ (l.flatMap fun b => early C (f b)).length := by
  induction l with
  | nil => exact dvd_zero C
  | cons b l ih =>
      rw [List.flatMap_cons, List.length_append, length_early]
      exact dvd_add (Dvd.intro _ rfl) ih

/-- A run crashes exactly when the heuristics fault on some branch of a function that has its streams, or a
function that has not has a branch. Then it has added whole buffers to each file, and nothing if the rows of
each function fit in one. -/
theorem crashed_run (cfg : Config) (M : Module) (disk : Disk) :
    ((optOver cfg M disk).2 = none ↔ GoesThrough cfg M) ∧
      ((optOver cfg M disk).2 ≠ none → ∀ file, ∃ blocks,
        (optOver cfg M disk).1 file = disk file ++ blocks ∧ cfg.bufferSize ∣ blocks.length ∧
          ((∀ f ∈ M, file.rowWidth * branchCount f ≤ cfg.bufferSize) → blocks = [])) := by
  refine ⟨fault_optOver cfg M disk, ?_⟩
  rw [optOver_eq, optOver_empty]
  refine fun hcrash file => ⟨_, congrArg (disk file ++ ·) (if_neg hcrash), ?_, fun hfits => ?_⟩
  · exact dvd_length_flatMap_early cfg.bufferSize _ _
  · apply List.flatMap_eq_nil_iff.2
    intro printed hprinted
    obtain ⟨f, hf, rfl⟩ := mem_functionsPrinted hprinted
    apply early_of_length_le
    rw [length_rows fun row hrow => Printed.isRow hrow]
    have hmem : f ∈ M.zipIdx :=
      served_append_unserved cfg M.zipIdx ▸ List.mem_append_left (unserved cfg M.zipIdx) hf
    exact (Nat.mul_le_mul_left _ (length_functionPrinted_le _ _ _ file)).trans
      ((forall_functions_iff fun f => file.rowWidth * branchCount f ≤ cfg.bufferSize).2 hfits f hmem)

/-- A function with a branch, and one on whose branch the heuristics fault. -/
def chainThenFault : Module :=
  [analysedChain 1, ⟨3, argumentCondition, standardAnalyses argumentCondition fun _ _ => certain⟩]

theorem crashed_run_chainThenFault : ∃ blocks,
    (optOver (stdio 4096 (by decide)) chainThenFault fun _ => []).1 .trueProbability =
        [] ++ blocks ∧
      4096 ∣ blocks.length ∧
        ((∀ f ∈ chainThenFault, 18 * branchCount f ≤ 4096) → blocks = []) := by
  have hcrash := crashed_run (stdio 4096 (by decide)) chainThenFault fun _ => []
  refine hcrash.2 (fun hnone => ?_) .trueProbability
  have hpass := (hcrash.1.1 hnone).passes _ (List.mem_cons_of_mem _ List.mem_cons_self) (0 : Fin 3)
    (.argument 0 (.integer 1)) 1 2 (by decide)
  obtain ⟨i, _, _, _, hi, _⟩ := hpass
  exact absurd hi (by simp [Function.dynCastInstruction])

/-! ### Whole rows -/

theorem exists_heuristicRows {rows : List (List OutByte)}
    (h : ∀ row ∈ rows, ∃ r : RowRecord, row = r.bytes .heuristics) :
    ∃ added : List HeuristicRow,
      rows.flatten.map OutByte.char = (added.map HeuristicRow.text).flatten := by
  induction rows with
  | nil => exact ⟨[], rfl⟩
  | cons row rows ih =>
      obtain ⟨r, rfl⟩ := h row List.mem_cons_self
      obtain ⟨added, hadded⟩ := ih fun row hrow => h row (List.mem_cons_of_mem _ hrow)
      refine ⟨r.heuristics :: added, ?_⟩
      rw [List.flatten_cons, List.map_append, hadded, List.map_cons, List.flatten_cons]
      simp [RowRecord.bytes, RowRecord.text, Function.comp_def]

theorem optOver_heuristics {cfg : Config} {q : Nat} (hq : cfg.bufferSize = 32 * q) (M : Module) :
    ∃ added : List HeuristicRow,
      ((optOver cfg M fun _ => []).1 .heuristics).map OutByte.char =
        (added.map HeuristicRow.text).flatten := by
  generalize hfunctions : functionsPrinted (served cfg M.zipIdx) = functions
  have hrows : RowsOf OutByte.isNewline 32 (functions.map (·.rows .heuristics)) :=
    rowsOf_printed functions .heuristics
  have hrecord : ∀ printed ∈ functions, ∀ row ∈ printed.rows .heuristics,
      ∃ r : RowRecord, row = r.bytes .heuristics := by
    intro printed _ row hrow
    obtain ⟨r, _, rfl⟩ := List.mem_map.1 hrow
    exact ⟨r, rfl⟩
  rw [optOver_empty, hfunctions, hq]
  dsimp only
  split
  · rw [rowFile_eq_flatten hrows]
    apply exists_heuristicRows
    intro row hrow
    obtain ⟨data, hdata, hmem⟩ := mem_finalContents.1 hrow
    obtain ⟨printed, hprinted, rfl⟩ := List.mem_map.1 hdata
    exact hrecord printed hprinted row hmem
  · have hearly : functions.flatMap
          (fun printed => early (32 * q) (printed.rows .heuristics).flatten) =
        (functions.flatMap fun printed => early q (printed.rows .heuristics)).flatten := by
      rw [List.flatMap, List.flatMap, List.flatten_flatten, List.map_map]
      congr 1
      apply List.map_congr_left
      intro printed hprinted
      exact early_rows (hrows _ (List.mem_map_of_mem hprinted)) q
    rw [hearly]
    apply exists_heuristicRows
    intro row hrow
    obtain ⟨printed, hprinted, hmem⟩ := List.mem_flatMap.1 hrow
    exact hrecord printed hprinted row (List.mem_of_mem_take hmem)

/-- With a buffer that holds a whole number of rows, any number of runs, crashed or not, only ever adds
whole rows to `heuristics.csv`. -/
theorem heuristics_rows_kept {cfg : Config} (hdvd : 32 ∣ cfg.bufferSize) (modules : List Module)
    {disk : Disk} {rows : List HeuristicRow}
    (hdisk : (disk .heuristics).map OutByte.char = (rows.map HeuristicRow.text).flatten) :
    ∃ added : List HeuristicRow,
      (optRuns cfg modules disk .heuristics).map OutByte.char =
        ((rows ++ added).map HeuristicRow.text).flatten := by
  obtain ⟨q, hq⟩ := hdvd
  induction modules generalizing disk rows with
  | nil => exact ⟨[], by simpa [optRuns] using hdisk⟩
  | cons M modules ih =>
      obtain ⟨first, hfirst⟩ := optOver_heuristics hq M
      have hstep : ((optOver cfg M disk).1 .heuristics).map OutByte.char =
          ((rows ++ first).map HeuristicRow.text).flatten := by
        rw [optOver_eq, List.map_append, List.flatten_append, ← hdisk, ← hfirst, ← List.map_append]
        rfl
      obtain ⟨rest, hrest⟩ := ih hstep
      exact ⟨first ++ rest, by rwa [List.append_assoc] at hrest⟩

theorem heuristics_rows_kept_chains : ∃ added : List HeuristicRow,
    (optRuns (stdio 4096 (by decide)) [chains, chainThenFault, chains] (fun _ => [])
        .heuristics).map OutByte.char = (([] ++ added).map HeuristicRow.text).flatten := by
  have hdvd : 32 ∣ (stdio 4096 (by decide)).bufferSize := by decide
  exact heuristics_rows_kept hdvd [chains, chainThenFault, chains] rfl

/-! ### One line for each branch -/

/-- The lines of what a run leaves in an empty file. -/
def runLines (cfg : Config) (M : Module) (file : CsvFile) : List (List Char) :=
  lines isNewlineChar (((optOver cfg M fun _ => []).1 file).map OutByte.char)

theorem lines_char (data : List OutByte) : lines isNewlineChar (data.map OutByte.char) =
    (lines OutByte.isNewline data).map (List.map OutByte.char) := lines_map (fun _ => rfl) data

section
variable {cfg : Config} {M : Module} {modules : List Module}

/-- A run that goes through ends its files with a newline and gives each as many lines as it has
branches. -/
theorem GoesThrough.lines (h : GoesThrough cfg M) (file : CsvFile) :
    EndsLine OutByte.isNewline ((optOver cfg M fun _ => []).1 file) ∧
      (runLines cfg M file).length = (M.map branchCount).sum := by
  obtain ⟨records, hrecords, hfiles⟩ := h.optOver_eq
  rw [runLines, hfiles]
  refine ⟨endsLine_rowFile ((RowRecord.ownedRow file).rowsOf records), ?_⟩
  rw [lines_char, List.length_map, (RowRecord.ownedRow file).length_lines_entryFile,
    List.length_flatten, length_moduleRecords hrecords]

/-- No line goes from one run into the next. -/
theorem lines_optRuns (h : ∀ M ∈ modules, GoesThrough cfg M) (file : CsvFile) :
    lines isNewlineChar ((optRuns cfg modules (fun _ => []) file).map OutByte.char) =
      modules.flatMap (runLines cfg · file) := by
  simp only [runLines, lines_char, optRuns_append, List.nil_append]
  induction modules with
  | nil => rfl
  | cons M modules ih =>
      obtain ⟨hends, _⟩ := (h M List.mem_cons_self).lines file
      rw [List.flatMap_cons, List.flatMap_cons, hends.lines_append, List.map_append,
        ih fun N hN => h N (List.mem_cons_of_mem _ hN)]

/-- The branches of some runs. -/
def runBranches (modules : List Module) : Nat := (modules.map fun M => (M.map branchCount).sum).sum

theorem length_lines_optRuns (h : ∀ M ∈ modules, GoesThrough cfg M) (file : CsvFile) :
    (lines isNewlineChar ((optRuns cfg modules (fun _ => []) file).map OutByte.char)).length =
      runBranches modules := by
  rw [lines_optRuns h, List.length_flatMap, runBranches]
  congr 1
  exact List.map_congr_left fun M hM => ((h M hM).lines file).2

/-- After runs that go through, the lines of a file are those each run alone would have left in an empty
one, in the order of the runs, and each run has one line for each of its branches, wherever the buffers cut
the rows. -/
theorem optRuns_lines (h : ∀ M ∈ modules, GoesThrough cfg M) (file : CsvFile) :
    lines isNewlineChar ((optRuns cfg modules (fun _ => []) file).map OutByte.char) =
        modules.flatMap (runLines cfg · file) ∧
      ∀ M ∈ modules, (runLines cfg M file).length = (M.map branchCount).sum :=
  ⟨lines_optRuns h file, fun M hM => ((h M hM).lines file).2⟩

end

theorem optRuns_lines_chains :
    lines isNewlineChar ((optRuns (stdio 4096 (by decide)) [chains, chains] (fun _ => [])
          .trueProbability).map OutByte.char) =
        [chains, chains].flatMap (runLines (stdio 4096 (by decide)) · .trueProbability) ∧
      ∀ M ∈ [chains, chains], (runLines (stdio 4096 (by decide)) M .trueProbability).length =
        (M.map branchCount).sum := by
  refine optRuns_lines (fun M hM => ?_) .trueProbability
  rw [List.eq_of_mem_replicate (n := 2) hM]
  exact goesThrough_chains

end CalcHeuristics
