import CalcHeuristics.Session

/-!
# Run after run

Streams are opened for appending, so a run never reads or changes what an earlier one has written, and
what it adds depends on its module alone. This holds of every step of a run and of whatever a crash leaves
behind.
-/

namespace CalcHeuristics

open Stdio

/-! ### The run without the process at a fault -/

theorem tracked_runOnFunction_eq {n : Nat} (F : Function n) (A : Analyses n) (cfg : Config)
    (index : Nat) (p : Process CsvFile OutByte) :
    Tracked.runOnFunction F A cfg index p =
      (List.finRange n).foldlM
        (Tracked.writeBlock F A cfg index (fopen cfg p .heuristics).1
          (fopen cfg (fopen cfg p .heuristics).2 .trueProbability).1)
        (fopen cfg (fopen cfg p .heuristics).2 .trueProbability).2 := rfl

/-- A run over empty files, without what a crash leaves in them, is the run of one process. -/
theorem opt_eq_optOver (cfg : Config) (M : Module) :
    opt cfg M = match optOver cfg M (fun _ => []) with
      | (files, none) => .ok files
      | (_, some fault) => .error fault := by
  have hstart : optOver cfg M (fun _ => []) =
      leave (Tracked.runOnFunctions cfg M.zipIdx Process.start) := rfl
  rw [opt, runOnModule, hstart]
  cases Tracked.runOnFunctions cfg M.zipIdx Process.start <;> rfl

theorem opt_eq_ok_iff (cfg : Config) (M : Module) (files : Disk) :
    opt cfg M = .ok files ↔ optOver cfg M (fun _ => []) = (files, none) := by
  rw [opt_eq_optOver]
  obtain ⟨left, _ | fault⟩ := optOver cfg M fun _ => []
  · simp
  · simp

theorem runOnModule_eq_error_iff (cfg : Config) (M : Module) (fault : Fault) :
    runOnModule cfg M = .error fault ↔ (optOver cfg M fun _ => []).2 = some fault := by
  have hstart : optOver cfg M (fun _ => []) =
      leave (Tracked.runOnFunctions cfg M.zipIdx Process.start) := rfl
  rw [runOnModule, hstart]
  cases Tracked.runOnFunctions cfg M.zipIdx Process.start <;> simp [Except.mapError, leave]

/-! ### What is in the files already -/

/-- The same computation over files that hold `old` before everything else. -/
def Tracked.onTop (old : Disk) : Tracked (Process CsvFile OutByte) → Tracked (Process CsvFile OutByte)
  | .ok p => .ok (p.onTop old)
  | .error (fault, p) => .error (fault, p.onTop old)

section
variable {old : Disk}

theorem foldlM_onTop {α : Type}
    {step : Process CsvFile OutByte → α → Tracked (Process CsvFile OutByte)}
    (hstep : ∀ p a, step (p.onTop old) a = Tracked.onTop old (step p a)) (l : List α)
    (p : Process CsvFile OutByte) :
    l.foldlM step (p.onTop old) = Tracked.onTop old (l.foldlM step p) := by
  induction l generalizing p with
  | nil => rfl
  | cons a l ih =>
      rw [List.foldlM_cons, List.foldlM_cons, hstep]
      cases step p a with
      | error stopped => rfl
      | ok q => exact ih q

theorem fprintf_onTop (cfg : Config) (stream : Option Nat) (branch : BranchId) (text : List Char)
    (p : Process CsvFile OutByte) : fprintf cfg stream branch text (p.onTop old) =
      Tracked.onTop old (fprintf cfg stream branch text p) := by
  cases stream with
  | none => rfl
  | some s => exact congrArg Except.ok (fwrite_onTop old p cfg s _)

theorem writeBlock_onTop {n : Nat} (F : Function n) (A : Analyses n) (cfg : Config)
    (index : Nat) (heuristicData trueProbData : Option Nat) (p : Process CsvFile OutByte)
    (b : Fin n) :
    Tracked.writeBlock F A cfg index heuristicData trueProbData (p.onTop old) b =
      Tracked.onTop old (Tracked.writeBlock F A cfg index heuristicData trueProbData p b) := by
  rw [Tracked.writeBlock, Tracked.writeBlock]
  cases F.branchInst b with
  | none => rfl
  | some br =>
      dsimp only
      rw [fprintf_onTop]
      cases fprintf cfg trueProbData ⟨index, b⟩ (trueProbText (A.getEdgeProbability b 0)) p with
      | error fault => rfl
      | ok printed =>
          cases heuristicRow F A b br.takenSuccessor br.notTakenSuccessor with
          | error fault => rfl
          | ok row => exact fprintf_onTop cfg heuristicData ⟨index, b⟩ row.text printed

theorem runOnFunctions_onTop (cfg : Config) (functions : List (AnalysedFunction × Nat))
    (p : Process CsvFile OutByte) : Tracked.runOnFunctions cfg functions (p.onTop old) =
      Tracked.onTop old (Tracked.runOnFunctions cfg functions p) := by
  refine foldlM_onTop (fun p f => ?_) functions p
  rw [tracked_runOnFunction_eq, tracked_runOnFunction_eq, fopen_onTop, fopen_onTop]
  exact foldlM_onTop (writeBlock_onTop _ _ cfg _ _ _) _ _

theorem leave_onTop (run : Tracked (Process CsvFile OutByte)) :
    leave (Tracked.onTop old run) = (appended old (leave run).1, (leave run).2) := by
  obtain ⟨fault, p⟩ | p := run
  · rfl
  · exact congrArg (·, none) (exit_onTop old p)

end

/-- A run adds to the files what it leaves in empty ones. -/
theorem optOver_eq (cfg : Config) (M : Module) (disk : Disk) :
    optOver cfg M disk =
      (appended disk (optOver cfg M fun _ => []).1, (optOver cfg M fun _ => []).2) := by
  rw [optOver, over_eq_onTop, runOnFunctions_onTop, leave_onTop]
  rfl

theorem optRuns_append (cfg : Config) (modules : List Module) (disk : Disk) (file : CsvFile) :
    optRuns cfg modules disk file =
      disk file ++ modules.flatMap fun M => (optOver cfg M fun _ => []).1 file := by
  induction modules generalizing disk with
  | nil => simp [optRuns]
  | cons M modules ih =>
      rw [optRuns, List.foldl_cons, ← optRuns, ih, optOver_eq, List.flatMap_cons]
      exact List.append_assoc _ _ _

/-- Whatever the runs are and however they end, the files hold what they held before and then what each
run would have left in empty files, in the order of the runs; for a run that goes through that is what
`opt` returns. -/
theorem optRuns_files (cfg : Config) (modules : List Module) (disk : Disk) :
    (∀ file, optRuns cfg modules disk file =
        disk file ++ modules.flatMap fun M => (optOver cfg M fun _ => []).1 file) ∧
      ∀ M files, opt cfg M = .ok files ↔ optOver cfg M (fun _ => []) = (files, none) :=
  ⟨optRuns_append cfg modules disk, fun M files => opt_eq_ok_iff cfg M files⟩

end CalcHeuristics
