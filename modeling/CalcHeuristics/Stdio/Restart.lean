import CalcHeuristics.Stdio.Stream

/-!
# Starting over files that hold something

Append-mode streams never look at what a file already holds. `Process.onTop` puts older contents under a
process; every operation commutes with it, so a run over files that hold something leaves them as they
were, followed by what the same run leaves in empty ones.
-/

namespace Stdio

variable {φ α : Type*}

/-- A process that has opened nothing yet, over the files of a disk. -/
def Process.over (disk : φ → List α) : Process φ α := ⟨disk, []⟩

/-- Every file with new contents after the old ones. -/
def appended (old new : φ → List α) : φ → List α := fun file => old file ++ new file

/-- The process as it would be, had the files held `old` when it began. -/
def Process.onTop (old : φ → List α) (p : Process φ α) : Process φ α :=
  { p with disk := appended old p.disk }

section
variable (old : φ → List α) (p : Process φ α)

@[simp] theorem appended_nil : appended old (fun _ => []) = old :=
  funext fun file => List.append_nil (old file)

@[simp] theorem streams_onTop : (p.onTop old).streams = p.streams := rfl

theorem over_eq_onTop : Process.over old = (Process.start : Process φ α).onTop old := by
  rw [Process.over, Process.onTop, Process.start, appended_nil]

theorem fopen_onTop (cfg : Config) (file : φ) :
    fopen cfg (p.onTop old) file = ((fopen cfg p file).1, (fopen cfg p file).2.onTop old) := by
  rw [fopen, fopen, streams_onTop]
  split <;> rfl

variable [DecidableEq φ]

theorem appendTo_appended (disk : φ → List α) (file : φ) (data : List α) :
    appendTo (appended old disk) file data = appended old (appendTo disk file data) := by
  funext f
  by_cases hf : f = file
  · subst hf
    simp [appendTo, appended]
  · simp [appendTo, appended, Function.update_of_ne hf]

theorem fputc_onTop (cfg : Config) (stream : Nat) (item : α) :
    fputc cfg (p.onTop old) stream item = (fputc cfg p stream item).onTop old := by
  rw [fputc, fputc, streams_onTop]
  cases p.streams[stream]? with
  | none => rfl
  | some s =>
      dsimp only
      split
      · rfl
      · have happend := appendTo_appended old p.disk s.file s.buffer
        simp only [Process.onTop, happend]

theorem fwrite_onTop (cfg : Config) (stream : Nat) (data : List α) :
    fwrite cfg (p.onTop old) stream data = (fwrite cfg p stream data).onTop old := by
  induction data generalizing p with
  | nil => rfl
  | cons item data ih =>
      rw [fwrite, List.foldl_cons, ← fwrite, fputc_onTop, ih]
      rfl

theorem exit_onTop : exit (p.onTop old) = appended old (exit p) := by
  funext file
  rw [appended, exit, exit, exit_streams, exit_streams]
  exact List.append_assoc _ _ _

end

end Stdio
