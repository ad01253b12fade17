import CalcHeuristics.Pass
import CalcHeuristics.Stdio.Restart

/-!
# Sessions

`opt` says what a run that goes through leaves in empty files. In a benchmark's directory the pass is run
any number of times over the files that are already there, and a run may crash: the process is then gone
with everything its streams still held, and the files stay as they are.
-/

namespace CalcHeuristics

open Stdio

abbrev Disk := CsvFile → List OutByte

/-- What a process leaves behind: it exits, or it crashes and its buffers are lost. -/
def leave : Tracked (Process CsvFile OutByte) → Disk × Option Fault
  | .ok p => (exit p, none)
  | .error (fault, p) => (p.disk, some fault)

/-- The files after one run of `opt` over them, and the fault that ended it. -/
def optOver (cfg : Config) (M : Module) (disk : Disk) : Disk × Option Fault :=
  leave (Tracked.runOnFunctions cfg M.zipIdx (Process.over disk))

/-- Some call of the run has opened the file, which creates it if there is none. -/
def creates (cfg : Config) (M : Module) (file : CsvFile) : Bool :=
  match Tracked.runOnFunctions cfg M.zipIdx Process.start with
  | .ok p | .error (_, p) => p.streams.any (·.file = file)

/-- The files after any number of runs, one after the other. -/
def optRuns (cfg : Config) (modules : List Module) (disk : Disk) : Disk :=
  modules.foldl (fun disk M => (optOver cfg M disk).1) disk

end CalcHeuristics
