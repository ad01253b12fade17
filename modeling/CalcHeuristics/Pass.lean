import CalcHeuristics.Heuristics
import CalcHeuristics.Stdio.Align
import CalcHeuristics.Stdio.Printf

/-!
# The pass

`runOnFunction` opens a stream of its own on each of the two files, goes through the blocks and writes
one row to each file for every block that ends in a branch. `opt` runs it over the functions of a module
in one process and returns the files after the process has exited. Nothing closes the streams. A fault
keeps the process as it is at that moment: a crash leaves its files behind.

Every byte written carries the branch it was written for, which the program does not have; the files
themselves are the characters.
-/

namespace CalcHeuristics

open Stdio

inductive CsvFile where
  | heuristics
  | trueProbability
  deriving DecidableEq

/-- A branch of a module: the position of its function, and its block there. -/
structure BranchId where
  function : Nat
  block : Nat
  deriving DecidableEq

structure OutByte where
  char : Char
  branch : BranchId

def OutByte.isNewline (byte : OutByte) : Bool := byte.char = '\n'

structure AnalysedFunction where
  blocks : Nat
  function : Function blocks
  analyses : Analyses blocks

abbrev Module := List AnalysedFunction

/-! ### The rows -/

structure HeuristicRow where
  loop : Prediction
  pointer : Prediction
  opcode : Prediction
  guard : Prediction
  loopHeader : Prediction
  call : Prediction
  store : Prediction
  ret : Prediction
  deriving DecidableEq

def HeuristicRow.columns (row : HeuristicRow) : List Prediction :=
  [row.loop, row.pointer, row.opcode, row.guard, row.loopHeader, row.call, row.store, row.ret]

/-- Fields separated by commas, and the newline. -/
def csvLine (fields : List (List Char)) : List Char := [','].intercalate fields ++ ['\n']

/-- `"%.1f,%.1f,%.1f,%.1f,%.1f,%.1f,%.1f,%.1f\n"` -/
def HeuristicRow.text (row : HeuristicRow) : List Char :=
  csvLine (row.columns.map fun prediction => printfFixed 1 prediction.value)

/-- The quotient of numerator and denominator, which a `double` represents exactly. -/
def BranchProbability.toRat (p : BranchProbability) : Rat :=
  p.numerator / (BranchProbability.denominator : Rat)

/-- `"%f,%f\n"` -/
def trueProbText (takenBrProb : BranchProbability) : List Char :=
  let takenProb := takenBrProb.toRat
  let notTakenProb := 1 - takenProb
  csvLine [printfFixed 6 takenProb, printfFixed 6 notTakenProb]

namespace BranchInst

variable {n : Nat}

/-- `getSuccessor(0)` -/
def takenSuccessor : BranchInst n → Fin n
  | unconditional dest => dest
  | conditional _ ifTrue _ => ifTrue

/-- `getSuccessor(1)` of a branch with two successors, else null. -/
def notTakenSuccessor : BranchInst n → Option (Fin n)
  | unconditional _ => none
  | conditional _ _ ifFalse => some ifFalse

theorem takenSuccessor_mem (br : BranchInst n) : br.takenSuccessor ∈ br.successors := by
  cases br <;> exact List.mem_cons_self

theorem notTakenSuccessor_mem (br : BranchInst n) {s : Fin n} (hs : br.notTakenSuccessor = some s) :
    s ∈ br.successors := by
  cases br with
  | unconditional dest => exact absurd hs (by simp [notTakenSuccessor])
  | conditional cond ifTrue ifFalse =>
      rw [← Option.some.inj hs]
      exact List.mem_cons_of_mem _ List.mem_cons_self

end BranchInst

section
variable {n : Nat} (F : Function n) (A : Analyses n)

/-- The eight arguments of the second `fprintf`. -/
def heuristicRow (currBb taken : Fin n) (notTaken : Option (Fin n)) : Checked HeuristicRow := do
  let pointer ← hPointer F currBb
  let opcode ← hOpcode F currBb
  let guard ← hGuard F A currBb taken notTaken
  return {
    loop := hLoop F A currBb taken
    pointer := pointer
    opcode := opcode
    guard := guard
    loopHeader := hLoopheader A currBb taken notTaken
    call := hCall F A currBb taken notTaken
    store := hStore F A currBb taken notTaken
    ret := hReturn F taken notTaken }

/-! ### The run -/

/-- A computation that may fault; the process is left as it is at that moment. -/
abbrev Tracked := Except (Fault × Process CsvFile OutByte)

def fprintf (cfg : Config) (stream : Option Nat) (branch : BranchId) (text : List Char)
    (p : Process CsvFile OutByte) : Tracked (Process CsvFile OutByte) :=
  match stream with
  | some s => .ok (fwrite cfg p s (text.map (⟨·, branch⟩)))
  | none => .error (.nullStream, p)

/-- The body of the loop over the blocks of the function at position `index`. -/
def Tracked.writeBlock (cfg : Config) (index : Nat) (heuristicData trueProbData : Option Nat)
    (p : Process CsvFile OutByte) (currBb : Fin n) : Tracked (Process CsvFile OutByte) :=
  match F.branchInst currBb with
  | none => .ok p
  | some branchInstr => do
    let taken := branchInstr.takenSuccessor
    let notTaken := branchInstr.notTakenSuccessor
    let takenBrProb := A.getEdgeProbability currBb 0
    let p ← fprintf cfg trueProbData ⟨index, currBb⟩ (trueProbText takenBrProb) p
    let row ← (heuristicRow F A currBb taken notTaken).mapError (·, p)
    fprintf cfg heuristicData ⟨index, currBb⟩ row.text p

def Tracked.runOnFunction (cfg : Config) (index : Nat) (p : Process CsvFile OutByte) :
    Tracked (Process CsvFile OutByte) :=
  let (heuristicData, p) := fopen cfg p .heuristics
  let (trueProbData, p) := fopen cfg p .trueProbability
  (List.finRange n).foldlM (writeBlock F A cfg index heuristicData trueProbData) p

/-- The call without the process a fault leaves behind. -/
def runOnFunction (cfg : Config) (index : Nat) (p : Process CsvFile OutByte) :
    Checked (Process CsvFile OutByte) :=
  (Tracked.runOnFunction F A cfg index p).mapError Prod.fst

end

/-- The functions of a module, each with its position. -/
def Tracked.runOnFunctions (cfg : Config) (functions : List (AnalysedFunction × Nat))
    (p : Process CsvFile OutByte) : Tracked (Process CsvFile OutByte) :=
  functions.foldlM (fun p f => runOnFunction f.1.function f.1.analyses cfg f.2 p) p

def runOnModule (cfg : Config) (M : Module) : Checked (Process CsvFile OutByte) :=
  (Tracked.runOnFunctions cfg M.zipIdx Process.start).mapError Prod.fst

/-- The two files after a run over empty ones. -/
def opt (cfg : Config) (M : Module) : Checked (CsvFile → List OutByte) :=
  (runOnModule cfg M).map exit

/-- A process that may open any number of streams, with buffers of `C` bytes. -/
def stdio (C : Nat) (hC : 0 < C) : Config := ⟨C, hC, none⟩

end CalcHeuristics
