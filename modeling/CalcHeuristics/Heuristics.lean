import CalcHeuristics.Analyses
import Mathlib.Tactic.NormNum

/-!
# The eight heuristics

One definition for each of the pass's heuristic functions. A function that may dereference a null pointer,
ask for an operand that is not there or hand `getSExtValue` a constant it cannot return ends in a
fault. The values the functions return are the three the output format lists.
-/

namespace CalcHeuristics

inductive Prediction where
  | taken
  | notTaken
  | notApplicable
  deriving DecidableEq

/-- The number a prediction stands for in the output. -/
def Prediction.value : Prediction → Rat
  | taken => 1
  | notTaken => 0
  | notApplicable => 1 / 2

/-- The opposite prediction, that is, the same one when the successors are exchanged. -/
def Prediction.mirror : Prediction → Prediction
  | taken => notTaken
  | notTaken => taken
  | notApplicable => notApplicable

theorem Prediction.value_eq_one_sub_iff {p q : Prediction} : p.value = 1 - q.value ↔ p = q.mirror := by
  cases p <;> cases q <;> simp [value, mirror] <;> norm_num

inductive Fault where
  | nullPointer
  | operandIndex
  | signedValue
  | nullStream
  deriving DecidableEq

abbrev Checked := Except Fault

/-- Use a pointer that a cast returned. -/
def deref {α : Type} : Option α → Checked α
  | some a => .ok a
  | none => .error .nullPointer

def Instruction.getOperand {n : Nat} (i : Instruction n) (index : Nat) : Checked Value :=
  match i.operands[index]? with
  | some v => .ok v
  | none => .error .operandIndex

def Value.dynCastConstantInt : Value → Option ((width : Nat) × BitVec width)
  | constant (.int width value) => some ⟨width, value⟩
  | _ => none

/-- The value as a signed 64-bit integer, if it is one. -/
def getSExtValue (c : (width : Nat) × BitVec width) : Checked Int :=
  if -2 ^ 63 ≤ c.2.toInt ∧ c.2.toInt < 2 ^ 63 then .ok c.2.toInt else .error .signedValue

/-- A 64-bit integer stored in an `int`. -/
def toInt32 (x : Int) : Int := (BitVec.ofInt 32 x).toInt

/-- The condition of a conditional branch and its first two operands, which three heuristics look at.
An unconditional branch has none. -/
def conditionOperands {n : Nat} (F : Function n) (branchBb : Fin n) :
    Checked (Option (Instruction n × Value × Value)) := do
  let branchInstr ← deref (F.branchInst branchBb)
  match branchInstr with
  | .unconditional _ => return none
  | .conditional cond _ _ =>
    let i ← deref (F.dynCastInstruction cond)
    let opr0 ← i.getOperand 0
    let opr1 ← i.getOperand 1
    return some (i, opr0, opr1)

section
variable {n : Nat} (F : Function n) (A : Analyses n)

/-! ### Heuristics of the taken successor and of the condition -/

def hLoop (branchBb takenSuccessorBb : Fin n) : Prediction :=
  match A.loopInfo.getLoopFor branchBb with
  | some L =>
    if L.header = takenSuccessorBb ∨ L.getLoopPreheader F = some takenSuccessorBb then .taken
    else .notApplicable
  | none => .notApplicable

def hPointer (branchBb : Fin n) : Checked Prediction := do
  match ← conditionOperands F branchBb with
  | some (_, opr0, opr1) =>
    if opr0.getType.isPointerTy && opr1.getType.isPointerTy then return .notTaken
    else return .notApplicable
  | none => return .notApplicable

/-- The constant comparisons that predict "not taken", given which orders against zero count. -/
def opcodeFires (pred strict weak : Predicate) (constVal : Int) : Bool :=
  (constVal = 0 && (pred = strict || pred = weak)) || pred = .eq

/-- `hOpcode` over a given `getSExtValue`. -/
def hOpcodeWith (getSExtValue : (width : Nat) × BitVec width → Checked Int) (branchBb : Fin n) :
    Checked Prediction := do
  match ← conditionOperands F branchBb with
  | some (i, opr0, opr1) =>
    match i.op with
    | .cmp pred _ _ =>
      if opr0.getType.isIntegerTy && opr1.getType.isIntegerTy then
        if opr0.isConstant && !opr1.isConstant then
          let constVal ← getSExtValue (← deref opr0.dynCastConstantInt)
          if opcodeFires pred .sgt .sge (toInt32 constVal) then return .notTaken
        else if !opr0.isConstant && opr1.isConstant then
          let constVal ← getSExtValue (← deref opr1.dynCastConstantInt)
          if opcodeFires pred .slt .sle (toInt32 constVal) then return .notTaken
      return .notApplicable
    | _ => return .notApplicable
  | none => return .notApplicable

def hOpcode (branchBb : Fin n) : Checked Prediction := hOpcodeWith F getSExtValue branchBb

/-! ### The guard heuristic -/

def checkLoad (inst : Option (Instruction n)) : Option Value :=
  match inst with
  | some ⟨_, _, .load pointer⟩ => some pointer
  | _ => none

def checkStore (inst : Option (Instruction n)) : Option Value :=
  match inst with
  | some ⟨_, _, .store _ pointer⟩ => some pointer
  | _ => none

/-- One instruction against one operand of the condition: `none` when it loads the operand's pointer
before a store to it, else whether the pointer has been stored to. The test is made only while
`tracked` holds. -/
def trackOperand (tracked : Bool) (opr : Option Value) (defBeforeUse : Bool) (i : Instruction n) :
    Option Bool :=
  if !defBeforeUse && tracked then
    if checkLoad (some i) = opr then none else some (checkStore (some i) = opr)
  else some defBeforeUse

/-- Scan a successor until an operand is used before it is defined, or both are defined. -/
def guardScan (tracked1 tracked2 : Bool) (opr1 opr2 : Option Value) :
    Bool → Bool → List (Instruction n) → Bool
  | _, _, [] => false
  | opr1DefBeforeUse, opr2DefBeforeUse, i :: rest =>
    match trackOperand tracked1 opr1 opr1DefBeforeUse i with
    | none => true
    | some def1 =>
      match trackOperand tracked2 opr2 opr2DefBeforeUse i with
      | none => true
      | some def2 => if def1 && def2 then false else guardScan tracked1 tracked2 opr1 opr2 def1 def2 rest

/-- The scan of the taken successor. -/
def takenGuardScan (opr1 opr2 : Option Value) (instructions : List (Instruction n)) : Bool :=
  guardScan opr1.isSome opr2.isSome opr1 opr2 false false instructions

/-- The scan of the not-taken successor: it does not test whether there is a first operand. -/
def notTakenGuardScan (opr1 opr2 : Option Value) (instructions : List (Instruction n)) : Bool :=
  guardScan true opr2.isSome opr1 opr2 false false instructions

def hGuard (branchBb takenSuccessorBb : Fin n) (notTakenSuccessorBb : Option (Fin n)) :
    Checked Prediction := do
  match ← conditionOperands F branchBb with
  | some (_, v0, v1) =>
    let opr1 := checkLoad (F.dynCastInstruction v0)
    let opr2 := checkLoad (F.dynCastInstruction v1)
    if !A.postDominates takenSuccessorBb branchBb &&
        takenGuardScan opr1 opr2 (F.block takenSuccessorBb).instructions then
      return .taken
    match notTakenSuccessorBb with
    | some s =>
      if !A.postDominates s branchBb && notTakenGuardScan opr1 opr2 (F.block s).instructions then
        return .notTaken
      return .notApplicable
    | none => return .notApplicable
  | none => return .notApplicable

/-! ### Heuristics of both successors -/

/-- What a test that holds of the taken successor predicts; a not-taken successor it holds of is only
looked at when it does not, and predicts the opposite. -/
def successorHeuristic (applies : Fin n → Bool) (ofTaken ofNotTaken : Prediction)
    (takenSuccessorBb : Fin n) (notTakenSuccessorBb : Option (Fin n)) : Prediction :=
  if applies takenSuccessorBb then ofTaken
  else
    match notTakenSuccessorBb with
    | some s => if applies s then ofNotTaken else .notApplicable
    | none => .notApplicable

/-- The successor does not post-dominate and is a loop header. -/
def entersLoop (branchBb s : Fin n) : Bool :=
  !A.postDominates s branchBb && A.loopInfo.isLoopHeader s

/-- The successor does not post-dominate and contains a call. -/
def containsCall (branchBb s : Fin n) : Bool :=
  !A.postDominates s branchBb && (F.block s).instructions.any Instruction.isCallInst

/-- The successor does not post-dominate and contains a store. -/
def containsStore (branchBb s : Fin n) : Bool :=
  !A.postDominates s branchBb && (F.block s).instructions.any Instruction.isStore

def containsReturn (s : Fin n) : Bool := (F.block s).instructions.any Instruction.isRet

def hLoopheader (branchBb : Fin n) : Fin n → Option (Fin n) → Prediction :=
  successorHeuristic (entersLoop A branchBb) .taken .notTaken

def hCall (branchBb : Fin n) : Fin n → Option (Fin n) → Prediction :=
  successorHeuristic (containsCall F A branchBb) .notTaken .taken

def hStore (branchBb : Fin n) : Fin n → Option (Fin n) → Prediction :=
  successorHeuristic (containsStore F A branchBb) .notTaken .taken

def hReturn : Fin n → Option (Fin n) → Prediction :=
  successorHeuristic (containsReturn F) .notTaken .taken

end

end CalcHeuristics
