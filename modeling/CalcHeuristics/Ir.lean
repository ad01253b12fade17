import Mathlib.Data.List.FinRange
import Mathlib.Data.Fin.VecNotation
import Mathlib.Data.Fintype.Basic
import CalcHeuristics.Flow.Loop

/-!
# The intermediate representation the pass reads

As much of LLVM's IR as the pass can tell apart. Values are compared as the pass compares them, by
pointer: an instruction is named by its identity, and constants are uniqued, so equal constants are
one value. An instruction is what it computes from which operands, in LLVM's operand order; a call
has its callee as the last operand, and a load or a store cannot lack one. The blocks of a function
with `n` blocks are `Fin n`, in layout order, the entry first.
-/

namespace CalcHeuristics

inductive Ty where
  | integer (width : Nat)
  | pointer
  | floating
  | aggregate
  | label
  | metadata
  | void
  deriving DecidableEq

namespace Ty

def isIntegerTy : Ty → Bool
  | integer _ => true
  | _ => false

def isPointerTy : Ty → Bool
  | pointer => true
  | _ => false

end Ty

/-- The intrinsics that only carry debug information. -/
inductive DebugIntrinsic where
  | declare
  | value
  | label
  deriving DecidableEq

inductive Constant where
  | int (width : Nat) (value : BitVec width)
  | nullPointer
  | floating (bits : Nat)
  | undef (ty : Ty)
  /-- A constant expression, such as the address of a global converted to an integer. -/
  | expr (id : Nat) (ty : Ty)
  /-- A global variable or a function. -/
  | global (id : Nat)
  | debugIntrinsic (kind : DebugIntrinsic)
  deriving DecidableEq

def Constant.getType : Constant → Ty
  | int width _ => .integer width
  | nullPointer => .pointer
  | floating _ => .floating
  | undef ty => ty
  | expr _ ty => ty
  | global _ => .pointer
  | debugIntrinsic _ => .pointer

inductive Value where
  | argument (index : Nat) (ty : Ty)
  | constant (c : Constant)
  | instruction (id : Nat) (ty : Ty)
  | basicBlock (index : Nat)
  | metadata (id : Nat)
  deriving DecidableEq

namespace Value

def getType : Value → Ty
  | argument _ ty => ty
  | constant c => c.getType
  | instruction _ ty => ty
  | basicBlock _ => .label
  | metadata _ => .metadata

def isConstant : Value → Bool
  | constant _ => true
  | _ => false

end Value

/-- The predicates of comparisons. The floating-point ones are only numbered. -/
inductive Predicate where
  | eq | ne
  | ugt | uge | ult | ule
  | sgt | sge | slt | sle
  | fcmp (code : Fin 16)
  deriving DecidableEq

/-- A branch: the first successor is the one taken when the condition is true. -/
inductive BranchInst (n : Nat) where
  | unconditional (dest : Fin n)
  | conditional (cond : Value) (ifTrue ifFalse : Fin n)
  deriving DecidableEq

namespace BranchInst

variable {n : Nat}

def successors : BranchInst n → List (Fin n)
  | unconditional dest => [dest]
  | conditional _ ifTrue ifFalse => [ifTrue, ifFalse]

def operands : BranchInst n → List Value
  | unconditional dest => [.basicBlock dest]
  | conditional cond ifTrue ifFalse => [cond, .basicBlock ifFalse, .basicBlock ifTrue]

end BranchInst

inductive Operation (n : Nat) where
  | cmp (pred : Predicate) (lhs rhs : Value)
  | load (pointer : Value)
  | store (value pointer : Value)
  | call (args : List Value) (callee : Value)
  | phi (incoming : List Value)
  /-- Casts, `freeze`, `extractvalue` and the other operations on one value. -/
  | unary (operand : Value)
  /-- Arithmetic and logic on two values. -/
  | binary (lhs rhs : Value)
  | select (cond ifTrue ifFalse : Value)
  | other (operands : List Value)
  | br (inst : BranchInst n)
  | ret (value : Option Value)
  | switch (cond : Value) (defaultDest : Fin n) (cases : List (Constant × Fin n))
  | invoke (args : List Value) (callee : Value) (normalDest unwindDest : Fin n)
  /-- `resume`, `catchswitch`, `catchret` and `cleanupret`. -/
  | exceptionalTerminator (operands : List Value) (dests : List (Fin n))
  /-- The terminators left: `unreachable`, `indirectbr` and `callbr`. -/
  | otherTerminator (operands : List Value) (dests : List (Fin n))
  deriving DecidableEq

namespace Operation

variable {n : Nat}

def operands : Operation n → List Value
  | cmp _ lhs rhs => [lhs, rhs]
  | load pointer => [pointer]
  | store value pointer => [value, pointer]
  | call args callee => args ++ [callee]
  | phi incoming => incoming
  | unary operand => [operand]
  | binary lhs rhs => [lhs, rhs]
  | select cond ifTrue ifFalse => [cond, ifTrue, ifFalse]
  | other operands => operands
  | br inst => inst.operands
  | ret value => value.toList
  | switch cond defaultDest cases =>
      [cond, .basicBlock defaultDest] ++ cases.flatMap fun c => [.constant c.1, .basicBlock c.2]
  | invoke args callee normalDest unwindDest =>
      args ++ [.basicBlock normalDest, .basicBlock unwindDest, callee]
  | exceptionalTerminator operands _ => operands
  | otherTerminator operands _ => operands

/-- The successors of a terminator; other instructions pass control to the next one. -/
def successors? : Operation n → Option (List (Fin n))
  | br inst => some inst.successors
  | ret _ => some []
  | switch _ defaultDest cases => some (defaultDest :: cases.map Prod.snd)
  | invoke _ _ normalDest unwindDest => some [normalDest, unwindDest]
  | exceptionalTerminator _ dests => some dests
  | otherTerminator _ dests => some dests
  | _ => none

end Operation

structure Instruction (n : Nat) where
  id : Nat
  ty : Ty
  op : Operation n
  deriving DecidableEq

namespace Instruction

variable {n : Nat}

def operands (i : Instruction n) : List Value := i.op.operands

def isTerminator (i : Instruction n) : Bool := i.op.successors?.isSome

def isCallInst (i : Instruction n) : Bool :=
  match i.op with
  | .call _ _ => true
  | _ => false

def isStore (i : Instruction n) : Bool :=
  match i.op with
  | .store _ _ => true
  | _ => false

def isRet (i : Instruction n) : Bool :=
  match i.op with
  | .ret _ => true
  | _ => false

def isExceptionalTerminator (i : Instruction n) : Bool :=
  match i.op with
  | .invoke _ _ _ _ => true
  | .exceptionalTerminator _ _ => true
  | _ => false

def dynCastBranchInst (i : Instruction n) : Option (BranchInst n) :=
  match i.op with
  | .br inst => some inst
  | _ => none

/-- A call that only carries debug information. -/
def isDebugCall (i : Instruction n) : Bool :=
  match i.op with
  | .call _ (.constant (.debugIntrinsic _)) => true
  | _ => false

/-- The two sides of a comparison have one type, an integer or a pointer unless the predicate is a
floating-point one, and its result is one bit. -/
def cmpTyped (i : Instruction n) : Bool :=
  match i.op with
  | .cmp (.fcmp _) lhs rhs => lhs.getType = rhs.getType && i.ty = .integer 1
  | .cmp _ lhs rhs => lhs.getType = rhs.getType && i.ty = .integer 1 &&
      (lhs.getType.isIntegerTy || lhs.getType.isPointerTy)
  | _ => true

end Instruction

structure BasicBlock (n : Nat) where
  body : List (Instruction n)
  terminator : Instruction n
  body_plain : ∀ i ∈ body, i.isTerminator = false := by decide
  terminates : terminator.isTerminator = true := by decide

namespace BasicBlock

variable {n : Nat}

/-- What iterating over the block visits, the terminator last. -/
def instructions (bb : BasicBlock n) : List (Instruction n) := bb.body ++ [bb.terminator]

def successors (bb : BasicBlock n) : List (Fin n) := bb.terminator.op.successors?.getD []

/-- Instructions are not hoisted across the boundaries of exception handling. -/
def isLegalToHoistInto (bb : BasicBlock n) : Bool := !bb.terminator.isExceptionalTerminator

end BasicBlock

structure Function (n : Nat) where
  block : Fin n → BasicBlock n
  hasEntry : 0 < n := by decide

namespace Function

variable {n : Nat} (F : Function n)

def entry : Fin n := ⟨0, F.hasEntry⟩

def successors (b : Fin n) : List (Fin n) := (F.block b).successors

def predecessors (b : Fin n) : List (Fin n) := (List.finRange n).filter (b ∈ F.successors ·)

def instructions : List (Instruction n) :=
  (List.finRange n).flatMap fun b => (F.block b).instructions

/-- `dyn_cast<Instruction>`: the instruction a value is the result of, or null. -/
def dynCastInstruction : Value → Option (Instruction n)
  | .instruction id _ => F.instructions.find? (·.id = id)
  | _ => none

/-- The branch a block ends in, or null. -/
def branchInst (b : Fin n) : Option (BranchInst n) := (F.block b).terminator.dynCastBranchInst

theorem successors_eq {b : Fin n} {br : BranchInst n} (h : F.branchInst b = some br) :
    F.successors b = br.successors := by
  rw [branchInst, Instruction.dynCastBranchInst] at h
  rw [successors, BasicBlock.successors]
  split at h
  · rename_i inst hop
    rw [hop, ← Option.some.inj h]
    rfl
  · exact absurd h (by simp)

theorem isLegalToHoistInto_of_branch {b : Fin n} {br : BranchInst n} (h : F.branchInst b = some br) :
    (F.block b).isLegalToHoistInto = true := by
  rw [branchInst, Instruction.dynCastBranchInst] at h
  split at h
  · rename_i hop
    rw [BasicBlock.isLegalToHoistInto, Instruction.isExceptionalTerminator, hop]
    rfl
  · exact absurd h (by simp)

def flowGraph : Flow.FlowGraph (Fin n) := ⟨fun b s => s ∈ F.successors b, F.entry⟩

/-- Every block can reach a block without successors. -/
def ReachesExit : Prop :=
  ∀ b, ∃ e p, F.flowGraph.IsExit e ∧ Flow.Path F.flowGraph.edge b p e

/-- An operand that names an instruction names one of the function, at its type. -/
def resolves : Value → Bool
  | .instruction id ty => F.instructions.any fun j => j.id = id && j.ty = ty
  | _ => true

/-- The checks of the IR verifier that concern what the pass looks at. -/
def verified : Bool :=
  (F.instructions.map Instruction.id).Nodup &&
    (F.instructions.all fun i => i.operands.all F.resolves && i.cmpTyped) &&
    (List.finRange n).all fun b => F.entry ∉ F.successors b &&
      match F.branchInst b with
      | some (.conditional cond _ _) => cond.getType = .integer 1
      | _ => true

variable {F}

theorem mem_instructions {i : Instruction n} :
    i ∈ F.instructions ↔ ∃ b, i ∈ (F.block b).instructions := by
  simp [instructions]

theorem terminator_mem (F : Function n) (b : Fin n) : (F.block b).terminator ∈ F.instructions :=
  mem_instructions.2 ⟨b, by simp [BasicBlock.instructions]⟩

theorem nodup_of_verified (h : F.verified = true) : (F.instructions.map Instruction.id).Nodup := by
  rw [verified, Bool.and_eq_true, Bool.and_eq_true] at h
  exact of_decide_eq_true h.1.1

theorem resolves_of_verified (h : F.verified = true) {i : Instruction n} (hi : i ∈ F.instructions) :
    ∀ v ∈ i.operands, F.resolves v = true := by
  rw [verified, Bool.and_eq_true, Bool.and_eq_true, List.all_eq_true] at h
  have hboth := h.1.2 i hi
  rw [Bool.and_eq_true, List.all_eq_true] at hboth
  exact hboth.1

/-- Control does not come back to the entry. -/
theorem entry_not_mem_of_verified (h : F.verified = true) (b : Fin n) :
    F.entry ∉ F.successors b := by
  rw [verified, Bool.and_eq_true, List.all_eq_true] at h
  have hblock := h.2 b (List.mem_finRange b)
  rw [Bool.and_eq_true] at hblock
  exact of_decide_eq_true hblock.1

theorem mem_of_dynCastInstruction {v : Value} {i : Instruction n}
    (h : F.dynCastInstruction v = some i) : i ∈ F.instructions := by
  cases v with
  | instruction id ty => exact List.mem_of_find?_eq_some h
  | _ => exact absurd h (by simp [dynCastInstruction])

/-- In a verified function an instruction is what its identity names. -/
theorem dynCastInstruction_eq_some_iff (h : F.verified = true) {id : Nat} {ty : Ty}
    {i : Instruction n} :
    F.dynCastInstruction (.instruction id ty) = some i ↔ i ∈ F.instructions ∧ i.id = id := by
  refine ⟨fun hfind => ?_, fun hmem => ?_⟩
  · exact ⟨List.mem_of_find?_eq_some hfind, by simpa using List.find?_some hfind⟩
  · obtain ⟨hi, hid⟩ := hmem
    cases hfind : F.dynCastInstruction (.instruction id ty) with
    | none =>
        rw [dynCastInstruction, List.find?_eq_none] at hfind
        exact absurd hid (by simpa using hfind i hi)
    | some j =>
        have hj : j.id = id := by simpa using List.find?_some hfind
        rw [List.inj_on_of_nodup_map (nodup_of_verified h) (List.mem_of_find?_eq_some hfind) hi
          (hj.trans hid.symm)]

end Function

/-! ### Small functions

A branch and the two blocks it leads to. -/

/-- A function whose branch tests its argument directly. -/
def argumentCondition : Function 3 where
  block := ![
    { body := [], terminator := ⟨0, .void, .br (.conditional (.argument 0 (.integer 1)) 1 2)⟩ },
    { body := [], terminator := ⟨1, .void, .ret none⟩ },
    { body := [], terminator := ⟨2, .void, .ret none⟩ }]

/-- A branch on the comparison of two arguments. -/
def compareArguments : Function 3 where
  block := ![
    { body := [⟨0, .integer 1, .cmp .slt (.argument 0 (.integer 32)) (.argument 1 (.integer 32))⟩]
      terminator := ⟨1, .void, .br (.conditional (.instruction 0 (.integer 1)) 1 2)⟩ },
    { body := [], terminator := ⟨2, .void, .ret none⟩ },
    { body := [], terminator := ⟨3, .void, .ret none⟩ }]

/-- A branch on a loaded value; the taken successor loads it again before it stores to it. -/
def reloads : Function 3 where
  block := ![
    { body := [⟨0, .integer 32, .load (.argument 0 .pointer)⟩,
        ⟨1, .integer 1, .cmp .sgt (.instruction 0 (.integer 32)) (.argument 1 (.integer 32))⟩]
      terminator := ⟨2, .void, .br (.conditional (.instruction 1 (.integer 1)) 1 2)⟩ },
    { body := [⟨3, .integer 32, .load (.argument 0 .pointer)⟩,
        ⟨4, .void, .store (.argument 1 (.integer 32)) (.argument 0 .pointer)⟩]
      terminator := ⟨5, .void, .ret none⟩ },
    { body := [], terminator := ⟨6, .void, .ret none⟩ }]

/-- A branch on the equality of two arguments. -/
def equalArguments (ty : Ty) : Function 3 where
  block := ![
    { body := [⟨0, .integer 1, .cmp .eq (.argument 0 ty) (.argument 1 ty)⟩]
      terminator := ⟨1, .void, .br (.conditional (.instruction 0 (.integer 1)) 1 2)⟩
      body_plain := by simp [Instruction.isTerminator, Operation.successors?]
      terminates := rfl },
    { body := [], terminator := ⟨2, .void, .ret none⟩ },
    { body := [], terminator := ⟨3, .void, .ret none⟩ }]

/-- A branch to two blocks that both call a function. -/
def callOnBothSides : Function 3 where
  block := ![
    { body := [⟨0, .integer 1, .cmp .sgt (.argument 0 (.integer 32)) (.constant (.int 32 0))⟩]
      terminator := ⟨1, .void, .br (.conditional (.instruction 0 (.integer 1)) 1 2)⟩ },
    { body := [⟨2, .void, .call [] (.constant (.global 0))⟩], terminator := ⟨3, .void, .ret none⟩ },
    { body := [⟨4, .void, .call [] (.constant (.global 0))⟩], terminator := ⟨5, .void, .ret none⟩ }]

/-- A branch on a comparison, with `body` in its taken successor. -/
def compareThen (body : List (Instruction 3))
    (hbody : ∀ i ∈ body, i.isTerminator = false := by decide) : Function 3 where
  block := ![
    { body := [⟨0, .integer 1, .cmp .slt (.argument 0 (.integer 32)) (.argument 1 (.integer 32))⟩]
      terminator := ⟨1, .void, .br (.conditional (.instruction 0 (.integer 1)) 1 2)⟩ },
    { body := body, terminator := ⟨2, .void, .ret none⟩, body_plain := hbody },
    { body := [], terminator := ⟨3, .void, .ret none⟩ }]

/-- A branch on the comparison of a pointer with null. -/
def nullTest (pred : Predicate) (t f : Fin 3) : Function 3 where
  block := ![
    { body := [⟨0, .integer 1, .cmp pred (.argument 0 .pointer) (.constant .nullPointer)⟩]
      terminator := ⟨1, .void, .br (.conditional (.instruction 0 (.integer 1)) t f)⟩
      body_plain := by simp [Instruction.isTerminator, Operation.successors?]
      terminates := rfl },
    { body := [], terminator := ⟨2, .void, .ret none⟩ },
    { body := [], terminator := ⟨3, .void, .ret none⟩ }]

/-- A branch on what `op` computes. -/
def branchOn (op : Operation 3) (hplain : op.successors? = none := by decide) : Function 3 where
  block := ![
    { body := [⟨0, .integer 1, op⟩]
      terminator := ⟨1, .void, .br (.conditional (.instruction 0 (.integer 1)) 1 2)⟩
      body_plain := by simp [Instruction.isTerminator, hplain]
      terminates := rfl },
    { body := [], terminator := ⟨2, .void, .ret none⟩ },
    { body := [], terminator := ⟨3, .void, .ret none⟩ }]

end CalcHeuristics
