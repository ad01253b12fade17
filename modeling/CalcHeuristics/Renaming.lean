import CalcHeuristics.Ir
import Mathlib.Logic.Equiv.Basic
import Mathlib.Data.Fin.Basic

/-!
# Functions laid out differently

The order of a function's blocks behind the entry and the identities of its instructions are no part of
what the function does: passes move blocks around, and reading a function back numbers it anew. A
`Renaming` says where the blocks go and what the instructions are called then; `Function.rename` is the
function after it, which is verified exactly when the function is.
-/

namespace CalcHeuristics

structure Renaming (n : Nat) where
  block : Equiv.Perm (Fin n)
  instruction : Nat ↪ Nat
  /-- The entry stays in front. -/
  block_entry : ∀ h : 0 < n, block ⟨0, h⟩ = ⟨0, h⟩

section
variable {n : Nat} (r : Renaming n)

/-- The new number of a block that an operand names. -/
def Renaming.label (index : Nat) : Nat := r.block.extendDomain Fin.equivSubtype index

def Value.rename : Value → Value
  | .instruction id ty => .instruction (r.instruction id) ty
  | .basicBlock index => .basicBlock (r.label index)
  | v => v

def BranchInst.rename : BranchInst n → BranchInst n
  | .unconditional dest => .unconditional (r.block dest)
  | .conditional cond ifTrue ifFalse =>
      .conditional (cond.rename r) (r.block ifTrue) (r.block ifFalse)

def Operation.rename : Operation n → Operation n
  | .cmp pred lhs rhs => .cmp pred (lhs.rename r) (rhs.rename r)
  | .load pointer => .load (pointer.rename r)
  | .store value pointer => .store (value.rename r) (pointer.rename r)
  | .call args callee => .call (args.map (Value.rename r)) (callee.rename r)
  | .phi incoming => .phi (incoming.map (Value.rename r))
  | .unary operand => .unary (operand.rename r)
  | .binary lhs rhs => .binary (lhs.rename r) (rhs.rename r)
  | .select cond ifTrue ifFalse => .select (cond.rename r) (ifTrue.rename r) (ifFalse.rename r)
  | .other operands => .other (operands.map (Value.rename r))
  | .br inst => .br (inst.rename r)
  | .ret value => .ret (value.map (Value.rename r))
  | .switch cond defaultDest cases =>
      .switch (cond.rename r) (r.block defaultDest) (cases.map fun c => (c.1, r.block c.2))
  | .invoke args callee normalDest unwindDest =>
      .invoke (args.map (Value.rename r)) (callee.rename r) (r.block normalDest) (r.block unwindDest)
  | .exceptionalTerminator operands dests =>
      .exceptionalTerminator (operands.map (Value.rename r)) (dests.map r.block)
  | .otherTerminator operands dests =>
      .otherTerminator (operands.map (Value.rename r)) (dests.map r.block)

def Instruction.rename (i : Instruction n) : Instruction n :=
  ⟨r.instruction i.id, i.ty, i.op.rename r⟩

end

/-! ### What a renaming keeps -/

section
variable {n : Nat} (r : Renaming n)

theorem Renaming.label_block (b : Fin n) : r.label b = r.block b :=
  r.block.extendDomain_apply_image Fin.equivSubtype b

namespace Value

theorem rename_injective : Function.Injective (Value.rename r) := by
  intro v w h
  cases v <;> cases w <;> simp_all [rename, Renaming.label]

@[simp]
theorem getType_rename (v : Value) : (v.rename r).getType = v.getType := by
  cases v <;> rfl

@[simp]
theorem isConstant_rename (v : Value) : (v.rename r).isConstant = v.isConstant := by
  cases v <;> rfl

end Value

theorem BranchInst.operands_rename (br : BranchInst n) :
    (br.rename r).operands = br.operands.map (Value.rename r) := by
  cases br <;> simp [rename, operands, Value.rename, r.label_block]

namespace Operation

theorem operands_rename (op : Operation n) :
    (op.rename r).operands = op.operands.map (Value.rename r) := by
  cases op
  case br inst => exact inst.operands_rename r
  case ret value => cases value <;> rfl
  case switch cond defaultDest cases =>
    simp [rename, operands, Value.rename, r.label_block, List.flatMap_map, List.map_flatMap]
  all_goals simp [rename, operands, Value.rename, r.label_block]

theorem successors?_rename (op : Operation n) :
    (op.rename r).successors? = op.successors?.map (List.map r.block) := by
  cases op
  case br inst => cases inst <;> rfl
  case switch cond defaultDest cases =>
    simp [rename, successors?, Function.comp_def]
  all_goals rfl

end Operation

namespace Instruction

variable (i : Instruction n)

theorem operands_rename : (i.rename r).operands = i.operands.map (Value.rename r) :=
  i.op.operands_rename r

@[simp]
theorem isTerminator_rename : (i.rename r).isTerminator = i.isTerminator := by
  rw [isTerminator, isTerminator, rename, Operation.successors?_rename, Option.isSome_map]

@[simp]
theorem isCallInst_rename : (i.rename r).isCallInst = i.isCallInst := by
  obtain ⟨id, ty, op⟩ := i
  cases op <;> rfl

@[simp]
theorem isStore_rename : (i.rename r).isStore = i.isStore := by
  obtain ⟨id, ty, op⟩ := i
  cases op <;> rfl

@[simp]
theorem isRet_rename : (i.rename r).isRet = i.isRet := by
  obtain ⟨id, ty, op⟩ := i
  cases op <;> rfl

theorem isExceptionalTerminator_rename :
    (i.rename r).isExceptionalTerminator = i.isExceptionalTerminator := by
  obtain ⟨id, ty, op⟩ := i
  cases op <;> rfl

theorem dynCastBranchInst_rename :
    (i.rename r).dynCastBranchInst = i.dynCastBranchInst.map (BranchInst.rename r) := by
  obtain ⟨id, ty, op⟩ := i
  cases op <;> rfl

theorem cmpTyped_rename : (i.rename r).cmpTyped = i.cmpTyped := by
  obtain ⟨id, ty, op⟩ := i
  cases op
  case cmp pred lhs rhs =>
    show cmpTyped ⟨_, ty, .cmp pred (lhs.rename r) (rhs.rename r)⟩ = _
    rw [Bool.eq_iff_iff]
    cases pred <;> simp [cmpTyped]
  all_goals rfl

end Instruction

end

/-! ### The function after it -/

section
variable {n : Nat}

def BasicBlock.rename (r : Renaming n) (bb : BasicBlock n) : BasicBlock n where
  body := bb.body.map (Instruction.rename r)
  terminator := bb.terminator.rename r
  body_plain := by simpa using bb.body_plain
  terminates := by simpa using bb.terminates

theorem BasicBlock.isLegalToHoistInto_rename (r : Renaming n) (bb : BasicBlock n) :
    (bb.rename r).isLegalToHoistInto = bb.isLegalToHoistInto :=
  congrArg (!·) (bb.terminator.isExceptionalTerminator_rename r)

theorem BasicBlock.instructions_rename (r : Renaming n) (bb : BasicBlock n) :
    (bb.rename r).instructions = bb.instructions.map (Instruction.rename r) := by
  simp [instructions, rename]

namespace Function

variable (F : Function n) (r : Renaming n)

def rename : Function n where
  block b := (F.block (r.block.symm b)).rename r
  hasEntry := F.hasEntry

variable (b : Fin n)

@[simp]
theorem block_rename : (F.rename r).block (r.block b) = (F.block b).rename r := by
  simp only [rename, Equiv.symm_apply_apply]

theorem entry_rename : (F.rename r).entry = r.block F.entry := (r.block_entry F.hasEntry).symm

theorem branchInst_rename :
    (F.rename r).branchInst (r.block b) = (F.branchInst b).map (BranchInst.rename r) := by
  rw [branchInst, block_rename]
  exact (F.block b).terminator.dynCastBranchInst_rename r

theorem successors_rename :
    (F.rename r).successors (r.block b) = (F.successors b).map r.block := by
  rw [successors, block_rename, successors, BasicBlock.successors, BasicBlock.successors]
  show (((F.block b).terminator.op.rename r).successors?).getD [] = _
  rw [Operation.successors?_rename]
  cases (F.block b).terminator.op.successors? <;> rfl

theorem mem_successors_rename {s : Fin n} :
    r.block s ∈ (F.rename r).successors (r.block b) ↔ s ∈ F.successors b := by
  rw [successors_rename, List.mem_map_of_injective r.block.injective]

/-- The instructions are the renamed ones, in the order of the new layout. -/
theorem instructions_rename :
    (F.rename r).instructions.Perm (F.instructions.map (Instruction.rename r)) := by
  have hlayout : (F.rename r).instructions =
      ((List.finRange n).map r.block.symm).flatMap fun b =>
        (F.block b).instructions.map (Instruction.rename r) := by
    rw [List.flatMap_map]
    simp only [instructions, rename, BasicBlock.instructions_rename]
  rw [hlayout, instructions, List.map_flatMap]
  exact (Equiv.Perm.map_finRange_perm r.block.symm).flatMap_right _

theorem nodup_rename : ((F.rename r).instructions.map Instruction.id).Nodup ↔
    (F.instructions.map Instruction.id).Nodup := by
  have hids : (F.instructions.map (Instruction.rename r)).map Instruction.id =
      (F.instructions.map Instruction.id).map r.instruction := by
    simp [Instruction.rename]
  rw [((F.instructions_rename r).map Instruction.id).nodup_iff, hids,
    List.nodup_map_iff r.instruction.injective]

theorem resolves_rename (v : Value) : (F.rename r).resolves (v.rename r) = F.resolves v := by
  cases v with
  | instruction id ty =>
      rw [Value.rename, resolves, (F.instructions_rename r).any_eq, List.any_map]
      show (F.instructions.any fun j =>
        decide (r.instruction j.id = r.instruction id) && decide (j.ty = ty)) = _
      simp [resolves]
  | _ => rfl

/-- What the verifier asks of a function. -/
theorem verified_iff : F.verified = true ↔ (F.instructions.map Instruction.id).Nodup ∧
    (∀ i ∈ F.instructions, (∀ v ∈ i.operands, F.resolves v = true) ∧ i.cmpTyped = true) ∧
      ∀ b, F.entry ∉ F.successors b ∧
        ∀ cond s s', F.branchInst b = some (.conditional cond s s') → cond.getType = .integer 1 := by
  rw [verified, Bool.and_eq_true, Bool.and_eq_true, decide_eq_true_iff, List.all_eq_true,
    List.all_eq_true, and_assoc]
  refine and_congr_right fun _ => and_congr (forall₂_congr fun i _ => ?_) ?_
  · rw [Bool.and_eq_true, List.all_eq_true]
  · simp only [List.mem_finRange, forall_const]
    refine forall_congr' fun b => ?_
    rw [Bool.and_eq_true, decide_eq_true_iff]
    refine and_congr_right fun _ => ?_
    obtain _ | ⟨_ | _⟩ := F.branchInst b <;> simp

theorem verified_rename : (F.rename r).verified = true ↔ F.verified = true := by
  rw [verified_iff, verified_iff, nodup_rename, r.block.surjective.forall]
  refine and_congr_right fun _ => and_congr ?_ (forall_congr' fun b => and_congr ?_ ?_)
  · simp only [(F.instructions_rename r).mem_iff, List.forall_mem_map, Instruction.operands_rename,
      Instruction.cmpTyped_rename, resolves_rename]
  · rw [entry_rename, mem_successors_rename]
  · rw [branchInst_rename]
    obtain _ | ⟨_ | _⟩ := F.branchInst b <;> simp [BranchInst.rename]

/-- A renamed value names the renamed instruction. -/
theorem dynCastInstruction_rename (hF : F.verified = true) (v : Value) :
    (F.rename r).dynCastInstruction (v.rename r) =
      (F.dynCastInstruction v).map (Instruction.rename r) := by
  cases v with
  | instruction id ty =>
      have hF' : (F.rename r).verified = true := (F.verified_rename r).2 hF
      cases hi : F.dynCastInstruction (.instruction id ty) with
      | some i =>
          obtain ⟨hmem, rfl⟩ := (dynCastInstruction_eq_some_iff hF).1 hi
          exact (dynCastInstruction_eq_some_iff hF').2
            ⟨(F.instructions_rename r).mem_iff.2 (List.mem_map_of_mem hmem), rfl⟩
      | none =>
          rw [dynCastInstruction, List.find?_eq_none] at hi
          rw [Value.rename, dynCastInstruction, Option.map_none, List.find?_eq_none]
          intro j hj
          obtain ⟨i, hmem, rfl⟩ := List.mem_map.1 ((F.instructions_rename r).mem_iff.1 hj)
          simpa [Instruction.rename] using hi i hmem
  | _ => rfl

end Function

end

end CalcHeuristics
