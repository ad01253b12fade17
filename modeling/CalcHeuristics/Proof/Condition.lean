import CalcHeuristics.Pass

/-!
# Heuristics of the condition

Three heuristics start by casting the condition of the branch to an instruction and asking for its first
two operands. `conditionOperands_eq_some_iff` says when that succeeds; each heuristic is then read off its
operands, so later proofs never unfold the common prologue. The pass runs through exactly on the
conditions that are instructions with two operands and whose lone integer constant is one of at most 64
bits.
-/

namespace CalcHeuristics

variable {n : Nat} {F : Function n} {A : Analyses n} {b t : Fin n} {f : Option (Fin n)}
  {cond : Value} {i : Instruction n} {opr0 opr1 : Value}

/-! ### The common prologue -/

theorem conditionOperands_unconditional {s : Fin n} (hb : F.branchInst b = some (.unconditional s)) :
    conditionOperands F b = .ok none := by
  rw [conditionOperands, hb]
  rfl

theorem conditionOperands_conditional {s s' : Fin n}
    (hb : F.branchInst b = some (.conditional cond s s')) :
    conditionOperands F b =
      match F.dynCastInstruction cond with
      | none => .error .nullPointer
      | some i =>
        match i.operands with
        | opr0 :: opr1 :: _ => .ok (some (i, opr0, opr1))
        | _ => .error .operandIndex := by
  rw [conditionOperands, hb]
  cases hi : F.dynCastInstruction cond with
  | none => simp [deref, hi, bind, Except.bind]
  | some i =>
      rcases hops : i.operands with _ | ⟨opr0, _ | ⟨opr1, rest⟩⟩ <;>
        simp [deref, hi, Instruction.getOperand, hops, bind, Except.bind, pure, Except.pure]

theorem conditionOperands_eq_some_iff :
    conditionOperands F b = .ok (some (i, opr0, opr1)) ↔
      ∃ cond s s' rest, F.branchInst b = some (.conditional cond s s') ∧
        F.dynCastInstruction cond = some i ∧ i.operands = opr0 :: opr1 :: rest := by
  refine ⟨fun h => ?_, fun hcond => ?_⟩
  · cases hb : F.branchInst b with
    | none => simp [conditionOperands, hb, deref, bind, Except.bind] at h
    | some br =>
        cases br with
        | unconditional s => simp [conditionOperands_unconditional hb] at h
        | conditional cond s s' =>
            rw [conditionOperands_conditional hb] at h
            cases hi : F.dynCastInstruction cond with
            | none => simp [hi] at h
            | some j =>
                rcases hops : j.operands with _ | ⟨v0, _ | ⟨v1, rest⟩⟩ <;> simp [hi, hops] at h
                obtain ⟨rfl, rfl, rfl⟩ := h
                exact ⟨cond, s, s', rest, rfl, hi, hops⟩
  · obtain ⟨cond, s, s', rest, hb, hi, hops⟩ := hcond
    rw [conditionOperands_conditional hb, hi]
    simp [hops]

theorem hPointer_eq (F : Function n) (b : Fin n) :
    hPointer F b = (conditionOperands F b).map fun operands =>
      match operands with
      | some (_, opr0, opr1) =>
        if opr0.getType.isPointerTy && opr1.getType.isPointerTy then .notTaken else .notApplicable
      | none => .notApplicable := by
  rw [hPointer]
  cases conditionOperands F b with
  | error e => rfl
  | ok operands =>
      obtain _ | ⟨i, opr0, opr1⟩ := operands
      · rfl
      · simp only [bind, Except.bind, Except.map, pure, Except.pure]
        split <;> rfl

/-- The scans of the two successors, once the operands are known. -/
def guardPrediction (F : Function n) (A : Analyses n) (b t : Fin n) (f : Option (Fin n))
    (opr1 opr2 : Option Value) : Prediction :=
  if !A.postDominates t b && takenGuardScan opr1 opr2 (F.block t).instructions then .taken
  else
    match f with
    | some s =>
      if !A.postDominates s b && notTakenGuardScan opr1 opr2 (F.block s).instructions then .notTaken
      else .notApplicable
    | none => .notApplicable

theorem hGuard_eq (F : Function n) (A : Analyses n) (b t : Fin n) (f : Option (Fin n)) :
    hGuard F A b t f = (conditionOperands F b).map fun operands =>
      match operands with
      | some (_, v0, v1) => guardPrediction F A b t f
          (checkLoad (F.dynCastInstruction v0)) (checkLoad (F.dynCastInstruction v1))
      | none => .notApplicable := by
  rw [hGuard]
  cases conditionOperands F b with
  | error e => rfl
  | ok operands =>
      obtain _ | ⟨i, v0, v1⟩ := operands
      · rfl
      · simp only [bind, Except.bind, Except.map, pure, Except.pure, guardPrediction]
        split
        · rfl
        · cases f with
          | none => rfl
          | some s =>
              dsimp only
              split <;> rfl

/-! ### The constant of a comparison -/

/-- The constant side when exactly one of two integer operands is constant, with the order predicates
that count against zero on that side. -/
def loneConstant (opr0 opr1 : Value) : Option (Value × Predicate × Predicate) :=
  if opr0.getType.isIntegerTy && opr1.getType.isIntegerTy then
    if opr0.isConstant && !opr1.isConstant then some (opr0, .sgt, .sge)
    else if !opr0.isConstant && opr1.isConstant then some (opr1, .slt, .sle)
    else none
  else none

section
variable {lhs rhs c : Value} {strict weak : Predicate}

/-- The orders that count against zero, by the side of the constant. -/
def countingOrders (constantLeft : Bool) : Predicate × Predicate :=
  if constantLeft then (.sgt, .sge) else (.slt, .sle)

/-- A constant is the lone one when the other operand is an integer and no constant. -/
theorem loneConstant_eq_some_iff {orders : Predicate × Predicate} :
    loneConstant lhs rhs = some (c, orders) ↔
      c.getType.isIntegerTy = true ∧ c.isConstant = true ∧ ∃ (constantLeft : Bool) (x : Value),
        x.getType.isIntegerTy = true ∧ x.isConstant = false ∧
        (lhs, rhs) = (if constantLeft then (c, x) else (x, c)) ∧
        orders = countingOrders constantLeft := by
  refine ⟨fun h => ?_, fun h => ?_⟩
  · unfold loneConstant at h
    split_ifs at h with hint hl hr
    · obtain ⟨rfl, rfl⟩ := Prod.mk.inj (Option.some.inj h)
      rw [Bool.and_eq_true] at hint hl
      exact ⟨hint.1, hl.1, true, rhs, hint.2, by simpa using hl.2, rfl, rfl⟩
    · obtain ⟨rfl, rfl⟩ := Prod.mk.inj (Option.some.inj h)
      rw [Bool.and_eq_true] at hint hr
      exact ⟨hint.2, hr.2, false, lhs, hint.1, by simpa using hr.1, rfl, rfl⟩
  · obtain ⟨hc, hconst, constantLeft, x, hx, hxconst, hsides, rfl⟩ := h
    cases constantLeft with
    | true =>
        obtain ⟨rfl, rfl⟩ := Prod.mk.inj hsides
        simp [loneConstant, countingOrders, hx, hxconst, hc, hconst]
    | false =>
        obtain ⟨rfl, rfl⟩ := Prod.mk.inj hsides
        simp [loneConstant, countingOrders, hx, hxconst, hc, hconst]

theorem exists_constant_int {width : Nat} {value : BitVec width}
    {P : (width : Nat) → BitVec width → Prop} :
    (∃ width' value', Value.constant (.int width value) = .constant (.int width' value') ∧
      P width' value') ↔ P width value := by
  refine ⟨fun h => ?_, fun h => ⟨width, value, rfl, h⟩⟩
  obtain ⟨width', value', heq, h⟩ := h
  obtain ⟨rfl, hvalue⟩ := Constant.int.inj (Value.constant.inj heq)
  exact eq_of_heq hvalue ▸ h

/-- Once the constant side is known, only its width and value are left open. -/
theorem exists_loneConstant_iff (hlone : loneConstant lhs rhs = some (c, strict, weak))
    {P : (width : Nat) → BitVec width → Predicate → Predicate → Prop} :
    (∃ width value strict' weak',
        loneConstant lhs rhs = some (.constant (.int width value), strict', weak') ∧
          P width value strict' weak') ↔
      ∃ width value, c = .constant (.int width value) ∧ P width value strict weak := by
  refine ⟨fun h => ?_, fun h => ?_⟩
  · obtain ⟨width, value, strict', weak', hlone', h⟩ := h
    obtain ⟨rfl, rfl, rfl⟩ : c = _ ∧ strict = strict' ∧ weak = weak' := by
      simpa using hlone.symm.trans hlone'
    exact ⟨width, value, rfl, h⟩
  · obtain ⟨width, value, rfl, h⟩ := h
    exact ⟨width, value, strict, weak, hlone, h⟩

end

/-- A 64-bit integer stored in an `int` comes out as zero when its lower half is. -/
theorem toInt32_eq_zero_iff {x : Int} : toInt32 x = 0 ↔ 2 ^ 32 ∣ x := by
  rw [toInt32, BitVec.toInt_ofInt, ← Int.dvd_iff_bmod_eq_zero]
  norm_num

theorem opcodeFires_toInt32_iff {pred strict weak : Predicate} {x : Int} :
    opcodeFires pred strict weak (toInt32 x) = true ↔
    2 ^ 32 ∣ x ∧ (pred = strict ∨ pred = weak) ∨ pred = .eq := by
  simp [opcodeFires, toInt32_eq_zero_iff]

/-- What `hOpcode` makes of a comparison. -/
def opcodePrediction (sext : (width : Nat) × BitVec width → Checked Int) (pred : Predicate) :
    Option (Value × Predicate × Predicate) → Checked Prediction
  | some (c, strict, weak) => do
    let constVal ← sext (← deref c.dynCastConstantInt)
    return if opcodeFires pred strict weak (toInt32 constVal) then .notTaken else .notApplicable
  | none => .ok .notApplicable

/-- What it makes of an integer constant. -/
theorem opcodePrediction_int {pred strict weak : Predicate} {width : Nat} {value : BitVec width} :
    opcodePrediction getSExtValue pred (some (.constant (.int width value), strict, weak)) =
      if -2 ^ 63 ≤ value.toInt ∧ value.toInt < 2 ^ 63 then
        .ok (if opcodeFires pred strict weak (toInt32 value.toInt) then .notTaken
          else .notApplicable)
      else .error .signedValue := by
  by_cases hfits : -2 ^ 63 ≤ value.toInt ∧ value.toInt < 2 ^ 63
  · have hsext : getSExtValue ⟨width, value⟩ = .ok value.toInt := if_pos hfits
    rw [if_pos hfits]
    simp only [opcodePrediction, Value.dynCastConstantInt, deref, bind, Except.bind, hsext]
    rfl
  · have hsext : getSExtValue ⟨width, value⟩ = .error .signedValue := if_neg hfits
    rw [if_neg hfits]
    simp only [opcodePrediction, Value.dynCastConstantInt, deref, bind, Except.bind, hsext]

theorem hOpcodeWith_eq (sext : (width : Nat) × BitVec width → Checked Int) (F : Function n)
    (b : Fin n) : hOpcodeWith F sext b = (conditionOperands F b).bind fun operands =>
      match operands with
      | some (i, opr0, opr1) =>
        match i.op with
        | .cmp pred _ _ => opcodePrediction sext pred (loneConstant opr0 opr1)
        | _ => .ok .notApplicable
      | none => .ok .notApplicable := by
  rw [hOpcodeWith]
  cases conditionOperands F b with
  | error e => rfl
  | ok operands =>
      obtain _ | ⟨i, opr0, opr1⟩ := operands
      · rfl
      · simp only [bind, Except.bind, loneConstant]
        obtain ⟨id, ty, op⟩ := i
        cases op
        case cmp pred lhs rhs =>
          dsimp only
          split
          · split
            · simp only [opcodePrediction, bind, Except.bind, pure, Except.pure]
              split
              · rfl
              · split
                · rfl
                · split <;> rfl
            · split
              · simp only [opcodePrediction, bind, Except.bind, pure, Except.pure]
                split
                · rfl
                · split
                  · rfl
                  · split <;> rfl
              · rfl
          · rfl
        all_goals rfl

theorem hOpcode_eq (F : Function n) (b : Fin n) :
    hOpcode F b = (conditionOperands F b).bind fun operands =>
      match operands with
      | some (i, opr0, opr1) =>
        match i.op with
        | .cmp pred _ _ => opcodePrediction getSExtValue pred (loneConstant opr0 opr1)
        | _ => .ok .notApplicable
      | none => .ok .notApplicable := hOpcodeWith_eq getSExtValue F b

/-! ### When nothing goes wrong -/

/-- `c` is an integer constant whose value `sext` returns. -/
def Returns (sext : (width : Nat) × BitVec width → Checked Int) (c : Value) : Prop :=
  ∃ width value x, c = .constant (.int width value) ∧ sext ⟨width, value⟩ = .ok x

/-- The condition is an instruction with two operands, and when it compares integers, one of them a
constant, that constant satisfies `good`. -/
def ConditionWith (good : Value → Prop) (F : Function n) (cond : Value) : Prop :=
  ∃ i opr0 opr1 rest, F.dynCastInstruction cond = some i ∧ i.operands = opr0 :: opr1 :: rest ∧
    ∀ pred lhs rhs, i.op = .cmp pred lhs rhs →
      ∀ c orders, loneConstant opr0 opr1 = some (c, orders) → good c

theorem ConditionWith.mono {good good' : Value → Prop} (himp : ∀ c, good c → good' c)
    (h : ConditionWith good F cond) : ConditionWith good' F cond := by
  obtain ⟨i, opr0, opr1, rest, hi, hops, hconst⟩ := h
  exact ⟨i, opr0, opr1, rest, hi, hops, fun pred lhs rhs hop c orders hlone =>
    himp c (hconst pred lhs rhs hop c orders hlone)⟩

theorem opcodePrediction_ok_iff {sext : (width : Nat) × BitVec width → Checked Int}
    {pred : Predicate} {lone : Option (Value × Predicate × Predicate)} :
    (∃ p, opcodePrediction sext pred lone = .ok p) ↔
      ∀ c orders, lone = some (c, orders) → Returns sext c := by
  obtain _ | ⟨c, orders⟩ := lone
  · exact ⟨fun _ _ _ h => by simp at h, fun _ => ⟨_, rfl⟩⟩
  refine ⟨fun hok c' orders' heq => ?_, fun h => ?_⟩
  · obtain ⟨p, hp⟩ := hok
    obtain ⟨rfl, rfl⟩ := Prod.mk.inj (Option.some.inj heq)
    simp only [opcodePrediction, bind, Except.bind] at hp
    rcases c with _ | ⟨_ | _ | _ | _ | _ | _ | _⟩ | _ | _ | _ <;>
      simp only [Value.dynCastConstantInt, deref, reduceCtorEq] at hp
    rename_i width value
    cases hx : sext ⟨width, value⟩ with
    | error fault => simp [hx] at hp
    | ok x => exact ⟨width, value, x, rfl, hx⟩
  · obtain ⟨width, value, x, rfl, hx⟩ := h c orders rfl
    simp [opcodePrediction, bind, Except.bind, pure, Except.pure, deref, Value.dynCastConstantInt, hx]

theorem opcodeStep_ok_iff (sext : (width : Nat) × BitVec width → Checked Int) (i : Instruction n)
    (opr0 opr1 : Value) :
    (∃ p, (match i.op with
        | .cmp pred _ _ => opcodePrediction sext pred (loneConstant opr0 opr1)
        | _ => .ok .notApplicable) = .ok p) ↔
      ∀ pred lhs rhs, i.op = .cmp pred lhs rhs →
        ∀ c orders, loneConstant opr0 opr1 = some (c, orders) → Returns sext c := by
  obtain ⟨id, ty, op⟩ := i
  cases op with
  | cmp pred lhs rhs =>
      dsimp only
      rw [opcodePrediction_ok_iff]
      exact ⟨fun h _ _ _ _ => h, fun h => h pred lhs rhs rfl⟩
  | _ => simp

/-- The operands are there and `hOpcode` has a value exactly when the branch is unconditional or its
condition and constant are what the code takes them for. -/
theorem hOpcodeWith_ok_iff {br : BranchInst n}
    (sext : (width : Nat) × BitVec width → Checked Int) (hb : F.branchInst b = some br) :
    ((∃ operands, conditionOperands F b = .ok operands) ∧ ∃ p, hOpcodeWith F sext b = .ok p) ↔
      ∀ cond s s', br = .conditional cond s s' → ConditionWith (Returns sext) F cond := by
  rw [hOpcodeWith_eq]
  cases br with
  | unconditional s => simp [conditionOperands_unconditional hb, Except.bind]
  | conditional cond s s' =>
      rw [conditionOperands_conditional hb]
      refine ⟨fun h cond' t t' heq => ?_, fun hgood => ?_⟩
      · obtain ⟨⟨operands, hoperands⟩, p, hp⟩ := h
        obtain ⟨rfl, _, _⟩ := BranchInst.conditional.inj heq
        cases hi : F.dynCastInstruction cond with
        | none => simp [hi] at hoperands
        | some i =>
            rcases hops : i.operands with _ | ⟨opr0, _ | ⟨opr1, rest⟩⟩
            · simp [hi, hops] at hoperands
            · simp [hi, hops] at hoperands
            · simp only [hi, hops, Except.bind] at hp
              exact ⟨i, opr0, opr1, rest, hi, hops, (opcodeStep_ok_iff sext i opr0 opr1).1 ⟨p, hp⟩⟩
      · obtain ⟨i, opr0, opr1, rest, hi, hops, hconst⟩ := hgood cond s s' rfl
        simp only [hi, hops, Except.bind]
        exact ⟨⟨_, rfl⟩, (opcodeStep_ok_iff sext i opr0 opr1).2 hconst⟩

theorem heuristicRow_ok_iff (F : Function n) (A : Analyses n) (b t : Fin n) (f : Option (Fin n)) :
    (∃ row, heuristicRow F A b t f = .ok row) ↔
      (∃ operands, conditionOperands F b = .ok operands) ∧ ∃ p, hOpcode F b = .ok p := by
  rw [heuristicRow, hPointer_eq, hGuard_eq]
  cases conditionOperands F b with
  | error e => simp [bind, Except.bind, Except.map]
  | ok operands =>
      cases hOpcode F b with
      | error e => simp [bind, Except.bind, Except.map]
      | ok p => simp [bind, Except.bind, Except.map, pure, Except.pure]

/-- `getSExtValue` for callers that keep to constants of at most 64 bits. -/
def getSExtValue64 (c : (width : Nat) × BitVec width) : Checked Int :=
  if c.1 ≤ 64 then .ok c.2.toInt else .error .signedValue

theorem getSExtValue_of_width_le {c : (width : Nat) × BitVec width} (hc : c.1 ≤ 64) :
    getSExtValue c = .ok c.2.toInt := by
  have hlo := BitVec.le_two_mul_toInt (x := c.2)
  have hhi := BitVec.two_mul_toInt_lt (x := c.2)
  have hpow : (2 : Int) ^ c.1 ≤ 2 ^ 64 := pow_le_pow_right₀ (by norm_num) hc
  rw [getSExtValue, if_pos]
  constructor <;> omega

/-- The constant a comparison is made with is an integer of at most 64 bits. -/
def SafeConstant (c : Value) : Prop :=
  ∃ width value, c = .constant (.int width value) ∧ width ≤ 64

theorem returns_getSExtValue64_iff {c : Value} : Returns getSExtValue64 c ↔ SafeConstant c := by
  refine ⟨fun h => ?_, fun h => ?_⟩
  · obtain ⟨width, value, x, rfl, hx⟩ := h
    refine ⟨width, value, rfl, ?_⟩
    by_contra hwide
    simp [getSExtValue64, hwide] at hx
  · obtain ⟨width, value, rfl, hwidth⟩ := h
    exact ⟨width, value, value.toInt, rfl, if_pos hwidth⟩

theorem SafeConstant.returns {c : Value} (h : SafeConstant c) : Returns getSExtValue c := by
  obtain ⟨width, value, rfl, hwidth⟩ := h
  exact ⟨width, value, value.toInt, rfl, getSExtValue_of_width_le hwidth⟩

/-- Evaluating the eight heuristics on a block that ends in a branch goes through, with every constant
handed to `getSExtValue` at most 64 bits wide, exactly when the branch is unconditional or its condition
is an instruction with two operands that compares integers with no constant but such a one. -/
theorem heuristics_run_iff {br : BranchInst n} (A : Analyses n) (hb : F.branchInst b = some br) :
    ((∃ row, heuristicRow F A b br.takenSuccessor br.notTakenSuccessor = .ok row) ∧
        ∃ p, hOpcodeWith F getSExtValue64 b = .ok p) ↔
      ∀ cond s s', br = .conditional cond s s' → ConditionWith SafeConstant F cond := by
  rw [heuristicRow_ok_iff]
  refine ⟨fun h cond s s' hbr => ?_, fun hsafe => ?_⟩
  · obtain ⟨⟨hoperands, _⟩, hsafe⟩ := h
    exact ((hOpcodeWith_ok_iff getSExtValue64 hb).1 ⟨hoperands, hsafe⟩ cond s s' hbr).mono
      fun _ => returns_getSExtValue64_iff.1
  · have h64 := (hOpcodeWith_ok_iff getSExtValue64 hb).2 fun cond s s' hbr =>
      (hsafe cond s s' hbr).mono fun _ => returns_getSExtValue64_iff.2
    have hcode := (hOpcodeWith_ok_iff getSExtValue hb).2 fun cond s s' hbr =>
      (hsafe cond s s' hbr).mono fun _ => SafeConstant.returns
    exact ⟨hcode, h64.2⟩

def certain : BranchProbability := ⟨2 ^ 31, le_rfl⟩

theorem heuristics_run_iff_argument :
    ((∃ row, heuristicRow argumentCondition
          (standardAnalyses argumentCondition fun _ _ => certain) 0 1 (some 2) = .ok row) ∧
        ∃ p, hOpcodeWith argumentCondition getSExtValue64 0 = .ok p) ↔
      ∀ cond s s', BranchInst.conditional (.argument 0 (.integer 1)) (1 : Fin 3) 2 =
        .conditional cond s s' → ConditionWith SafeConstant argumentCondition cond :=
  heuristics_run_iff (standardAnalyses argumentCondition fun _ _ => certain)
    (show argumentCondition.branchInst 0 = some (.conditional (.argument 0 (.integer 1)) 1 2) by
      decide)

theorem heuristics_fault_on_argument :
    argumentCondition.verified = true ∧
      argumentCondition.branchInst 0 = some (.conditional (.argument 0 (.integer 1)) 1 2) ∧
      heuristicRow argumentCondition (standardAnalyses argumentCondition fun _ _ => certain) 0 1
        (some 2) = .error .nullPointer := by
  decide

end CalcHeuristics
