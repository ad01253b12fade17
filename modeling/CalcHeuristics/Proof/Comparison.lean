import CalcHeuristics.Bits.Extreme
import CalcHeuristics.Proof.Inversion

/-!
# The comparisons the rules name

The rules of `hPointer` and `hOpcode` speak of comparisons: of two pointers, and of an integer with a
constant, `x < 0`, `x <= 0` or `x == c`. Which comparisons say so is settled here by what the predicates
mean at the width and the constant of the comparison. The code differs from the rules in four places: the
pointer test is made of any instruction, a constant is cut to an `int` before it is compared with zero,
constants that are not integers of at most 64 bits are not told apart, and a comparison that says the same
by another predicate, such as `x <= 0` unsigned for `x == 0`, is not recognised.
-/

namespace CalcHeuristics

/-- What a predicate says of two integers. The floating-point ones say nothing of integers. -/
def Predicate.holds {width : Nat} : Predicate → BitVec width → BitVec width → Bool
  | eq, x, y => x == y
  | ne, x, y => x != y
  | ugt, x, y => y.ult x
  | uge, x, y => y.ule x
  | ult, x, y => x.ult y
  | ule, x, y => x.ule y
  | sgt, x, y => y.slt x
  | sge, x, y => y.sle x
  | slt, x, y => x.slt y
  | sle, x, y => x.sle y
  | fcmp _, _, _ => false

/-- The comparison with `c`, on the given side, comes out as `test` does, whatever the other side is. -/
def Predicate.Says (pred : Predicate) (constantLeft : Bool) {width : Nat} (c : BitVec width)
    (test : BitVec width → Bool) : Prop :=
  ∀ x, (if constantLeft then pred.holds c x else pred.holds x c) = test x

variable {n : Nat}

/-- `i` compares an integer that is no constant with the integer constant `c`. -/
def ComparesWith (i : Instruction n) (pred : Predicate) (constantLeft : Bool) (c : Value) : Prop :=
  c.getType.isIntegerTy = true ∧ c.isConstant = true ∧
    ∃ x : Value, x.getType.isIntegerTy = true ∧ x.isConstant = false ∧
      i.op = if constantLeft then .cmp pred c x else .cmp pred x c

/-- The comparisons the opcode rule names: those with a constant that say `x < 0` or `x <= 0`, signed, when
it is zero, and those that say `x == c`. -/
def OpcodeRule (i : Instruction n) : Prop :=
  ∃ (pred : Predicate) (constantLeft : Bool) (width : Nat) (c : BitVec width),
    0 < width ∧ width ≤ 64 ∧ ComparesWith i pred constantLeft (.constant (.int width c)) ∧
      (c.toInt = 0 ∧
          (pred.Says constantLeft c (fun x => decide (x.toInt < 0)) ∨
            pred.Says constantLeft c (fun x => decide (x.toInt ≤ 0))) ∨
        pred.Says constantLeft c fun x => x == c)

/-- The comparisons the pointer rule names. -/
def PointerRule (i : Instruction n) : Prop :=
  ∃ pred lhs rhs, i.op = .cmp pred lhs rhs ∧ lhs.getType.isPointerTy = true ∧
    rhs.getType.isPointerTy = true

/-- The prediction is "not taken" exactly where the rule holds, and no prediction everywhere else. -/
def FollowsRule (prediction : Checked Prediction) (rule : Prop) : Prop :=
  (prediction = .ok .notTaken ↔ rule) ∧ (prediction = .ok .notApplicable ↔ ¬ rule)

theorem followsRule_ite_iff {p rule : Prop} [Decidable p] :
    FollowsRule (.ok (if p then .notTaken else .notApplicable)) rule ↔ (p ↔ rule) := by
  rw [FollowsRule, Except.ok.injEq, Except.ok.injEq]
  split
  · rename_i hp
    simp [hp]
  · rename_i hp
    simp [hp]

/-- A fault is no value at all. -/
theorem not_followsRule {prediction : Checked Prediction} (hfault : ∀ p, prediction ≠ .ok p)
    (rule : Prop) : ¬ FollowsRule prediction rule := by
  intro h
  have hrule : ¬ rule := fun hr => hfault _ (h.1.2 hr)
  exact hfault _ (h.2.2 hrule)

/-! ### What the predicates say -/

/-- The predicate that says the same with the operands exchanged. -/
def Predicate.swapped : Predicate → Predicate
  | eq => eq
  | ne => ne
  | ugt => ult
  | uge => ule
  | ult => ugt
  | ule => uge
  | sgt => slt
  | sge => sle
  | slt => sgt
  | sle => sge
  | fcmp code => fcmp code

/-- The predicate of the comparison written with its constant on the right. -/
def Predicate.facing (pred : Predicate) (constantLeft : Bool) : Predicate :=
  if constantLeft then pred.swapped else pred

/-- Comparisons with `c` on the right that say `x == c`, or say `x < 0` or `x <= 0` of a single bit, by a
predicate that the rule is not written with, or against the least value instead of zero. -/
def OtherSpelling (pred : Predicate) {width : Nat} (c : BitVec width) : Prop :=
  pred = .ule ∧ c = BitVec.ofNat width 0 ∨ pred = .uge ∧ c = BitVec.allOnes width ∨
    pred = .sle ∧ c = BitVec.intMin width ∨ pred = .sge ∧ c = BitVec.intMax width ∨
    width = 1 ∧ c = BitVec.ofNat width 0 ∧ (pred = .ne ∨ pred = .ugt ∨ pred = .uge)

section
variable {pred q : Predicate} {constantLeft : Bool} {width : Nat} {c : BitVec width}
  {test : BitVec width → Bool}

theorem Predicate.holds_swapped (pred : Predicate) (x y : BitVec width) :
    pred.swapped.holds x y = pred.holds y x := by
  cases pred <;> simp [swapped, holds, Bool.beq_comm, bne]

theorem Predicate.says_iff :
    pred.Says constantLeft c test ↔ ∀ x, (pred.facing constantLeft).holds x c = test x := by
  cases constantLeft with
  | false => exact Iff.rfl
  | true => simp only [Says, facing, if_true, holds_swapped]

/-- What a predicate says of zero and an integer on its left, signed or as one of the values of a width. -/
def Predicate.zeroTest : Predicate → Int → Bool
  | eq, x | ule, x => x = 0
  | ne, x | ugt, x => x ≠ 0
  | uge, _ => true
  | ult, _ | fcmp _, _ => false
  | sgt, x => 0 < x
  | sge, x => 0 ≤ x
  | slt, x => x < 0
  | sle, x => x ≤ 0

theorem Predicate.holds_zero (q : Predicate) (x : BitVec width) :
    q.holds x (BitVec.ofNat width 0) = q.zeroTest x.toInt := by
  have hzero : x.toInt = 0 ↔ x = BitVec.ofNat width 0 := by
    rw [← BitVec.toInt_zero (w := width), BitVec.toInt_inj]
  have hnat : x.toNat = 0 ↔ x = BitVec.ofNat width 0 := by
    rw [← BitVec.toNat_inj, BitVec.toNat_ofNat, Nat.zero_mod]
  rw [Bool.eq_iff_iff]
  cases q <;> simp [holds, zeroTest, BitVec.ult, BitVec.ule, BitVec.slt, BitVec.sle, hzero, hnat,
    Nat.pos_iff_ne_zero]

theorem forall_toInt (hwidth : 0 < width) {P : Int → Prop} (h : ∀ x : BitVec width, P x.toInt) :
    P 0 ∧ P (-1) ∧ (1 < width → P 1) := by
  refine ⟨?_, ?_, fun hlt => ?_⟩
  · simpa using h (BitVec.ofNat width 0)
  · simpa [hwidth] using h (BitVec.allOnes width)
  · simpa [hlt] using h (BitVec.ofNat width 1)

/-- Zero, minus one and, where there is one, one tell the comparisons with zero apart. -/
theorem forall_holds_neg_iff (hwidth : 0 < width) :
    (∀ x, q.holds x (BitVec.ofNat width 0) = decide (x.toInt < 0)) ↔
      q = .slt ∨ width = 1 ∧ (q = .ne ∨ q = .ugt) := by
  refine ⟨fun h => ?_, fun h => ?_⟩
  · simp only [Predicate.holds_zero] at h
    obtain ⟨hzero, hminus, hone⟩ :=
      forall_toInt (P := fun z => q.zeroTest z = decide (z < 0)) hwidth h
    cases q <;> simp [Predicate.zeroTest] at hzero hminus hone ⊢ <;> omega
  · obtain rfl | ⟨rfl, rfl | rfl⟩ := h
    · simp [Predicate.holds_zero, Predicate.zeroTest]
    · decide
    · decide

theorem forall_holds_nonpos_iff (hwidth : 0 < width) :
    (∀ x, q.holds x (BitVec.ofNat width 0) = decide (x.toInt ≤ 0)) ↔ q = .sle ∨ width = 1 ∧ q = .uge := by
  refine ⟨fun h => ?_, fun h => ?_⟩
  · simp only [Predicate.holds_zero] at h
    obtain ⟨hzero, hminus, hone⟩ :=
      forall_toInt (P := fun z => q.zeroTest z = decide (z ≤ 0)) hwidth h
    cases q <;> simp [Predicate.zeroTest] at hzero hminus hone ⊢
    omega
  · obtain rfl | ⟨rfl, rfl⟩ := h
    · simp [Predicate.holds_zero, Predicate.zeroTest]
    · decide

/-- The constants each predicate says equality with. -/
theorem forall_holds_eq_beq_iff :
    (∀ x, q.holds x c = (x == c)) ↔ q = .eq ∨ q = .ule ∧ c = BitVec.ofNat width 0 ∨
      q = .uge ∧ c = BitVec.allOnes width ∨ q = .sle ∧ c = BitVec.intMin width ∨
      q = .sge ∧ c = BitVec.intMax width := by
  cases q with
  | eq => simp [Predicate.holds]
  | ule => simpa [Predicate.holds] using Bits.forall_ule_eq_beq_iff
  | uge => simpa [Predicate.holds] using Bits.forall_uge_eq_beq_iff
  | sle => simpa [Predicate.holds] using Bits.forall_sle_eq_beq_iff
  | sge => simpa [Predicate.holds] using Bits.forall_sge_eq_beq_iff
  | _ =>
      refine iff_of_false (fun h => ?_) (by simp)
      have hself := h c
      simp [Predicate.holds, BitVec.ult, BitVec.slt] at hself

/-- The comparisons the rule names, by predicate and constant. -/
theorem says_rule_iff (hwidth : 0 < width) :
    (c.toInt = 0 ∧ (pred.Says constantLeft c (fun x => decide (x.toInt < 0)) ∨
          pred.Says constantLeft c (fun x => decide (x.toInt ≤ 0))) ∨
        pred.Says constantLeft c fun x => x == c) ↔
      c.toInt = 0 ∧ (pred.facing constantLeft = .slt ∨ pred.facing constantLeft = .sle) ∨
        pred.facing constantLeft = .eq ∨ OtherSpelling (pred.facing constantLeft) c := by
  have hzero : c.toInt = 0 ↔ c = BitVec.ofNat width 0 := by
    rw [← BitVec.toInt_zero (w := width), BitVec.toInt_inj]
  simp only [Predicate.says_iff, forall_holds_eq_beq_iff, hzero, OtherSpelling]
  by_cases hc : c = BitVec.ofNat width 0
  · subst hc
    rw [forall_holds_neg_iff hwidth, forall_holds_nonpos_iff hwidth]
    grind
  · simp [hc]

end

/-! ### The rules and the lone constant -/

section
variable {i : Instruction n} {pred : Predicate} {lhs rhs c : Value} {constantLeft : Bool}

theorem countingOrders_inj {constantLeft' : Bool}
    (h : countingOrders constantLeft = countingOrders constantLeft') :
    constantLeft = constantLeft' := by
  cases constantLeft <;> cases constantLeft' <;> simp_all [countingOrders]

theorem comparesWith_iff (hop : i.op = .cmp pred lhs rhs) {pred' : Predicate} :
    ComparesWith i pred' constantLeft c ↔
      pred' = pred ∧ loneConstant lhs rhs = some (c, countingOrders constantLeft) := by
  rw [ComparesWith, loneConstant_eq_some_iff, hop]
  refine ⟨fun h => ?_, fun h => ?_⟩
  · obtain ⟨hc, hconst, x, hx, hxconst, hsides⟩ := h
    cases constantLeft with
    | true =>
        obtain ⟨rfl, rfl, rfl⟩ := Operation.cmp.inj hsides
        exact ⟨rfl, hc, hconst, true, rhs, hx, hxconst, rfl, rfl⟩
    | false =>
        obtain ⟨rfl, rfl, rfl⟩ := Operation.cmp.inj hsides
        exact ⟨rfl, hc, hconst, false, lhs, hx, hxconst, rfl, rfl⟩
  · obtain ⟨rfl, hc, hconst, side, x, hx, hxconst, hsides, horders⟩ := h
    obtain rfl := countingOrders_inj horders
    refine ⟨hc, hconst, x, hx, hxconst, ?_⟩
    cases constantLeft with
    | true =>
        obtain ⟨rfl, rfl⟩ := Prod.mk.inj hsides
        rfl
    | false =>
        obtain ⟨rfl, rfl⟩ := Prod.mk.inj hsides
        rfl

theorem comparesWith_cmp (h : ComparesWith i pred constantLeft c) :
    ∃ lhs rhs, i.op = .cmp pred lhs rhs := by
  obtain ⟨_, _, x, _, _, hop⟩ := h
  cases constantLeft with
  | true => exact ⟨_, _, hop⟩
  | false => exact ⟨_, _, hop⟩

/-- The opcode rule, in terms of the constant the code finds. -/
theorem opcodeRule_iff (hop : i.op = .cmp pred lhs rhs) :
    OpcodeRule i ↔ ∃ constantLeft width value,
      loneConstant lhs rhs = some (.constant (.int width value), countingOrders constantLeft) ∧
        (0 < width ∧ width ≤ 64) ∧
        (value.toInt = 0 ∧ (pred.facing constantLeft = .slt ∨ pred.facing constantLeft = .sle) ∨
          pred.facing constantLeft = .eq ∨ OtherSpelling (pred.facing constantLeft) value) := by
  refine ⟨fun h => ?_, fun h => ?_⟩
  · obtain ⟨pred', constantLeft, width, value, hpos, hwidth, hcompares, hrule⟩ := h
    obtain ⟨rfl, hlone⟩ := (comparesWith_iff hop).1 hcompares
    exact ⟨constantLeft, width, value, hlone, ⟨hpos, hwidth⟩, (says_rule_iff hpos).1 hrule⟩
  · obtain ⟨constantLeft, width, value, hlone, ⟨hpos, hwidth⟩, hrule⟩ := h
    exact ⟨pred, constantLeft, width, value, hpos, hwidth, (comparesWith_iff hop).2 ⟨rfl, hlone⟩,
      (says_rule_iff hpos).2 hrule⟩

theorem opcodeRule_iff_of_lone (hop : i.op = .cmp pred lhs rhs)
    (hlone : loneConstant lhs rhs = some (c, countingOrders constantLeft)) :
    OpcodeRule i ↔ ∃ width value, c = .constant (.int width value) ∧ (0 < width ∧ width ≤ 64) ∧
      (value.toInt = 0 ∧ (pred.facing constantLeft = .slt ∨ pred.facing constantLeft = .sle) ∨
        pred.facing constantLeft = .eq ∨ OtherSpelling (pred.facing constantLeft) value) := by
  rw [opcodeRule_iff hop]
  refine ⟨fun h => ?_, fun h => ?_⟩
  · obtain ⟨side, width, value, hlone', hrule⟩ := h
    obtain ⟨hc, horders⟩ := Prod.mk.inj (Option.some.inj (hlone.symm.trans hlone'))
    obtain rfl := countingOrders_inj horders
    exact ⟨width, value, hc, hrule⟩
  · obtain ⟨width, value, rfl, hrule⟩ := h
    exact ⟨constantLeft, width, value, hlone, hrule⟩

theorem opcodeRule_cmp (h : OpcodeRule i) : ∃ pred lhs rhs, i.op = .cmp pred lhs rhs := by
  obtain ⟨pred, constantLeft, width, c, _, _, hcompares, _⟩ := h
  exact ⟨pred, comparesWith_cmp hcompares⟩

theorem pointerRule_iff (hop : i.op = .cmp pred lhs rhs) :
    PointerRule i ↔ lhs.getType.isPointerTy = true ∧ rhs.getType.isPointerTy = true := by
  rw [PointerRule, hop]
  simp

/-- The constant is an integer that `getSExtValue` returns. Where the code counts the comparison, the rule
does, and where the rule counts it in another spelling, the code happens to. -/
def ReadsTrue (pred : Predicate) (c : Value) : Prop :=
  ∃ width value, c = .constant (.int width value) ∧
    (-2 ^ 63 ≤ value.toInt ∧ value.toInt < 2 ^ 63) ∧
      (pred = .eq → 0 < width ∧ width ≤ 64) ∧
      (pred = .slt ∨ pred = .sle → 2 ^ 32 ∣ value.toInt → (0 < width ∧ width ≤ 64) ∧
        (value.toInt = 0 ∨ pred = .sle ∧ value = BitVec.intMin width)) ∧
      (0 < width ∧ width ≤ 64 → OtherSpelling pred value → pred = .sle ∧ 2 ^ 32 ∣ value.toInt)

theorem opcodeFires_facing_iff {constVal : Int} :
    opcodeFires pred (countingOrders constantLeft).1 (countingOrders constantLeft).2
        (toInt32 constVal) = true ↔
      2 ^ 32 ∣ constVal ∧ (pred.facing constantLeft = .slt ∨ pred.facing constantLeft = .sle) ∨
        pred.facing constantLeft = .eq := by
  rw [opcodeFires_toInt32_iff]
  cases constantLeft <;> cases pred <;> simp [countingOrders, Predicate.facing, Predicate.swapped]

/-- What fires and what the rule names, compared predicate by predicate. -/
theorem fires_iff_rule_iff {q : Predicate} {width : Nat} {value : BitVec width} :
    ((2 ^ 32 ∣ value.toInt ∧ (q = .slt ∨ q = .sle) ∨ q = .eq) ↔
        (0 < width ∧ width ≤ 64) ∧
          (value.toInt = 0 ∧ (q = .slt ∨ q = .sle) ∨ q = .eq ∨ OtherSpelling q value)) ↔
      (q = .eq → 0 < width ∧ width ≤ 64) ∧
        (q = .slt ∨ q = .sle → 2 ^ 32 ∣ value.toInt → (0 < width ∧ width ≤ 64) ∧
          (value.toInt = 0 ∨ q = .sle ∧ value = BitVec.intMin width)) ∧
        (0 < width ∧ width ≤ 64 → OtherSpelling q value → q = .sle ∧ 2 ^ 32 ∣ value.toInt) := by
  have hzero : value.toInt = 0 → (2 ^ 32 : Int) ∣ value.toInt := fun h => h ▸ dvd_zero _
  cases q with
  | eq => simp [OtherSpelling]
  | slt =>
      simp only [OtherSpelling, reduceCtorEq, false_and, or_false, and_true, true_imp_iff]
      grind
  | sle =>
      simp only [OtherSpelling, reduceCtorEq, false_and, or_false, or_true, and_true, true_imp_iff]
      grind
  | _ => simp [OtherSpelling]

/-- For a comparison with one constant side, the code keeps to the rule exactly when it reads the comparison
for what it is. -/
theorem opcodePrediction_rule_iff (hop : i.op = .cmp pred lhs rhs)
    (hlone : loneConstant lhs rhs = some (c, countingOrders constantLeft)) :
    FollowsRule (opcodePrediction getSExtValue pred (some (c, countingOrders constantLeft)))
        (OpcodeRule i) ↔ ReadsTrue (pred.facing constantLeft) c := by
  rw [opcodeRule_iff_of_lone hop hlone, ReadsTrue]
  by_cases hint : ∃ width value, c = .constant (.int width value)
  · obtain ⟨width, value, rfl⟩ := hint
    rw [exists_constant_int, exists_constant_int, ← Prod.mk.eta (p := countingOrders constantLeft),
      opcodePrediction_int]
    split
    · rename_i hfits
      rw [followsRule_ite_iff, opcodeFires_facing_iff, and_iff_right hfits]
      exact fires_iff_rule_iff
    · rename_i hfits
      simp only [hfits, false_and, iff_false]
      exact not_followsRule (by simp) _
  · refine iff_of_false (not_followsRule (fun v hv => ?_) _) fun h => ?_
    · obtain ⟨width, value, _, hc, _⟩ := opcodePrediction_ok_iff.1 ⟨v, hv⟩ c _ rfl
      exact hint ⟨width, value, hc⟩
    · obtain ⟨width, value, hc, _⟩ := h
      exact hint ⟨width, value, hc⟩

/-- The values of the two condition heuristics follow their rules exactly when the condition is a
comparison, or its first two operands are not both pointers, and the lone integer constant of a
comparison, if it has one, is read for what it is. -/
theorem condition_rules_iff {F : Function n} {b s s' : Fin n} {cond opr0 opr1 : Value}
    {rest : List Value} (hb : F.branchInst b = some (.conditional cond s s'))
    (hi : F.dynCastInstruction cond = some i) (hops : i.operands = opr0 :: opr1 :: rest) :
    FollowsRule (hPointer F b) (PointerRule i) ∧ FollowsRule (hOpcode F b) (OpcodeRule i) ↔
      ((∃ pred lhs rhs, i.op = .cmp pred lhs rhs) ∨
          ¬ (opr0.getType.isPointerTy = true ∧ opr1.getType.isPointerTy = true)) ∧
        ∀ pred constantLeft c, ComparesWith i pred constantLeft c →
          ReadsTrue (pred.facing constantLeft) c := by
  have hcond : conditionOperands F b = .ok (some (i, opr0, opr1)) :=
    conditionOperands_eq_some_iff.2 ⟨cond, s, s', rest, hb, hi, hops⟩
  rw [hPointer_eq, hOpcode_eq, hcond]
  simp only [Except.map, Except.bind, followsRule_ite_iff, Bool.and_eq_true]
  by_cases hcmp : ∃ pred lhs rhs, i.op = .cmp pred lhs rhs
  · obtain ⟨pred, lhs, rhs, hop⟩ := hcmp
    obtain ⟨rfl, rfl, rfl⟩ : lhs = opr0 ∧ rhs = opr1 ∧ [] = rest := by
      simpa [Instruction.operands, hop, Operation.operands] using hops
    have hopcode : FollowsRule (opcodePrediction getSExtValue pred (loneConstant lhs rhs))
          (OpcodeRule i) ↔
        ∀ pred constantLeft c, ComparesWith i pred constantLeft c →
          ReadsTrue (pred.facing constantLeft) c := by
      simp only [comparesWith_iff hop]
      cases hlone : loneConstant lhs rhs with
      | none => simp [FollowsRule, opcodePrediction, opcodeRule_iff hop, hlone]
      | some lone =>
          obtain ⟨c, orders⟩ := lone
          obtain ⟨_, _, constantLeft, _, _, _, _, rfl⟩ := loneConstant_eq_some_iff.1 hlone
          rw [opcodePrediction_rule_iff hop hlone]
          refine ⟨fun h pred' side c' hcompares => ?_, fun h => h pred constantLeft c ⟨rfl, rfl⟩⟩
          obtain ⟨rfl, hsame⟩ := hcompares
          obtain ⟨rfl, horders⟩ := Prod.mk.inj (Option.some.inj hsame)
          exact countingOrders_inj horders ▸ h
    have hpointer : (lhs.getType.isPointerTy = true ∧ rhs.getType.isPointerTy = true) ↔
        PointerRule i := (pointerRule_iff hop).symm
    rw [hop]
    dsimp only
    rw [hopcode, and_iff_right hpointer, and_iff_right (Or.inl ⟨pred, lhs, rhs, rfl⟩)]
  · have hpointer : ¬ PointerRule i := fun h => by
      obtain ⟨pred, lhs, rhs, hop, _⟩ := h
      exact hcmp ⟨pred, lhs, rhs, hop⟩
    have hopcode : ¬ OpcodeRule i := fun h => hcmp (opcodeRule_cmp h)
    have hother : ∀ pred lhs rhs, i.op ≠ .cmp pred lhs rhs := fun pred lhs rhs hop =>
      hcmp ⟨pred, lhs, rhs, hop⟩
    have hcompares : ∀ pred constantLeft c, ComparesWith i pred constantLeft c →
        ReadsTrue (pred.facing constantLeft) c := fun pred _ _ h =>
      absurd ⟨pred, comparesWith_cmp h⟩ hcmp
    rw [iff_false_right hpointer, and_iff_left hcompares, or_iff_right hcmp]
    apply and_iff_left
    simp [FollowsRule, hopcode]

end

/-- `x < 0` -/
def signTest : Operation 3 := .cmp .slt (.argument 0 (.integer 64)) (.constant (.int 64 0))

theorem condition_rules_iff_signTest :
    FollowsRule (hPointer (branchOn signTest) 0)
        (PointerRule (n := 3) ⟨0, .integer 1, signTest⟩) ∧
      FollowsRule (hOpcode (branchOn signTest) 0)
        (OpcodeRule (n := 3) ⟨0, .integer 1, signTest⟩) := by
  refine (condition_rules_iff (F := branchOn signTest) rfl rfl rfl).2
    ⟨Or.inl ⟨_, _, _, rfl⟩, fun pred constantLeft c hcompares => ?_⟩
  obtain ⟨hc, hconst, x, _, hx, hop⟩ := hcompares
  cases constantLeft with
  | true =>
      obtain ⟨_, rfl, _⟩ := Operation.cmp.inj hop
      exact absurd hconst (by decide)
  | false =>
      obtain ⟨rfl, _, rfl⟩ := Operation.cmp.inj hop
      exact ⟨64, 0, rfl, by decide, by decide, fun _ _ => by decide,
        fun _ => by simp [OtherSpelling, Predicate.facing]⟩

/-- `x < 2 ^ 32` -/
def wideTest : Operation 3 :=
  .cmp .slt (.argument 0 (.integer 64)) (.constant (.int 64 (BitVec.ofNat 64 (2 ^ 32))))

/-- A call with a pointer for its argument; the function called is a pointer as well. -/
def predicateCall : Operation 3 := .call [.argument 0 .pointer] (.constant (.global 0))

/-- `x <= 0`, unsigned. -/
def unsignedTest : Operation 3 := .cmp .ule (.argument 0 (.integer 32)) (.constant (.int 32 0))

/-- The call is predicted as if it compared two pointers, and `x < 2 ^ 32` as if it were `x < 0`. The
unsigned `x <= 0`, which says `x == 0`, is not predicted. -/
theorem rules_not_followed :
    (branchOn predicateCall).verified = true ∧
      hPointer (branchOn predicateCall) 0 = .ok .notTaken ∧
      ¬ PointerRule (n := 3) ⟨0, .integer 1, predicateCall⟩ ∧
      ((branchOn wideTest).verified = true ∧ hOpcode (branchOn wideTest) 0 = .ok .notTaken ∧
        ¬ OpcodeRule (n := 3) ⟨0, .integer 1, wideTest⟩) ∧
      (branchOn unsignedTest).verified = true ∧
      hOpcode (branchOn unsignedTest) 0 = .ok .notApplicable ∧
      OpcodeRule (n := 3) ⟨0, .integer 1, unsignedTest⟩ := by
  have hloneWide : loneConstant (.argument 0 (.integer 64))
      (.constant (.int 64 (BitVec.ofNat 64 (2 ^ 32)))) = some (_, countingOrders false) := rfl
  have hloneUnsigned : loneConstant (.argument 0 (.integer 32)) (.constant (.int 32 0)) =
      some (_, countingOrders false) := rfl
  have hwide := opcodeRule_iff_of_lone (i := (⟨0, .integer 1, wideTest⟩ : Instruction 3)) rfl hloneWide
  have hunsigned :=
    opcodeRule_iff_of_lone (i := (⟨0, .integer 1, unsignedTest⟩ : Instruction 3)) rfl hloneUnsigned
  rw [exists_constant_int] at hwide hunsigned
  refine ⟨by decide, by decide, by simp [PointerRule, predicateCall],
    ⟨by decide, by decide, fun h => ?_⟩, by decide, by decide, hunsigned.2 ⟨by decide, ?_⟩⟩
  · obtain ⟨_, ⟨hzero, _⟩ | heq | hother⟩ := hwide.1 h
    · exact absurd hzero (by decide)
    · exact absurd heq (by decide)
    · simp [OtherSpelling, Predicate.facing] at hother
  · exact Or.inr (Or.inr (Or.inl ⟨rfl, rfl⟩))

end CalcHeuristics
