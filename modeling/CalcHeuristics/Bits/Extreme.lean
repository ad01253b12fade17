import Mathlib.Data.BitVec

/-!
# Orders of machine integers and their extreme values

Against the least value of an order, "at most" says "equal to", and against no other value. The four
orders of machine integers, signed and unsigned, each way round, have the four extreme values for their
least ones.
-/

namespace Bits

variable {w : Nat} {c : BitVec w}

/-- Being at most `c` is being `c` exactly when `c` is the least value. -/
theorem forall_le_eq_beq_iff {r : BitVec w → BitVec w → Bool} {least : BitVec w}
    (hrefl : ∀ x, r x x = true) (hanti : ∀ x y, r x y = true → r y x = true → x = y)
    (hleast : ∀ x, r least x = true) : (∀ x, r x c = (x == c)) ↔ c = least := by
  refine ⟨fun h => ?_, fun h x => ?_⟩
  · have hbelow := (h least).symm.trans (hleast c)
    exact (eq_of_beq hbelow).symm
  · rw [h, Bool.eq_iff_iff, beq_iff_eq]
    exact ⟨fun hle => hanti x least hle (hleast x), fun heq => heq ▸ hrefl x⟩

theorem forall_ule_eq_beq_iff : (∀ x, x.ule c = (x == c)) ↔ c = 0#w := by
  apply forall_le_eq_beq_iff (r := BitVec.ule)
  · simp [BitVec.ule]
  · intro x y hxy hyx
    simp only [BitVec.ule, decide_eq_true_eq] at hxy hyx
    exact BitVec.eq_of_toNat_eq (Nat.le_antisymm hxy hyx)
  · simp [BitVec.ule]

theorem forall_uge_eq_beq_iff : (∀ x, c.ule x = (x == c)) ↔ c = BitVec.allOnes w := by
  apply forall_le_eq_beq_iff (r := fun x y => y.ule x)
  · simp [BitVec.ule]
  · intro x y hxy hyx
    simp only [BitVec.ule, decide_eq_true_eq] at hxy hyx
    exact BitVec.eq_of_toNat_eq (Nat.le_antisymm hyx hxy)
  · intro x
    simp only [BitVec.ule, decide_eq_true_eq, BitVec.toNat_allOnes]
    have := x.isLt
    omega

theorem forall_sle_eq_beq_iff : (∀ x, x.sle c = (x == c)) ↔ c = BitVec.intMin w := by
  apply forall_le_eq_beq_iff (r := BitVec.sle)
  · simp [BitVec.sle]
  · intro x y hxy hyx
    simp only [BitVec.sle, decide_eq_true_eq] at hxy hyx
    exact BitVec.eq_of_toInt_eq (Int.le_antisymm hxy hyx)
  · exact BitVec.intMin_sle

theorem forall_sge_eq_beq_iff : (∀ x, c.sle x = (x == c)) ↔ c = BitVec.intMax w := by
  apply forall_le_eq_beq_iff (r := fun x y => y.sle x)
  · simp [BitVec.sle]
  · intro x y hxy hyx
    simp only [BitVec.sle, decide_eq_true_eq] at hxy hyx
    exact BitVec.eq_of_toInt_eq (Int.le_antisymm hyx hxy)
  · intro x
    simp only [BitVec.sle, decide_eq_true_eq, BitVec.toInt_intMax]
    exact Int.le_sub_one_of_lt x.toInt_lt

end Bits
