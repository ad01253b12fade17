import Mathlib.Data.List.Basic

/-!
# Scanning a list up to a match

A scan that stops at the first element of one kind, provided it has met none of another kind, is
described by where it stops. `until_cons` is the one step of the scan.
-/

namespace Scan

variable {α : Type*} {P Q : α → Prop} {x : α} {l : List α}

/-- Some element satisfies `Q`, and all those before it satisfy `P`. -/
def Until (P Q : α → Prop) (l : List α) : Prop :=
  ∃ pre x post, l = pre ++ x :: post ∧ Q x ∧ ∀ y ∈ pre, P y

theorem not_until_nil : ¬ Until P Q [] := by
  intro h
  obtain ⟨pre, x, post, heq, _⟩ := h
  simp at heq

theorem until_cons : Until P Q (x :: l) ↔ Q x ∨ P x ∧ Until P Q l := by
  refine ⟨fun h => ?_, fun h => ?_⟩
  · obtain ⟨pre, y, post, heq, hy, hpre⟩ := h
    cases pre with
    | nil =>
        obtain ⟨rfl, _⟩ := List.cons.inj heq
        exact Or.inl hy
    | cons z pre =>
        obtain ⟨rfl, rfl⟩ := List.cons.inj heq
        exact Or.inr ⟨hpre x List.mem_cons_self, pre, y, post, rfl, hy,
          fun w hw => hpre w (List.mem_cons_of_mem _ hw)⟩
  · obtain hx | ⟨hx, pre, y, post, rfl, hy, hpre⟩ := h
    · exact ⟨[], x, l, rfl, hx, by simp⟩
    · refine ⟨x :: pre, y, post, rfl, hy, fun w hw => ?_⟩
      obtain rfl | hw := List.mem_cons.1 hw
      · exact hx
      · exact hpre w hw

/-- The same by positions: the scan stops at the first element of the other kind it finds at `k`. -/
theorem until_iff_getElem? :
    Until P Q l ↔ ∃ (k : Nat) (x : α), l[k]? = some x ∧ Q x ∧ ∀ j < k, ∀ y, l[j]? = some y → P y := by
  induction l with
  | nil => simp [not_until_nil]
  | cons a l ih =>
      rw [until_cons, ih]
      refine ⟨fun h => ?_, fun h => ?_⟩
      · obtain ha | ⟨ha, k, x, hk, hx, hbefore⟩ := h
        · exact ⟨0, a, rfl, ha, fun j hj => absurd hj (Nat.not_lt_zero j)⟩
        · refine ⟨k + 1, x, hk, hx, fun j hj y hy => ?_⟩
          cases j with
          | zero => exact Option.some.inj hy ▸ ha
          | succ j => exact hbefore j (Nat.lt_of_succ_lt_succ hj) y hy
      · obtain ⟨k, x, hk, hx, hbefore⟩ := h
        cases k with
        | zero => exact Or.inl (Option.some.inj hk ▸ hx)
        | succ k =>
            exact Or.inr ⟨hbefore 0 (Nat.succ_pos k) a rfl, k, x, hk, hx,
              fun j hj y hy => hbefore (j + 1) (Nat.succ_lt_succ hj) y hy⟩

/-- An element that the scan passes over does not matter. -/
theorem until_cons_of_skip (hP : P x) (hQ : ¬ Q x) : Until P Q (x :: l) ↔ Until P Q l := by
  rw [until_cons]
  simp [hP, hQ]

end Scan
