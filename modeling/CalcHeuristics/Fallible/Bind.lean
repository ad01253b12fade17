import Mathlib.Logic.Basic

/-!
# Computations that may fail

A sequence of steps succeeds when every step does, and fails with the error of the first one that does not.
The lemmas take a run of `Except` apart by its result.
-/

namespace Fallible

variable {ε ε' σ α β : Type}

section
variable {x : Except ε α} {next : α → Except ε β} {e : ε}

theorem ok_bind (a : α) (next : α → Except ε β) : (Except.ok a >>= next) = next a := rfl

theorem bind_eq_ok_iff {b : β} : (x >>= next) = .ok b ↔ ∃ a, x = .ok a ∧ next a = .ok b := by
  cases x <;> simp [bind, Except.bind]

theorem bind_eq_error_iff :
    (x >>= next) = .error e ↔ x = .error e ∨ ∃ a, x = .ok a ∧ next a = .error e := by
  cases x <;> simp [bind, Except.bind]

/-- An error that no step has is none of the whole. -/
theorem bind_ne_error (hx : x ≠ .error e) (hnext : ∀ a, next a ≠ .error e) :
    x >>= next ≠ .error e := by
  intro h
  obtain hfirst | ⟨a, _, hrest⟩ := bind_eq_error_iff.1 h
  · exact hx hfirst
  · exact hnext a hrest

theorem map_ne_error {g : α → β} (hx : x ≠ .error e) : x.map g ≠ .error e := by
  cases x with
  | error other => exact fun h => hx (by rw [Except.error.inj h])
  | ok a => simp [Except.map]

end

section
variable {x : Except ε α} {g : ε → ε'}

theorem mapError_ok (a : α) : (Except.ok a).mapError g = .ok a := rfl

theorem mapError_error (e : ε) : (Except.error e : Except ε α).mapError g = .error (g e) := rfl

theorem mapError_eq_ok_iff {a : α} : x.mapError g = .ok a ↔ x = .ok a := by
  cases x with
  | error e => simp [mapError_error]
  | ok a => simp [mapError_ok]

theorem mapError_eq_error_iff {e : ε'} : x.mapError g = .error e ↔ ∃ e', x = .error e' ∧ g e' = e := by
  cases x with
  | error e => simp [mapError_error]
  | ok a => simp [mapError_ok]

end

/-- A loop fails with the error of one of its steps. -/
theorem error_of_foldlM {step : σ → α → Except ε σ} {l : List α} {s : σ} {e : ε}
    (h : l.foldlM step s = .error e) : ∃ a ∈ l, ∃ s', step s' a = .error e := by
  induction l generalizing s with
  | nil => simp [List.foldlM_nil, pure, Except.pure] at h
  | cons a l ih =>
      rw [List.foldlM_cons] at h
      obtain hfirst | ⟨s', _, hrest⟩ := bind_eq_error_iff.1 h
      · exact ⟨a, List.mem_cons_self, s, hfirst⟩
      · obtain ⟨b, hb, hstep⟩ := ih hrest
        exact ⟨b, List.mem_cons_of_mem _ hb, hstep⟩

end Fallible
