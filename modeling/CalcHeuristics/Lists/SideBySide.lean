import Mathlib.Data.List.Forall2

/-!
# Lists side by side

What is said of two lists element by element: which lists there are beside a given one, what holds of all
elements of both, and how zipping keeps it. Converting a list by a function that may fail is a case of this.
-/

namespace SideBySide

variable {α β γ δ : Type*}

section
variable {R : α → β → Prop} {l : List α} {l' : List β}

theorem exists_of_forall₂ (h : List.Forall₂ R l l') {a : α} (ha : a ∈ l) : ∃ b, R a b := by
  induction h with
  | nil => exact absurd ha List.not_mem_nil
  | cons hab _ ih =>
      obtain rfl | ha := List.mem_cons.1 ha
      · exact ⟨_, hab⟩
      · exact ih ha

theorem exists_forall₂_iff : (∃ l', List.Forall₂ R l l') ↔ ∀ a ∈ l, ∃ b, R a b := by
  refine ⟨fun ⟨_, h⟩ a ha => exists_of_forall₂ h ha, fun h => ?_⟩
  induction l with
  | nil => exact ⟨[], .nil⟩
  | cons a l ih =>
      obtain ⟨⟨b, hb⟩, hrest⟩ := List.forall_mem_cons.1 h
      obtain ⟨l', hl'⟩ := ih hrest
      exact ⟨b :: l', .cons hb hl'⟩

/-- Only one list is beside `l` when its elements are given by a function. -/
theorem forall₂_iff_map {p : α → Prop} {g : α → β} :
    List.Forall₂ (fun a b => p a ∧ b = g a) l l' ↔ (∀ a ∈ l, p a) ∧ l' = l.map g := by
  induction l generalizing l' with
  | nil => simp
  | cons a l ih =>
      rw [List.forall₂_cons_left_iff, List.forall_mem_cons, List.map_cons]
      constructor
      · rintro ⟨b, rest, ⟨ha, rfl⟩, hrest, rfl⟩
        obtain ⟨hl, rfl⟩ := ih.1 hrest
        exact ⟨⟨ha, hl⟩, rfl⟩
      · rintro ⟨⟨ha, hl⟩, rfl⟩
        exact ⟨_, _, ⟨ha, rfl⟩, ih.2 ⟨hl, rfl⟩, rfl⟩

/-- A property that related elements share. -/
theorem forall_iff_of_forall₂ {p : α → Prop} {q : β → Prop} (hpq : ∀ a b, R a b → (q b ↔ p a))
    (h : List.Forall₂ R l l') : (∀ b ∈ l', q b) ↔ ∀ a ∈ l, p a := by
  induction h with
  | nil => simp
  | cons hab _ ih => rw [List.forall_mem_cons, List.forall_mem_cons, hpq _ _ hab, ih]

end

/-! ### Zipping -/

theorem forall₂_zip_zip {R : α → β → Prop} {S : γ → δ → Prop} {l : List α} {l' : List β} {k : List γ}
    {k' : List δ} (h : List.Forall₂ R l l') (h' : List.Forall₂ S k k') :
    List.Forall₂ (fun a b => R a.1 b.1 ∧ S a.2 b.2) (l.zip k) (l'.zip k') := by
  induction h generalizing k k' with
  | nil => exact .nil
  | cons hab _ ih =>
      cases h' with
      | nil => exact .nil
      | cons hcd hrest => exact .cons ⟨hab, hcd⟩ (ih hrest)

/-- Pairs stay pairs when something is put at the end of both lists. -/
theorem mem_zip_append {l₁ l₂ : List α} {l₁' l₂' : List β} {a : α × β} (h : a ∈ l₁.zip l₁') :
    a ∈ (l₁ ++ l₂).zip (l₁' ++ l₂') := by
  obtain ⟨i, hi⟩ := List.mem_iff_getElem?.1 h
  obtain ⟨hleft, hright⟩ := List.getElem?_zip_eq_some.1 hi
  refine List.mem_iff_getElem?.2 ⟨i, List.getElem?_zip_eq_some.2 ⟨?_, ?_⟩⟩
  · rw [List.getElem?_append_left (List.getElem?_eq_some_iff.1 hleft).1, hleft]
  · rw [List.getElem?_append_left (List.getElem?_eq_some_iff.1 hright).1, hright]

/-! ### Converting -/

theorem mapM_eq_some_iff {f : α → Option β} {l : List α} {l' : List β} :
    l.mapM f = some l' ↔ List.Forall₂ (fun a b => f a = some b) l l' := by
  induction l generalizing l' with
  | nil => simp [eq_comm]
  | cons a l ih =>
      rw [List.mapM_cons, List.forall₂_cons_left_iff]
      constructor
      · intro h
        obtain ⟨b, hb, h⟩ := Option.bind_eq_some_iff.1 h
        obtain ⟨rest, hrest, h⟩ := Option.bind_eq_some_iff.1 h
        exact ⟨b, rest, hb, ih.1 hrest, (Option.some.inj h).symm⟩
      · rintro ⟨b, rest, hb, hrest, rfl⟩
        rw [hb, ih.2 hrest]
        rfl

theorem exists_mapM_iff {f : α → Option β} {l : List α} :
    (∃ l', l.mapM f = some l') ↔ ∀ a ∈ l, ∃ b, f a = some b := by
  simp only [mapM_eq_some_iff, exists_forall₂_iff]

theorem mapM_map_eq_some {f : β → Option γ} {g : α → β} {h : α → γ} {l : List α}
    (hf : ∀ a ∈ l, f (g a) = some (h a)) : (l.map g).mapM f = some (l.map h) := by
  rw [mapM_eq_some_iff, List.forall₂_map_left_iff, List.forall₂_map_right_iff, List.forall₂_same]
  exact hf

end SideBySide
