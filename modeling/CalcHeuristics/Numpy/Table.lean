import CalcHeuristics.Lists.SideBySide

/-!
# Tables

Rows of one length, and what becomes of them when rows are left out by their positions, when two tables are
put together and when every element is converted. `without_positions` says that leaving out the positions of
a mask is filtering.
-/

namespace Numpy

open SideBySide

variable {α β γ : Type*}

/-- Rows of one length. -/
@[ext]
structure Table (α : Type*) where
  width : Nat
  rows : List (List α)
  length_eq : ∀ row ∈ rows, row.length = width

/-- The positions where a mask holds. -/
def positions (mask : List Bool) : List Nat := (mask.zipIdx.filter Prod.fst).map Prod.snd

/-- What is left of a list whose positions begin at `n`. -/
def withoutFrom (dropped : List Nat) : Nat → List α → List α
  | _, [] => []
  | n, row :: rows =>
    if n ∈ dropped then withoutFrom dropped (n + 1) rows
    else row :: withoutFrom dropped (n + 1) rows

/-- What is left of a list without the given positions. -/
def without (rows : List α) (dropped : List Nat) : List α := withoutFrom dropped 0 rows

theorem mem_withoutFrom {rows : List α} {dropped : List Nat} {n : Nat} {row : α} :
    row ∈ withoutFrom dropped n rows ↔ ∃ i, rows[i]? = some row ∧ n + i ∉ dropped := by
  induction rows generalizing n with
  | nil => simp [withoutFrom]
  | cons first rows ih =>
      -- a position is that of the first row or one further on
      have hsplit : (∃ i, (first :: rows)[i]? = some row ∧ n + i ∉ dropped) ↔
          (first = row ∧ n ∉ dropped) ∨
            ∃ i, rows[i]? = some row ∧ n + 1 + i ∉ dropped := by
        constructor
        · rintro ⟨i, hi, hkeep⟩
          cases i with
          | zero => exact Or.inl ⟨Option.some.inj hi, hkeep⟩
          | succ i => exact Or.inr ⟨i, hi, by rwa [Nat.add_right_comm]⟩
        · rintro (⟨rfl, hkeep⟩ | ⟨i, hi, hkeep⟩)
          · exact ⟨0, rfl, hkeep⟩
          · exact ⟨i + 1, hi, by rwa [← Nat.add_assoc, Nat.add_right_comm]⟩
      rw [hsplit, ← ih, withoutFrom]
      split
      · rename_i hdropped
        simp [hdropped]
      · rename_i hkeep
        simp [hkeep, eq_comm]

theorem mem_without {rows : List α} {dropped : List Nat} {row : α} :
    row ∈ without rows dropped ↔ ∃ i, rows[i]? = some row ∧ i ∉ dropped := by
  rw [without, mem_withoutFrom]
  simp

theorem mem_of_mem_without {rows : List α} {dropped : List Nat} {row : α}
    (h : row ∈ without rows dropped) : row ∈ rows := by
  obtain ⟨i, hi, _⟩ := mem_without.1 h
  exact List.mem_of_getElem? hi

/-- A table without the rows at the given positions. -/
def Table.without (t : Table α) (dropped : List Nat) : Table α :=
  ⟨t.width, Numpy.without t.rows dropped, fun row hrow => t.length_eq row (mem_of_mem_without hrow)⟩

/-- A table with the rows of another one at its end. -/
def Table.append (t u : Table α) (h : u.width = t.width) : Table α :=
  ⟨t.width, t.rows ++ u.rows, fun row hrow => (List.mem_append.1 hrow).elim (t.length_eq row)
    fun hrow => (u.length_eq row hrow).trans h⟩

/-- A table without rows. -/
def Table.empty (width : Nat) : Table α := ⟨width, [], fun _ hrow => absurd hrow List.not_mem_nil⟩

/-! ### Converting elements -/

/-- Converting the elements keeps the lengths of the rows. -/
theorem length_of_mapM {f : α → Option β} {rows : List (List α)} {rows' : List (List β)} {width : Nat}
    (h : rows.mapM (fun row => row.mapM f) = some rows') (hrows : ∀ row ∈ rows, row.length = width) :
    ∀ row ∈ rows', row.length = width := by
  intro row hrow
  obtain ⟨i, hi, rfl⟩ := List.getElem_of_mem hrow
  have hall := mapM_eq_some_iff.1 h
  have hlength := (mapM_eq_some_iff.1 (hall.get (hall.length_eq ▸ hi) hi)).length_eq
  rw [List.get_eq_getElem, List.get_eq_getElem] at hlength
  rw [← hlength, hrows _ (List.getElem_mem _)]

/-- The elements converted one by one. -/
def Table.convert (f : α → Option β) (t : Table α) : Option (Table β) :=
  match h : t.rows.mapM fun row => row.mapM f with
  | none => none
  | some rows => some ⟨t.width, rows, length_of_mapM h t.length_eq⟩

/-! ### Selecting rows -/

theorem mem_positions {mask : List Bool} {i : Nat} : i ∈ positions mask ↔ mask[i]? = some true := by
  rw [positions, List.mem_map]
  constructor
  · rintro ⟨⟨b, j⟩, hmem, rfl⟩
    obtain ⟨hmem, rfl⟩ := List.mem_filter.1 hmem
    exact List.mk_mem_zipIdx_iff_getElem?.1 hmem
  · intro h
    exact ⟨⟨true, i⟩, List.mem_filter.2 ⟨List.mk_mem_zipIdx_iff_getElem?.2 h, rfl⟩, rfl⟩

/-- Leaving out the positions of a mask is filtering. -/
theorem without_positions (f : α → β) (p : α → Bool) (l : List α) :
    without (l.map f) (positions (l.map p)) = (l.filter fun a => !p a).map f := by
  have hoffset : ∀ (dropped : List Nat) (l : List α) (n : Nat),
      (∀ i, n + i ∈ dropped ↔ (l.map p)[i]? = some true) →
        withoutFrom dropped n (l.map f) = (l.filter fun a => !p a).map f := by
    intro dropped l
    induction l with
    | nil => intro n _; rfl
    | cons a l ih =>
        intro n h
        have hfirst : n ∈ dropped ↔ p a = true := by simpa using h 0
        rw [List.map_cons, withoutFrom, ih (n + 1) fun i => by
          rw [Nat.add_assoc, Nat.add_comm 1 i, h (i + 1)]
          rfl]
        cases hp : p a <;> simp [hfirst, hp]
  refine hoffset _ l 0 fun i => ?_
  rw [Nat.zero_add, mem_positions]

theorem mapM_without {f : α → Option β} {l : List α} {l' : List β} (dropped : List Nat)
    (h : l.mapM f = some l') : (without l dropped).mapM f = some (without l' dropped) := by
  rw [mapM_eq_some_iff] at h ⊢
  have hoffset : ∀ n, List.Forall₂ (fun a b => f a = some b) (withoutFrom dropped n l)
      (withoutFrom dropped n l') := by
    induction h with
    | nil => exact fun _ => .nil
    | cons hab _ ih =>
        intro n
        rw [withoutFrom, withoutFrom]
        split
        · exact ih (n + 1)
        · exact .cons hab (ih (n + 1))
  exact hoffset 0

theorem zip_without (l : List α) (l' : List β) (dropped : List Nat) :
    (without l dropped).zip (without l' dropped) = without (l.zip l') dropped := by
  have hoffset : ∀ n, (withoutFrom dropped n l).zip (withoutFrom dropped n l') =
      withoutFrom dropped n (l.zip l') := by
    induction l generalizing l' with
    | nil => intro n; simp [withoutFrom]
    | cons a l ih =>
        intro n
        cases l' with
        | nil => simp [withoutFrom]
        | cons b l' =>
            rw [List.zip_cons_cons, withoutFrom, withoutFrom, withoutFrom]
            split
            · exact ih l' (n + 1)
            · rw [List.zip_cons_cons, ih l' (n + 1)]
  exact hoffset 0

/-- How much is left depends on the length alone. -/
theorem length_without {l : List α} (l' : List β) {dropped : List Nat}
    (h : l.length = l'.length) : (without l dropped).length = (without l' dropped).length := by
  have hoffset : ∀ n, (withoutFrom dropped n l).length = (withoutFrom dropped n l').length := by
    induction l generalizing l' with
    | nil => rw [List.length_eq_zero_iff.1 h.symm]; exact fun _ => rfl
    | cons a l ih =>
        intro n
        obtain ⟨b, l', rfl⟩ := List.exists_cons_of_length_eq_add_one h.symm
        rw [withoutFrom, withoutFrom]
        split
        · exact ih l' (Nat.succ.inj h) (n + 1)
        · rw [List.length_cons, List.length_cons, ih l' (Nat.succ.inj h) (n + 1)]
  exact hoffset 0

/-- What stands behind the last position is left as it is. -/
theorem withoutFrom_past {rows : List α} {dropped : List Nat} {n : Nat}
    (h : ∀ i ∈ dropped, i < n) : withoutFrom dropped n rows = rows := by
  induction rows generalizing n with
  | nil => rfl
  | cons row rows ih =>
      rw [withoutFrom, if_neg fun hmem => Nat.lt_irrefl n (h n hmem),
        ih fun i hi => Nat.lt_succ_of_lt (h i hi)]

theorem without_append {l : List α} (rest : List α) {dropped : List Nat}
    (h : ∀ i ∈ dropped, i < l.length) :
    without (l ++ rest) dropped = without l dropped ++ rest := by
  have hoffset : ∀ n, (∀ i ∈ dropped, i < n + l.length) →
      withoutFrom dropped n (l ++ rest) = withoutFrom dropped n l ++ rest := by
    clear h
    induction l with
    | nil => exact fun n hn => withoutFrom_past hn
    | cons a l ih =>
        intro n hn
        have hrest := ih (n + 1) fun i hi => by
          have hlt := hn i hi
          rw [List.length_cons] at hlt
          omega
        rw [List.cons_append, withoutFrom, withoutFrom, hrest]
        split <;> rfl
  exact hoffset 0 (by simpa using h)

theorem length_without_take {l : List α} {dropped : List Nat} {m : Nat} (hm : m ≤ l.length)
    (h : ∀ i ∈ dropped, i < m) :
    (without l dropped).length = (without (l.take m) dropped).length + (l.length - m) := by
  have htake : (l.take m).length = m := List.length_take_of_le hm
  conv_lhs => rw [← List.take_append_drop m l]
  rw [without_append _ (htake.symm ▸ h), List.length_append, List.length_drop]

/-- Leaving out positions that both lists have takes as much from the one as from the other. -/
theorem length_without_add {l : List α} {l' : List β} {dropped : List Nat}
    (h : ∀ i ∈ dropped, i < l.length) (h' : ∀ i ∈ dropped, i < l'.length) :
    (without l dropped).length + l'.length = (without l' dropped).length + l.length := by
  have hle : min l.length l'.length ≤ l.length := Nat.min_le_left _ _
  have hle' : min l.length l'.length ≤ l'.length := Nat.min_le_right _ _
  have hboth : ∀ i ∈ dropped, i < min l.length l'.length := fun i hi =>
    Nat.lt_min.2 ⟨h i hi, h' i hi⟩
  have hsame : (without (l.take (min l.length l'.length)) dropped).length =
      (without (l'.take (min l.length l'.length)) dropped).length :=
    length_without _ ((List.length_take_of_le hle).trans (List.length_take_of_le hle').symm)
  rw [length_without_take hle hboth, length_without_take hle' hboth]
  omega

/-- The positions of a mask are positions of every list that is at least as long. -/
theorem lt_of_mem_positions {mask : List Bool} {i : Nat} (h : i ∈ positions mask) : i < mask.length :=
  (List.getElem?_eq_some_iff.1 (mem_positions.1 h)).1

/-! ### Converting a table -/

section
variable {f : α → Option β} {t : Table α}

theorem convert_eq_some_iff {t' : Table β} : t.convert f = some t' ↔
    t'.width = t.width ∧ t.rows.mapM (fun row => row.mapM f) = some t'.rows := by
  rw [Table.convert]
  split
  · rename_i h
    simp [h]
  · rename_i rows h
    rw [Option.some.injEq, Table.ext_iff]
    simp only [h, Option.some.injEq]
    exact and_congr eq_comm Iff.rfl

theorem exists_convert {rows : List (List β)}
    (h : t.rows.mapM (fun row => row.mapM f) = some rows) :
    ∃ t', t.convert f = some t' ∧ t'.width = t.width ∧ t'.rows = rows := by
  cases hconvert : t.convert f with
  | none =>
      rw [Table.convert] at hconvert
      split at hconvert
      · rename_i hnone
        simp [hnone] at h
      · simp at hconvert
  | some t' =>
      obtain ⟨hwidth, hrows⟩ := convert_eq_some_iff.1 hconvert
      exact ⟨t', rfl, hwidth, Option.some.inj (hrows.symm.trans h)⟩

end

end Numpy
