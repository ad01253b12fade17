import CalcHeuristics.Numpy.Table

/-!
# The array package

numpy is not part of the repository. `Package` lists the functions a client calls, over types of arrays that
it cannot look into, and `Documented` says what their documentation promises for numpy 1.19 to 1.23, the
versions whose `np.delete` refuses positions out of range and that still have `np.float`. Arrays are seen
through `texts`, `numbers` and `length` only.
-/

namespace Numpy

inductive Error where
  /-- An axis the array does not have. -/
  | axis
  /-- A position outside the array. -/
  | index
  /-- Elements that are no numbers, or shapes that do not fit. -/
  | value
  deriving DecidableEq

/-- The functions, over arrays `σ` with elements in `α` and arrays `δ` of numbers in `β`, of one or two
dimensions. -/
structure Package (α β σ δ : Type) where
  /-- `np.array(rows)` -/
  array : List (List α) → σ
  /-- `np.all(a == row, axis=1)` -/
  allEqual : σ → List α → Except Error (List Bool)
  /-- `np.where(mask)` -/
  nonzero : List Bool → List Nat
  /-- `np.delete(a, dropped, axis=0)` -/
  delete : σ → List Nat → Except Error σ
  /-- `a.astype(np.float)` -/
  astype : σ → Except Error δ
  /-- `np.empty((0, width))` -/
  empty : Nat → δ
  /-- `np.concatenate((a, b), axis=0)` -/
  concatenate : δ → δ → Except Error δ
  /-- `a[:, 0]` -/
  firstColumn : δ → Except Error (List β)
  /-- `len(a)` -/
  length : σ → Nat
  /-- Width and rows of an array with two dimensions. -/
  texts : σ → Option (Table α)
  /-- Width and rows of an array with two dimensions. -/
  numbers : δ → Option (Table β)

namespace Package

variable {α β σ δ : Type}

/-- What the documentation says of arrays whose elements are `clean`, which are those that an array gives
back as they were. -/
structure Documented [DecidableEq α] (np : Package α β σ δ) (float : α → Option β) (clean : α → Prop) :
    Prop where
  /-- Rows make two dimensions when there are some and all have one length. -/
  texts_array {rows : List (List α)} {t : Table α} (hclean : ∀ row ∈ rows, ∀ a ∈ row, clean a) :
    np.texts (np.array rows) = some t ↔ rows ≠ [] ∧ t.rows = rows
  length_array (rows : List (List α)) : np.length (np.array rows) = rows.length
  length_texts {a : σ} {t : Table α} : np.texts a = some t → np.length a = t.rows.length
  /-- A row as wide as the array is compared with each of its rows. -/
  allEqual_texts {a : σ} {t : Table α} {row : List α} (hclean : ∀ a ∈ row, clean a) :
    np.texts a = some t → row.length = t.width → 0 < t.width →
      np.allEqual a row = .ok (t.rows.map fun r => r = row)
  length_allEqual {a : σ} {row : List α} {mask : List Bool} :
    np.allEqual a row = .ok mask → mask.length = np.length a
  nonzero_eq (mask : List Bool) : np.nonzero mask = positions mask
  /-- The rows are dropped by their positions along the first axis. -/
  texts_delete {a a' : σ} {dropped : List Nat} :
    np.delete a dropped = .ok a' → np.texts a' = (np.texts a).map (Table.without · dropped)
  delete_isOk_iff {a : σ} {dropped : List Nat} :
    (∃ a', np.delete a dropped = .ok a') ↔ ∀ i ∈ dropped, i < np.length a
  /-- Element by element; an array of lists has no numbers. -/
  numbers_astype {a : σ} {b : δ} :
    np.astype a = .ok b → np.numbers b = (np.texts a).bind (Table.convert float)
  astype_isOk_iff {a : σ} {t : Table α} :
    np.texts a = some t → ((∃ b, np.astype a = .ok b) ↔ ∃ u, t.convert float = some u)
  numbers_empty (width : Nat) : np.numbers (np.empty width) = some (.empty width)
  /-- Arrays with two dimensions are put together when they are as wide as each other. -/
  concatenate_isOk_iff {a b : δ} {t : Table β} : np.numbers a = some t →
    ((∃ c, np.concatenate a b = .ok c) ↔ ∃ u, np.numbers b = some u ∧ u.width = t.width)
  numbers_concatenate {a b c : δ} {t u : Table β} (h : u.width = t.width) : np.numbers a = some t →
    np.numbers b = some u → np.concatenate a b = .ok c → np.numbers c = some (t.append u h)
  firstColumn_numbers {a : δ} {t : Table β} : np.numbers a = some t → 0 < t.width →
    np.firstColumn a = .ok (t.rows.filterMap List.head?)
  /-- Only positions out of range are index errors. -/
  allEqual_ne_index (a : σ) (row : List α) : np.allEqual a row ≠ .error .index
  astype_ne_index (a : σ) : np.astype a ≠ .error .index
  concatenate_ne_index (a b : δ) : np.concatenate a b ≠ .error .index

/-! ### What an array of numbers holds -/

/-- Two dimensions of this width, and these rows. -/
def HasRows (np : Package α β σ δ) (a : δ) (width : Nat) (rows : List (List β)) : Prop :=
  ∃ t, np.numbers a = some t ∧ t.width = width ∧ t.rows = rows

section
variable {np : Package α β σ δ} {a b : δ} {width : Nat} {rows : List (List β)}

theorem HasRows.unique {rows' : List (List β)} (h : np.HasRows a width rows)
    (h' : np.HasRows a width rows') : rows' = rows := by
  obtain ⟨t, ht, _, rfl⟩ := h
  obtain ⟨t', ht', _, rfl⟩ := h'
  obtain rfl := Option.some.inj (ht.symm.trans ht')
  rfl

variable [DecidableEq α] {float : α → Option β} {clean : α → Prop} (hnp : np.Documented float clean)
include hnp

theorem Documented.hasRows_empty (width : Nat) : np.HasRows (np.empty width) width [] :=
  ⟨_, hnp.numbers_empty width, rfl, rfl⟩

theorem Documented.firstColumn_of_hasRows (h : np.HasRows a width rows) (hwidth : 0 < width) :
    np.firstColumn a = .ok (rows.filterMap List.head?) := by
  obtain ⟨t, ht, rfl, rfl⟩ := h
  exact hnp.firstColumn_numbers ht hwidth

/-! ### Converting and putting at the end -/

/-- What is put at the end of an array has its width and consists of numbers. -/
theorem Documented.of_astype_concatenate {s : σ} (h : np.HasRows a width rows)
    (hrun : (np.astype s >>= np.concatenate a) = .ok b) :
    ∃ t x, np.texts s = some t ∧ t.width = width ∧ t.rows.mapM (fun row => row.mapM float) = some x ∧
      np.HasRows b width (rows ++ x) := by
  obtain ⟨t, ht, rfl, rfl⟩ := h
  cases hastype : np.astype s with
  | error e => simp [hastype, bind, Except.bind] at hrun
  | ok c =>
      rw [hastype] at hrun
      obtain ⟨u, hu, hwidth⟩ := (hnp.concatenate_isOk_iff ht).1 ⟨b, hrun⟩
      have hconvert := (hnp.numbers_astype hastype).symm.trans hu
      obtain ⟨s', hs, hs'⟩ := Option.bind_eq_some_iff.1 hconvert
      obtain ⟨hwidth', hrows⟩ := convert_eq_some_iff.1 hs'
      exact ⟨s', u.rows, hs, hwidth'.symm.trans hwidth, hrows,
        t.append u hwidth, hnp.numbers_concatenate hwidth ht hu hrun, rfl, rfl⟩

theorem Documented.exists_astype_concatenate {s : σ} {t : Table α} {x : List (List β)}
    (h : np.HasRows a width rows) (ht : np.texts s = some t) (hwidth : t.width = width)
    (hx : t.rows.mapM (fun row => row.mapM float) = some x) :
    ∃ c b, np.astype s = .ok c ∧ np.concatenate a c = .ok b ∧ np.HasRows b width (rows ++ x) := by
  obtain ⟨u, hu, huwidth, rfl⟩ := exists_convert hx
  obtain ⟨c, hc⟩ := (hnp.astype_isOk_iff ht).2 ⟨u, hu⟩
  have hnumbers : np.numbers c = some u := by
    rw [hnp.numbers_astype hc, ht]
    exact hu
  obtain ⟨t', ht', rfl, rfl⟩ := h
  obtain ⟨b, hb⟩ := (hnp.concatenate_isOk_iff ht').2 ⟨u, hnumbers, huwidth.trans hwidth⟩
  exact ⟨c, b, hc, hb, _, hnp.numbers_concatenate (huwidth.trans hwidth) ht' hnumbers hb, rfl, rfl⟩

/-- Some rows are deleted before. -/
theorem Documented.of_delete {s s' : σ} {dropped : List Nat} {t : Table α}
    (hdelete : np.delete s dropped = .ok s') (ht : np.texts s' = some t) :
    ∃ t', np.texts s = some t' ∧ t.width = t'.width ∧ t.rows = without t'.rows dropped ∧
      ∀ i ∈ dropped, i < t'.rows.length := by
  rw [hnp.texts_delete hdelete] at ht
  obtain ⟨t', ht', rfl⟩ := Option.map_eq_some_iff.1 ht
  exact ⟨t', ht', rfl, rfl, hnp.length_texts ht' ▸ hnp.delete_isOk_iff.1 ⟨s', hdelete⟩⟩

theorem Documented.exists_delete {s : σ} {dropped : List Nat} {t : Table α} (ht : np.texts s = some t)
    (hin : ∀ i ∈ dropped, i < t.rows.length) :
    ∃ s', np.delete s dropped = .ok s' ∧ np.texts s' = some (t.without dropped) := by
  obtain ⟨s', hs'⟩ := hnp.delete_isOk_iff.2 (hnp.length_texts ht ▸ hin)
  exact ⟨s', hs', by rw [hnp.texts_delete hs', ht, Option.map_some]⟩

theorem Documented.delete_ne_error {s : σ} {dropped : List Nat}
    (hin : ∀ i ∈ dropped, i < np.length s) (e : Error) : np.delete s dropped ≠ .error e := by
  obtain ⟨s', hs'⟩ := hnp.delete_isOk_iff.2 hin
  simp [hs']

end

end Package

end Numpy
