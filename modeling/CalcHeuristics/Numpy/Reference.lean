import CalcHeuristics.Numpy.Package

/-!
# A package of lists

Arrays as the lists they were made of, with the functions of the package on them. `reference_documented` says
that they keep what the documentation promises, so the promises can be kept together.
-/

namespace Numpy

/-- An array with two dimensions, or one with one dimension, whose elements are the rows themselves. -/
inductive NdArray (α : Type) where
  | table (t : Table α)
  | objects (rows : List (List α))

namespace NdArray

variable {α β : Type}

def texts : NdArray α → Option (Table α)
  | table t => some t
  | objects _ => none

def length : NdArray α → Nat
  | table t => t.rows.length
  | objects rows => rows.length

def array (rows : List (List α)) : NdArray α :=
  match rows with
  | [] => objects []
  | row :: rest =>
    if h : ∀ r ∈ row :: rest, r.length = row.length then table ⟨row.length, row :: rest, h⟩
    else objects (row :: rest)

def allEqual [DecidableEq α] (a : NdArray α) (row : List α) : Except Error (List Bool) :=
  match a with
  | table t =>
    if row.length = t.width then .ok (t.rows.map fun r => r = row) else .error .axis
  | objects _ => .error .axis

def without (a : NdArray α) (dropped : List Nat) : NdArray α :=
  match a with
  | table t => table (t.without dropped)
  | objects rows => objects (Numpy.without rows dropped)

def delete (a : NdArray α) (dropped : List Nat) : Except Error (NdArray α) :=
  if ∀ i ∈ dropped, i < a.length then .ok (a.without dropped) else .error .index

def astype (float : α → Option β) (a : NdArray α) : Except Error (NdArray β) :=
  match a with
  | table t => (t.convert float).elim (.error .value) (.ok <| table ·)
  | objects [] => .ok (objects [])
  | objects (_ :: _) => .error .value

def concatenate (a b : NdArray α) : Except Error (NdArray α) :=
  match a, b with
  | table t, table u =>
    if h : u.width = t.width then .ok (table (t.append u h)) else .error .value
  | _, _ => .error .value

def firstColumn (a : NdArray α) : Except Error (List α) :=
  match a with
  | table t => if 0 < t.width then .ok (t.rows.filterMap List.head?) else .error .index
  | objects _ => .error .index

theorem texts_eq_some_iff {a : NdArray α} {t : Table α} : a.texts = some t ↔ a = .table t := by
  cases a <;> simp [texts]

theorem texts_array {rows : List (List α)} {t : Table α} :
    (array rows).texts = some t ↔ rows ≠ [] ∧ t.rows = rows := by
  cases rows with
  | nil => simp [array, texts]
  | cons row rest =>
      rw [array]
      split
      · rename_i h
        simp only [texts, Option.some.injEq, ne_eq, reduceCtorEq, not_false_eq_true, true_and]
        refine ⟨fun heq => heq ▸ rfl, fun hrows => Table.ext ?_ hrows.symm⟩
        exact t.length_eq row (hrows ▸ List.mem_cons_self)
      · rename_i h
        simp only [texts, reduceCtorEq, false_iff, not_and]
        intro _ hrows
        have hlength : ∀ r ∈ row :: rest, r.length = t.width := hrows ▸ t.length_eq
        exact h fun r hr => (hlength r hr).trans (hlength row List.mem_cons_self).symm

theorem length_array (rows : List (List α)) : (array rows).length = rows.length := by
  cases rows with
  | nil => rfl
  | cons row rest =>
      rw [array]
      split <;> rfl

end NdArray

/-- The package of lists. -/
def reference {α β : Type} [DecidableEq α] (float : α → Option β) :
    Package α β (NdArray α) (NdArray β) where
  array := NdArray.array
  allEqual := NdArray.allEqual
  nonzero := positions
  delete := NdArray.delete
  astype := NdArray.astype float
  empty width := .table (.empty width)
  concatenate := NdArray.concatenate
  firstColumn := NdArray.firstColumn
  length := NdArray.length
  texts := NdArray.texts
  numbers := NdArray.texts

theorem reference_documented {α β : Type} [DecidableEq α] (float : α → Option β) (clean : α → Prop) :
    (reference float).Documented float clean where
  texts_array _ := NdArray.texts_array
  length_array := NdArray.length_array
  length_texts h := by
    obtain rfl := NdArray.texts_eq_some_iff.1 h
    rfl
  allEqual_texts _ h hwidth _ := by
    obtain rfl := NdArray.texts_eq_some_iff.1 h
    exact if_pos hwidth
  length_allEqual {a row mask} h := by
    cases a with
    | table t =>
        simp only [reference, NdArray.allEqual] at h
        split_ifs at h
        rw [← Except.ok.inj h, List.length_map]
        rfl
    | objects rows => exact absurd h (by simp [reference, NdArray.allEqual])
  nonzero_eq _ := rfl
  texts_delete {a a' dropped} h := by
    simp only [reference, NdArray.delete] at h
    split_ifs at h
    rw [← Except.ok.inj h]
    cases a <;> rfl
  delete_isOk_iff {a dropped} := by
    simp only [reference, NdArray.delete]
    split_ifs with h
    · exact iff_of_true ⟨_, rfl⟩ h
    · simp [h]
  numbers_astype {a b} h := by
    cases a with
    | table t =>
        simp only [reference, NdArray.astype] at h
        cases hconvert : t.convert float with
        | none => simp [hconvert] at h
        | some u =>
            rw [hconvert] at h
            rw [← Except.ok.inj h]
            exact hconvert.symm
    | objects rows =>
        cases rows with
        | nil => rw [← Except.ok.inj h]; rfl
        | cons row rows => exact absurd h (by simp [reference, NdArray.astype])
  astype_isOk_iff {a t} h := by
    obtain rfl := NdArray.texts_eq_some_iff.1 h
    simp only [reference, NdArray.astype]
    cases t.convert float <;> simp
  numbers_empty _ := rfl
  concatenate_isOk_iff {a b t} h := by
    obtain rfl := NdArray.texts_eq_some_iff.1 h
    cases b with
    | objects rows => simp [reference, NdArray.concatenate, NdArray.texts]
    | table u =>
        simp only [reference, NdArray.concatenate, NdArray.texts, Option.some.injEq, exists_eq_left']
        split_ifs with hwidth <;> simp [hwidth]
  numbers_concatenate {a b c t u} h ha hb hc := by
    obtain rfl := NdArray.texts_eq_some_iff.1 ha
    obtain rfl := NdArray.texts_eq_some_iff.1 hb
    simp only [reference, NdArray.concatenate, h, dite_true] at hc
    rw [← Except.ok.inj hc]
    rfl
  firstColumn_numbers h hwidth := by
    obtain rfl := NdArray.texts_eq_some_iff.1 h
    exact if_pos hwidth
  allEqual_ne_index a row := by
    cases a with
    | table t =>
        simp only [reference, NdArray.allEqual]
        split_ifs <;> simp
    | objects rows => simp [reference, NdArray.allEqual]
  astype_ne_index a := by
    cases a with
    | table t =>
        simp only [reference, NdArray.astype]
        cases t.convert float <;> simp
    | objects rows => cases rows <;> simp [reference, NdArray.astype]
  concatenate_ne_index a b := by
    cases a <;> cases b <;> simp only [reference, NdArray.concatenate]
    · split_ifs <;> simp
    all_goals simp

end Numpy
