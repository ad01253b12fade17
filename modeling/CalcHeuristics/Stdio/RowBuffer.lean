import CalcHeuristics.Stdio.Line

/-!
# Rows that divide the buffer

When the buffer size is a multiple of the width of the rows, a stream never stops inside a row, and a
file of rows behaves like a file whose items are the rows, written through buffers that hold so many rows.
Where it does stop inside a row, two files of rows of one width can still be compared row by row.
-/

namespace Stdio

variable {α : Type*} {newline : α → Bool} {width q : Nat} {rows : List (List α)}
  {streams : List (List (List α))}

theorem flushed_mul (hwidth : 0 < width) (q n : Nat) :
    flushed (width * q) (width * n) = width * flushed q n := by
  have hlast : (width * n - 1) / width = n - 1 := by
    cases n with
    | zero => simp
    | succ n =>
        apply Nat.div_eq_of_lt_le <;> rw [Nat.add_sub_cancel, Nat.mul_succ, Nat.mul_comm]
        · omega
        · rw [Nat.succ_mul]
          omega
  rw [flushed, flushed, ← Nat.div_div_eq_div_mul, hlast, Nat.mul_assoc]

theorem early_of_length_le {C : Nat} {data : List α} (h : data.length ≤ C) : early C data = [] := by
  have hzero : flushed C data.length = 0 := by
    obtain hdata | hdata := Nat.eq_zero_or_pos data.length
    · simp [flushed, hdata]
    · rw [flushed, Nat.div_eq_of_lt (by omega), Nat.mul_zero]
  rw [early, hzero, List.take_zero]

/-- Where whole rows are flushed, they are flushed as the items of a smaller buffer. -/
theorem flushed_rows (hrows : ∀ row ∈ rows, IsRow newline width row) (q : Nat) :
    flushed (width * q) rows.flatten.length = width * flushed q rows.length := by
  rw [length_rows hrows]
  obtain hnil | hpos := Nat.eq_zero_or_pos rows.length
  · simp [hnil, flushed]
  · obtain ⟨row, hrow⟩ := List.exists_mem_of_length_pos hpos
    obtain ⟨body, last, heq, _⟩ := (hrows row hrow).ends
    have hwidth : 0 < width := by
      rw [← (hrows row hrow).length_eq, heq]
      simp
    exact flushed_mul hwidth q rows.length

theorem early_rows (hrows : ∀ row ∈ rows, IsRow newline width row) (q : Nat) :
    early (width * q) rows.flatten = (early q rows).flatten := by
  rw [early, flushed_rows hrows, take_rows hrows, early]

theorem pending_rows (hrows : ∀ row ∈ rows, IsRow newline width row) (q : Nat) :
    pending (width * q) rows.flatten = (pending q rows).flatten := by
  rw [pending, flushed_rows hrows, drop_rows hrows, pending]

/-- The file is that of the rows. -/
theorem rowFile_eq_flatten (h : RowsOf newline width streams) (q : Nat) :
    rowFile (width * q) streams = (finalContents q streams).flatten := by
  induction streams with
  | nil => rfl
  | cons rows streams ih =>
      rw [rowFile_cons, early_rows h.head, pending_rows h.head, ih h.tail, finalContents,
        List.flatten_append, List.flatten_append]

theorem mem_finalContents {C : Nat} {datas : List (List α)} {a : α} :
    a ∈ finalContents C datas ↔ ∃ data ∈ datas, a ∈ data := by
  rw [(finalContents_perm C datas).mem_iff, List.mem_flatten]

/-! ### Files cut off inside a row -/

theorem take_flatten_eq_take_iff {width m : Nat} {rows rows' : List (List α)}
    (h : ∀ row ∈ rows, row.length = width) (h' : ∀ row ∈ rows', row.length = width)
    (hm : m ≤ width * rows.length) (hm' : m ≤ width * rows'.length) :
    rows.flatten.take m = rows'.flatten.take m ↔
      ∀ (i : Nat) (row row' : List α), rows[i]? = some row → rows'[i]? = some row' →
        row.take (m - width * i) = row'.take (m - width * i) := by
  induction rows generalizing rows' m with
  | nil =>
      obtain rfl : m = 0 := by simpa using hm
      simp
  | cons row rows ih =>
      cases rows' with
      | nil =>
          obtain rfl : m = 0 := by simpa using hm'
          simp
      | cons row' rows' =>
          obtain ⟨hrow, hrows⟩ := List.forall_mem_cons.1 h
          obtain ⟨hrow', hrows'⟩ := List.forall_mem_cons.1 h'
          rw [List.length_cons, Nat.mul_succ] at hm hm'
          have hrest := ih (m := m - width) hrows hrows' (by omega) (by omega)
          have hhead : (row.take m).length = (row'.take m).length := by
            rw [List.length_take, List.length_take, hrow, hrow']
          have hsplit : (row :: rows).flatten.take m = (row' :: rows').flatten.take m ↔
              row.take m = row'.take m ∧
                rows.flatten.take (m - width) = rows'.flatten.take (m - width) := by
            rw [List.flatten_cons, List.flatten_cons, List.take_append, List.take_append, hrow, hrow']
            exact ⟨fun heq => List.append_inj heq hhead, fun hboth => by rw [hboth.1, hboth.2]⟩
          rw [hsplit, hrest]
          refine ⟨fun hboth i r r' hr hr' => ?_, fun hall => ⟨?_, fun i r r' hr hr' => ?_⟩⟩
          · cases i with
            | zero =>
                obtain rfl : row = r := by simpa using hr
                obtain rfl : row' = r' := by simpa using hr'
                exact hboth.1
            | succ i =>
                rw [Nat.mul_succ, Nat.add_comm, ← Nat.sub_sub]
                exact hboth.2 i r r' (by simpa using hr) (by simpa using hr')
          · exact hall 0 row row' rfl rfl
          · have hnext := hall (i + 1) r r' (by simpa using hr) (by simpa using hr')
            rwa [Nat.mul_succ, Nat.add_comm, ← Nat.sub_sub] at hnext
/-- Two texts of rows of one width, each cut off somewhere, are the same exactly when they are cut off at
the same place and agree row by row up to there. -/
theorem take_flatten_eq_iff {width m m' : Nat} {rows rows' : List (List α)}
    (h : ∀ row ∈ rows, row.length = width) (h' : ∀ row ∈ rows', row.length = width)
    (hm : m ≤ width * rows.length) (hm' : m' ≤ width * rows'.length) :
    rows.flatten.take m = rows'.flatten.take m' ↔
      m = m' ∧ ∀ (i : Nat) (row row' : List α), rows[i]? = some row → rows'[i]? = some row' →
        row.take (m - width * i) = row'.take (m - width * i) := by
  refine ⟨fun heq => ?_, fun hrows => ?_⟩
  · have hsame : m = m' := by
      have hlength := congrArg List.length heq
      rwa [List.length_take, List.length_take, length_flatten_of_width h,
        length_flatten_of_width h', Nat.min_eq_left hm, Nat.min_eq_left hm'] at hlength
    obtain rfl := hsame
    exact ⟨rfl, (take_flatten_eq_take_iff h h' hm hm').1 heq⟩
  · obtain ⟨rfl, hrows⟩ := hrows
    exact (take_flatten_eq_take_iff h h' hm hm').2 hrows

end Stdio
