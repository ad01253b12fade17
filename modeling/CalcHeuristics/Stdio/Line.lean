import CalcHeuristics.Stdio.Stream
import Mathlib.Data.List.Forall2
import Mathlib.Algebra.BigOperators.Group.List.Basic

/-!
# Lines of a file written through several streams

Each stream is given whole rows of one width. The file ends up with the early blocks of all streams in
the order of opening, then what the streams still held, in the reverse order. A stream whose last
block ends inside a row has that row cut in two, with the later streams' data in between, unless no
later stream wrote anything: `lines_rowFile_perm_iff` turns this into arithmetic on the numbers of
rows.
-/

namespace Stdio

variable {α β : Type*} (newline : α → Bool)

/-- The lines of a file, each with its newline; the last one may lack it. -/
def lines : List α → List (List α)
  | [] => []
  | a :: rest =>
    if newline a then [a] :: lines rest
    else match lines rest with
      | [] => [[a]]
      | l :: ls => (a :: l) :: ls

/-- A row of the given width: the newline is its last item and nothing else. -/
structure IsRow (width : Nat) (row : List α) : Prop where
  length_eq : row.length = width
  ends : ∃ body last, row = body ++ [last] ∧ newline last = true ∧ ∀ a ∈ body, newline a = false

variable {newline}

theorem IsRow.map {newline' : β → Bool} {width : Nat} {row : List α} {g : α → β}
    (hrow : IsRow newline width row) (hg : ∀ a, newline' (g a) = newline a) :
    IsRow newline' width (row.map g) := by
  obtain ⟨body, last, rfl, hlast, hbody⟩ := hrow.ends
  refine ⟨by rw [List.length_map, hrow.length_eq], body.map g, g last, by simp, ?_, ?_⟩
  · rw [hg, hlast]
  · intro b hb
    obtain ⟨a, ha, rfl⟩ := List.mem_map.1 hb
    rw [hg, hbody a ha]

@[simp] theorem lines_nil : lines newline ([] : List α) = [] := rfl

theorem lines_eq_nil {data : List α} : lines newline data = [] ↔ data = [] := by
  cases data with
  | nil => simp
  | cons a rest =>
      simp only [lines, reduceCtorEq, iff_false]
      split
      · simp
      · split <;> simp

theorem lines_flatten (data : List α) : (lines newline data).flatten = data := by
  induction data with
  | nil => rfl
  | cons a rest ih =>
      rw [lines]
      split
      · rw [List.flatten_cons, ih]
        rfl
      · split <;> rename_i h <;> rw [h] at ih
        · rw [← ih]
          rfl
        · rw [← ih]
          rfl

theorem lines_map {newline' : β → Bool} {g : α → β} (hg : ∀ a, newline' (g a) = newline a)
    (data : List α) : lines newline' (data.map g) = (lines newline data).map (List.map g) := by
  induction data with
  | nil => rfl
  | cons a rest ih =>
      rw [List.map_cons, lines, lines, hg, ih]
      split
      · rfl
      · cases lines newline rest <;> rfl

theorem ne_nil_of_mem_lines {data line : List α} (h : line ∈ lines newline data) : line ≠ [] := by
  induction data generalizing line with
  | nil => simp at h
  | cons a rest ih =>
      rw [lines] at h
      split at h
      · obtain rfl | h := List.mem_cons.1 h
        · simp
        · exact ih h
      · split at h <;> rename_i hl
        · rw [List.mem_singleton.1 h]
          simp
        · obtain rfl | h := List.mem_cons.1 h
          · simp
          · exact ih (hl ▸ List.mem_cons_of_mem _ h)

/-- A line is a stretch without newlines, with its newline unless it is the last. -/
theorem exists_body_of_mem_lines {data line : List α} (h : line ∈ lines newline data) :
    ∃ body, (∀ a ∈ body, newline a = false) ∧
      (line = body ∧ body ≠ [] ∨ ∃ last, newline last = true ∧ line = body ++ [last]) := by
  induction data generalizing line with
  | nil => simp at h
  | cons a rest ih =>
      rw [lines] at h
      split at h
      · rename_i ha
        obtain rfl | h := List.mem_cons.1 h
        · exact ⟨[], by simp, Or.inr ⟨a, ha, rfl⟩⟩
        · exact ih h
      · rename_i ha
        rw [Bool.not_eq_true] at ha
        split at h
        · rw [List.mem_singleton.1 h]
          exact ⟨[a], by simpa using ha, Or.inl ⟨rfl, by simp⟩⟩
        · rename_i l ls hl
          obtain rfl | h := List.mem_cons.1 h
          · obtain ⟨body, hbody, hends⟩ := ih (hl ▸ List.mem_cons_self)
            refine ⟨a :: body, List.forall_mem_cons.2 ⟨ha, hbody⟩, ?_⟩
            obtain ⟨rfl, _⟩ | ⟨last, hlast, rfl⟩ := hends
            · exact Or.inl ⟨rfl, by simp⟩
            · exact Or.inr ⟨last, hlast, rfl⟩
          · exact ih (hl ▸ List.mem_cons_of_mem _ h)

/-- A newline ends a line, whatever follows. -/
theorem lines_append_newline {last : α} (hlast : newline last = true) (data rest : List α) :
    lines newline (data ++ [last] ++ rest) =
      lines newline (data ++ [last]) ++ lines newline rest := by
  induction data with
  | nil => simp [lines, hlast]
  | cons a data ih =>
      rw [List.cons_append, List.cons_append, lines, ih, lines]
      split
      · rfl
      · obtain ⟨l, ls, hl⟩ : ∃ l ls, lines newline (data ++ [last]) = l :: ls := by
          cases h : lines newline (data ++ [last]) with
          | nil => simp [lines_eq_nil] at h
          | cons l ls => exact ⟨l, ls, rfl⟩
        simp [hl]

/-- A stretch without a newline becomes the beginning of the next line. -/
theorem lines_append_of_no_newline {body : List α} (hbody : ∀ a ∈ body, newline a = false) (b : α)
    (rest : List α) :
    ∃ l ls, lines newline (body ++ b :: rest) = (body ++ b :: l) :: ls := by
  induction body with
  | nil =>
      rw [List.nil_append, lines]
      split
      · exact ⟨[], _, rfl⟩
      · split
        · exact ⟨[], _, rfl⟩
        · exact ⟨_, _, rfl⟩
  | cons a body ih =>
      obtain ⟨l, ls, h⟩ := ih fun a' ha' => hbody a' (List.mem_cons_of_mem _ ha')
      refine ⟨l, ls, ?_⟩
      rw [List.cons_append, lines, if_neg (by simp [hbody a List.mem_cons_self]), h]
      rfl

theorem IsRow.lines_append {width : Nat} {row : List α} (hrow : IsRow newline width row)
    (rest : List α) : lines newline (row ++ rest) = row :: lines newline rest := by
  obtain ⟨body, last, rfl, hlast, hbody⟩ := hrow.ends
  rw [lines_append_newline hlast]
  obtain ⟨l, ls, h⟩ := lines_append_of_no_newline hbody last []
  have hflat : (lines newline (body ++ [last])).flatten = body ++ [last] := lines_flatten _
  rw [h] at hflat ⊢
  simp only [List.flatten_cons, List.append_assoc, List.cons_append] at hflat
  have htail : l ++ ls.flatten = [] := by
    simpa using List.append_cancel_left hflat
  obtain ⟨rfl, hls⟩ := List.append_eq_nil_iff.1 htail
  have hls : ls = [] := by
    cases ls with
    | nil => rfl
    | cons l' ls =>
        have hne : l' ≠ [] := ne_nil_of_mem_lines (h ▸ List.mem_cons_of_mem _ List.mem_cons_self)
        exact absurd (List.append_eq_nil_iff.1 (List.flatten_cons ▸ hls)).1 hne
  simp [hls]

theorem length_lines {body : List α} {last : α} (hlast : newline last = true) :
    (lines newline (body ++ [last])).length = (body ++ [last]).countP newline := by
  induction body with
  | nil => simp [lines, hlast]
  | cons a body ih =>
      rw [List.cons_append, lines, List.countP_cons, ← ih]
      split
      · simp
      · split
        · rename_i hnil
          simp [lines_eq_nil] at hnil
        · simp [*]

theorem lines_rows_append {width : Nat} {rows : List (List α)}
    (hrows : ∀ row ∈ rows, IsRow newline width row) (rest : List α) :
    lines newline (rows.flatten ++ rest) = rows ++ lines newline rest := by
  induction rows with
  | nil => rfl
  | cons row rows ih =>
      rw [List.flatten_cons, List.append_assoc, (hrows row List.mem_cons_self).lines_append,
        ih fun r hr => hrows r (List.mem_cons_of_mem _ hr), List.cons_append]

theorem lines_rows {width : Nat} {rows : List (List α)}
    (hrows : ∀ row ∈ rows, IsRow newline width row) : lines newline rows.flatten = rows := by
  simpa using lines_rows_append hrows []

theorem length_rows {width : Nat} {rows : List (List α)}
    (hrows : ∀ row ∈ rows, IsRow newline width row) :
    rows.flatten.length = width * rows.length := by
  induction rows with
  | nil => rfl
  | cons row rows ih =>
      rw [List.flatten_cons, List.length_append, (hrows row List.mem_cons_self).length_eq,
        ih fun r hr => hrows r (List.mem_cons_of_mem _ hr), List.length_cons]
      ring

/-- Cutting rows at a multiple of their width keeps them whole. -/
theorem take_rows {width : Nat} {rows : List (List α)}
    (hrows : ∀ row ∈ rows, IsRow newline width row) (a : Nat) :
    rows.flatten.take (width * a) = (rows.take a).flatten := by
  induction a generalizing rows with
  | zero => simp
  | succ a ih =>
      cases rows with
      | nil => simp
      | cons row rows =>
          have hlen := (hrows row List.mem_cons_self).length_eq
          rw [List.flatten_cons, List.take_succ_cons, List.flatten_cons,
            List.take_append, List.take_of_length_le (by rw [hlen]; exact Nat.le_mul_of_pos_right _ (by omega)),
            hlen, show width * (a + 1) - width = width * a by rw [Nat.mul_add]; omega,
            ih fun r hr => hrows r (List.mem_cons_of_mem _ hr)]

theorem drop_rows {width : Nat} {rows : List (List α)}
    (hrows : ∀ row ∈ rows, IsRow newline width row) (a : Nat) :
    rows.flatten.drop (width * a) = (rows.drop a).flatten := by
  have hsplit : rows.flatten = (rows.take a).flatten ++ (rows.drop a).flatten := by
    rw [← List.flatten_append, List.take_append_drop]
  have htake := take_rows hrows a
  have hall := List.take_append_drop (width * a) rows.flatten
  rw [htake] at hall
  exact List.append_cancel_left (hall.trans hsplit)

/-- A cut elsewhere takes the beginning of one more row. -/
theorem take_rows_add {width : Nat} {rows : List (List α)}
    (hrows : ∀ row ∈ rows, IsRow newline width row) {a r : Nat} (ha : a < rows.length)
    (hr : r ≤ width) :
    rows.flatten.take (width * a + r) = (rows.take a).flatten ++ rows[a].take r := by
  have hlen := (hrows _ (List.getElem_mem ha)).length_eq
  rw [List.take_add, take_rows hrows, drop_rows hrows, List.drop_eq_getElem_cons ha,
    List.flatten_cons, List.take_append_of_le_length (by omega)]

/-! ### One file -/

/-- Nothing is left over after the last newline. -/
def EndsLine (newline : α → Bool) (data : List α) : Prop :=
  data = [] ∨ ∃ body last, data = body ++ [last] ∧ newline last = true

theorem EndsLine.lines_append {data : List α} (h : EndsLine newline data) (rest : List α) :
    lines newline (data ++ rest) = lines newline data ++ lines newline rest := by
  obtain rfl | ⟨body, last, rfl, hlast⟩ := h
  · rfl
  · exact lines_append_newline hlast body rest

theorem EndsLine.append {data rest : List α} (hdata : EndsLine newline data)
    (hrest : EndsLine newline rest) : EndsLine newline (data ++ rest) := by
  obtain rfl | ⟨body, last, rfl, hlast⟩ := hrest
  · rwa [List.append_nil]
  · exact Or.inr ⟨data ++ body, last, by rw [List.append_assoc], hlast⟩

theorem endsLine_rows {width : Nat} {rows : List (List α)}
    (hrows : ∀ row ∈ rows, IsRow newline width row) : EndsLine newline rows.flatten := by
  induction rows with
  | nil => exact Or.inl rfl
  | cons row rows ih =>
      obtain ⟨body, last, hrow, hlast, _⟩ := (hrows row List.mem_cons_self).ends
      exact EndsLine.append (Or.inr ⟨body, last, hrow, hlast⟩)
        (ih fun r hr => hrows r (List.mem_cons_of_mem _ hr))

theorem EndsLine.drop {data : List α} (h : EndsLine newline data) (k : Nat) :
    EndsLine newline (data.drop k) := by
  obtain rfl | ⟨body, last, rfl, hlast⟩ := h
  · exact Or.inl List.drop_nil
  · rw [List.drop_append]
    obtain hk | hk := Nat.eq_zero_or_pos (k - body.length)
    · exact Or.inr ⟨body.drop k, last, by rw [hk, List.drop_zero], hlast⟩
    · refine Or.inl (List.append_eq_nil_iff.2 ⟨List.drop_of_length_le (by omega), ?_⟩)
      exact List.drop_of_length_le (by simp only [List.length_singleton]; omega)

/-- What the streams of a file were given, rows of one width. -/
def RowsOf (newline : α → Bool) (width : Nat) (streams : List (List (List α))) : Prop :=
  ∀ rows ∈ streams, ∀ row ∈ rows, IsRow newline width row

/-- The final contents of a file written through streams that were given whole rows. -/
def rowFile (C : Nat) (streams : List (List (List α))) : List α :=
  finalContents C (streams.map List.flatten)

section
variable {width : Nat} {C : Nat} {rows : List (List α)} {streams : List (List (List α))}

theorem RowsOf.head (h : RowsOf newline width (rows :: streams)) :
    ∀ row ∈ rows, IsRow newline width row := h rows List.mem_cons_self

theorem RowsOf.tail (h : RowsOf newline width (rows :: streams)) :
    RowsOf newline width streams := fun r hr => h r (List.mem_cons_of_mem _ hr)

theorem rowFile_cons : rowFile C (rows :: streams) =
    early C rows.flatten ++ rowFile C streams ++ pending C rows.flatten := rfl

/-- Streams that no row is given to leave nothing. -/
theorem rowFile_append_of_nil (C : Nat) (streams : List (List (List α)))
    {later : List (List (List α))} (h : ∀ rows ∈ later, rows = []) :
    rowFile C (streams ++ later) = rowFile C streams := by
  rw [rowFile, List.map_append, finalContents_append_of_nil, rowFile]
  intro data hdata
  obtain ⟨rows, hrows, rfl⟩ := List.mem_map.1 hdata
  rw [h rows hrows, List.flatten_nil]

theorem length_rowFile (h : RowsOf newline width streams) :
    (rowFile C streams).length = width * (streams.map List.length).sum := by
  rw [rowFile, (finalContents_perm C _).length_eq]
  induction streams with
  | nil => rfl
  | cons rows streams ih =>
      rw [List.map_cons, List.flatten_cons, List.length_append, length_rows h.head, ih h.tail,
        List.map_cons, List.sum_cons]
      ring

theorem endsLine_rowFile (h : RowsOf newline width streams) :
    EndsLine newline (rowFile C streams) := by
  induction streams with
  | nil => exact Or.inl rfl
  | cons rows streams ih =>
      rw [rowFile_cons, List.append_assoc]
      have hend := endsLine_rows h.head
      obtain _ | ⟨row, rows⟩ := rows
      · simpa using ih h.tail
      · have hpos : 0 < (row :: rows).flatten.length := by
          obtain ⟨body, last, hrow, _⟩ := (h.head row List.mem_cons_self).ends
          rw [hrow]
          simp
        have hne : pending C (row :: rows).flatten ≠ [] := by
          rw [← List.length_pos_iff, length_pending]
          have := flushed_lt (C := C) hpos
          omega
        obtain hnil | ⟨body, last, hp, hlast⟩ := hend.drop (flushed C (row :: rows).flatten.length)
        · exact absurd hnil hne
        · refine Or.inr ⟨early C (row :: rows).flatten ++ (rowFile C streams ++ body), last, ?_, hlast⟩
          rw [pending, hp]
          simp only [List.append_assoc]

theorem rowFile_eq_nil_iff (h : RowsOf newline width streams) :
    rowFile C streams = [] ↔ ∀ n ∈ streams.map List.length, n = 0 := by
  have hperm := finalContents_perm C (streams.map List.flatten)
  refine ⟨fun hnil n hn => ?_, fun hzero => ?_⟩
  · obtain ⟨rows, hrows, rfl⟩ := List.mem_map.1 hn
    obtain _ | ⟨row, rows⟩ := rows
    · rfl
    · obtain ⟨body, last, hrow, _⟩ := (h _ hrows row List.mem_cons_self).ends
      rw [rowFile] at hnil
      have hlast : last ∈ finalContents C (streams.map List.flatten) := by
        rw [hperm.mem_iff, List.mem_flatten]
        exact ⟨_, List.mem_map_of_mem hrows, by simp [hrow]⟩
      simp [hnil] at hlast
  · apply List.eq_nil_of_length_eq_zero
    rw [length_rowFile h, List.sum_eq_zero hzero, Nat.mul_zero]

/-- A stream whose early blocks end between two rows leaves all lines whole. -/
theorem lines_rowFile_cons {a : Nat} (h : RowsOf newline width (rows :: streams))
    (ha : flushed C (width * rows.length) = width * a) :
    lines newline (rowFile C (rows :: streams)) =
      rows.take a ++ lines newline (rowFile C streams) ++ rows.drop a := by
  have hsub : ∀ row ∈ rows.take a, IsRow newline width row := fun r hr =>
    h.head r (List.mem_of_mem_take hr)
  have hsub' : ∀ row ∈ rows.drop a, IsRow newline width row := fun r hr =>
    h.head r (List.mem_of_mem_drop hr)
  rw [rowFile_cons, early, pending, length_rows h.head, ha, take_rows h.head, drop_rows h.head,
    List.append_assoc, lines_rows_append hsub, (endsLine_rowFile h.tail).lines_append,
    lines_rows hsub', List.append_assoc]

/-- The last stream to write anything ends up in one piece. -/
theorem lines_rowFile_cons_of_nil (h : RowsOf newline width (rows :: streams))
    (hnil : rowFile C streams = []) : lines newline (rowFile C (rows :: streams)) = rows := by
  rw [rowFile_cons, hnil, List.append_nil, early_append_pending, lines_rows h.head]

theorem length_flatten_of_width {ls : List (List α)} (h : ∀ l ∈ ls, l.length = width) :
    ls.flatten.length = width * ls.length := by
  rw [List.length_flatten, List.map_eq_replicate_iff.2 h, List.sum_replicate,
    Nat.nsmul_eq_mul, Nat.mul_comm]

/-- Lines of the right width force the early blocks of a stream to end between two rows. -/
theorem dvd_flushed_of_width (h : RowsOf newline width (rows :: streams))
    (hwidth : ∀ l ∈ lines newline (rowFile C (rows :: streams)), l.length = width)
    (hne : rowFile C streams ≠ []) : width ∣ flushed C (width * rows.length) := by
  have hends := endsLine_rowFile (C := C) h.tail
  have hY : EndsLine newline (early C rows.flatten ++ rowFile C streams) := by
    obtain hnil | ⟨body, last, hbody, hlast⟩ := hends
    · exact absurd hnil hne
    · exact Or.inr ⟨early C rows.flatten ++ body, last, by rw [hbody, List.append_assoc], hlast⟩
  rw [rowFile_cons, hY.lines_append] at hwidth
  have hlen := length_flatten_of_width fun l hl => hwidth l (List.mem_append_left _ hl)
  rw [lines_flatten, List.length_append, length_early, length_rows h.head,
    length_rowFile h.tail] at hlen
  exact (Nat.dvd_add_left (Dvd.intro _ rfl)).1 (hlen ▸ Dvd.intro _ rfl)

/-- The early blocks of every stream that is not the last to write anything end between two rows. -/
def WholeRows (C width : Nat) (counts : List Nat) : Prop :=
  counts.Pairwise fun n n' => n' = 0 ∨ width ∣ flushed C (width * n)

theorem wholeRows_of_width (h : RowsOf newline width streams)
    (hwidth : ∀ l ∈ lines newline (rowFile C streams), l.length = width) :
    WholeRows C width (streams.map List.length) := by
  induction streams with
  | nil => exact List.Pairwise.nil
  | cons rows streams ih =>
      rw [List.map_cons, WholeRows, List.pairwise_cons]
      by_cases hnil : rowFile C streams = []
      · refine ⟨fun n' hn' => Or.inl ((rowFile_eq_nil_iff h.tail).1 hnil n' hn'), ih h.tail ?_⟩
        simp [hnil]
      · have hdvd := dvd_flushed_of_width h hwidth hnil
        obtain ⟨a, ha⟩ := hdvd
        refine ⟨fun n' _ => Or.inr ⟨a, ha⟩, ih h.tail fun l hl => hwidth l ?_⟩
        rw [lines_rowFile_cons h ha]
        simp [hl]

theorem lines_rowFile_perm (h : RowsOf newline width streams)
    (hwhole : WholeRows C width (streams.map List.length)) :
    (lines newline (rowFile C streams)).Perm streams.flatten := by
  induction streams with
  | nil => exact List.Perm.refl _
  | cons rows streams ih =>
      rw [List.map_cons, WholeRows, List.pairwise_cons] at hwhole
      have hrest := ih h.tail hwhole.2
      by_cases hnil : rowFile C streams = []
      · rw [hnil, lines_nil] at hrest
        rw [lines_rowFile_cons_of_nil h hnil, List.flatten_cons, ← hrest.nil_eq, List.append_nil]
      · have hzero := mt (rowFile_eq_nil_iff h.tail).2 hnil
        push Not at hzero
        obtain ⟨n', hn', hpos⟩ := hzero
        obtain ⟨a, ha⟩ := (hwhole.1 n' hn').resolve_left hpos
        rw [lines_rowFile_cons h ha, List.flatten_cons, List.append_assoc]
        refine (List.Perm.append_left _ (List.perm_append_comm.trans (hrest.append_left _))).trans ?_
        rw [← List.append_assoc, List.take_append_drop]

/-- The lines of a file are exactly the rows that were written when the streams, but for the last one
to write anything, stop between two rows. -/
theorem lines_rowFile_perm_iff (h : RowsOf newline width streams) :
    (lines newline (rowFile C streams)).Perm streams.flatten ↔
      WholeRows C width (streams.map List.length) := by
  refine ⟨fun hperm => wholeRows_of_width h fun l hl => ?_, lines_rowFile_perm h⟩
  obtain ⟨rows, hrows, hmem⟩ := List.mem_flatten.1 (hperm.mem_iff.1 hl)
  exact (h rows hrows l hmem).length_eq

end

end Stdio
