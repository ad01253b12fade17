import CalcHeuristics.Stdio.Line

/-!
# Rows that are cut

When a stream stops inside a row, the beginning of that row is followed by the first line of what later
streams wrote, and that line ends with a whole row. If the buffer size and the width have a divisor in
common, the cut is at a multiple of it, and the line that follows begins with as much of a row.
-/

namespace Stdio

variable {α : Type*} {newline : α → Bool} {width C g : Nat} {rows : List (List α)}
  {streams : List (List (List α))}

theorem lines_append_of_lines {body data l : List α} {ls : List (List α)}
    (hbody : ∀ a ∈ body, newline a = false) (h : lines newline data = l :: ls) :
    lines newline (body ++ data) = (body ++ l) :: ls := by
  induction body with
  | nil => exact h
  | cons a body ih =>
      rw [List.cons_append, lines, if_neg (by simp [hbody a List.mem_cons_self]),
        ih fun b hb => hbody b (List.mem_cons_of_mem _ hb)]
      rfl

/-- The beginning of a row has no newline. -/
theorem IsRow.no_newline_of_mem_take {row : List α} (h : IsRow newline width row) {r : Nat}
    (hr : r < width) : ∀ a ∈ row.take r, newline a = false := by
  obtain ⟨body, last, rfl, _, hbody⟩ := h.ends
  have hlength := h.length_eq
  rw [List.length_append, List.length_singleton] at hlength
  intro a ha
  rw [List.take_append_of_le_length (by omega)] at ha
  exact hbody a (List.mem_of_mem_take ha)

/-- A line that begins like one of the rows and ends with one. -/
structure Spans (g : Nat) (streams : List (List (List α))) (line : List α) : Prop where
  start : ∃ rows ∈ streams, ∃ row ∈ rows, row.take g <+: line
  full : ∃ rows ∈ streams, ∃ row ∈ rows, row <:+ line

theorem Spans.row {row : List α} (hrows : rows ∈ streams) (hrow : row ∈ rows) :
    Spans g streams row :=
  ⟨⟨rows, hrows, row, hrow, List.take_prefix g row⟩, ⟨rows, hrows, row, hrow, List.suffix_refl row⟩⟩

theorem Spans.cons {line : List α} (h : Spans g streams line) : Spans g (rows :: streams) line := by
  obtain ⟨⟨rows', hrows', hrow'⟩, rows'', hrows'', hrow''⟩ := h
  exact ⟨⟨rows', List.mem_cons_of_mem _ hrows', hrow'⟩,
    ⟨rows'', List.mem_cons_of_mem _ hrows'', hrow''⟩⟩

theorem lines_rowFile_append (h : RowsOf newline width streams) {line : List α} {ls : List (List α)}
    (hlines : lines newline (rowFile C streams) = line :: ls) (data : List α) :
    lines newline (rowFile C streams ++ data) = line :: (ls ++ lines newline data) := by
  rw [(endsLine_rowFile h).lines_append, hlines, List.cons_append]

/-- The first line of the file, also when the first stream stops inside its first row. -/
theorem exists_first_line (hg : g ∣ C) (h : RowsOf newline width streams)
    (hne : rowFile C streams ≠ []) :
    ∃ line ls, lines newline (rowFile C streams) = line :: ls ∧ Spans g streams line := by
  induction streams with
  | nil => exact absurd rfl hne
  | cons rows streams ih =>
      by_cases hnil : rowFile C streams = []
      · rw [lines_rowFile_cons_of_nil h hnil]
        cases rows with
        | nil =>
            rw [rowFile_cons, hnil] at hne
            simp [early, pending] at hne
        | cons row rows =>
            exact ⟨row, rows, rfl, Spans.row List.mem_cons_self List.mem_cons_self⟩
      · obtain ⟨line, ls, hlines, hspans⟩ := ih h.tail hnil
        have hafter := lines_rowFile_append h.tail hlines (pending C rows.flatten)
        rw [rowFile_cons, List.append_assoc]
        cases rows with
        | nil => exact ⟨line, _, by simpa using hafter, hspans.cons⟩
        | cons row rows =>
            have hrow := h.head row List.mem_cons_self
            have hdvd : g ∣ flushed C (row :: rows).flatten.length := hg.trans (Dvd.intro _ rfl)
            rw [early]
            generalize flushed C (row :: rows).flatten.length = f at hdvd ⊢
            obtain hlong | hshort := le_or_gt width f
            · -- the first row is flushed early
              have htake : (row :: rows).flatten.take f =
                  row ++ rows.flatten.take (f - width) := by
                rw [List.flatten_cons, List.take_append, List.take_of_length_le (hrow.length_eq ▸ hlong),
                  hrow.length_eq]
              rw [htake, List.append_assoc, hrow.lines_append]
              exact ⟨row, _, rfl, Spans.row List.mem_cons_self List.mem_cons_self⟩
            · have htake : (row :: rows).flatten.take f = row.take f := by
                rw [List.flatten_cons, List.take_append_of_le_length (by rw [hrow.length_eq]; omega)]
              rw [htake, lines_append_of_lines (hrow.no_newline_of_mem_take hshort) hafter]
              refine ⟨_, _, rfl, ?_, ?_⟩
              · obtain rfl | hpos := Nat.eq_zero_or_pos f
                · obtain ⟨rows', hrows', hrow'⟩ := hspans.start
                  exact ⟨rows', List.mem_cons_of_mem _ hrows', by simpa using hrow'⟩
                · have hle : row.take g <+: row.take f := by
                    have heq : row.take g = (row.take f).take g := by
                      rw [List.take_take, min_eq_left (Nat.le_of_dvd hpos hdvd)]
                    rw [heq]
                    exact List.take_prefix g _
                  exact ⟨_, List.mem_cons_self, row, List.mem_cons_self,
                    hle.trans (List.prefix_append _ _)⟩
              · obtain ⟨rows', hrows', row', hrow', hsuffix⟩ := hspans.full
                exact ⟨rows', List.mem_cons_of_mem _ hrows', row', hrow',
                  hsuffix.trans (List.suffix_append _ _)⟩

/-- Unless all streams stop between two rows, a line of the file is the beginning of a row and what comes
after it. -/
theorem exists_cut_line (hg : g ∣ C) (hwidth : g ∣ width) (h : RowsOf newline width streams)
    (hcut : ¬ WholeRows C width (streams.map List.length)) :
    ∃ rows ∈ streams, ∃ row ∈ rows, ∃ r line, 0 < r ∧ g ∣ r ∧ Spans g streams line ∧
      row.take r ++ line ∈ lines newline (rowFile C streams) := by
  induction streams with
  | nil => exact absurd List.Pairwise.nil hcut
  | cons rows streams ih =>
      by_cases hhead : rowFile C streams = [] ∨ width ∣ flushed C (width * rows.length)
      · have htail : ¬ WholeRows C width (streams.map List.length) := by
          refine fun hwhole => hcut (List.pairwise_cons.2 ⟨fun n' hn' => ?_, hwhole⟩)
          obtain hnil | hdvd := hhead
          · exact Or.inl ((rowFile_eq_nil_iff h.tail).1 hnil n' hn')
          · exact Or.inr hdvd
        obtain ⟨rows', hrows', row, hrow, r, line, hpos, hr, hspans, hmem⟩ := ih h.tail htail
        refine ⟨rows', List.mem_cons_of_mem _ hrows', row, hrow, r, line, hpos, hr, hspans.cons, ?_⟩
        obtain hnil | ⟨a, ha⟩ := hhead
        · simp [hnil] at hmem
        · rw [lines_rowFile_cons h ha]
          exact List.mem_append_left _ (List.mem_append_right _ hmem)
      · rw [not_or] at hhead
        obtain ⟨hne, hndvd⟩ := hhead
        obtain ⟨line, ls, hlines, hspans⟩ := exists_first_line hg h.tail hne
        have hafter := lines_rowFile_append h.tail hlines (pending C rows.flatten)
        have hwidthPos : 0 < width := Nat.pos_of_ne_zero fun hzero =>
          hndvd (by simp [hzero, flushed])
        obtain ⟨a, r, hdiv, hlt⟩ : ∃ a r, flushed C (width * rows.length) = width * a + r ∧ r < width :=
          ⟨_, _, (Nat.div_add_mod _ _).symm, Nat.mod_lt _ hwidthPos⟩
        have hpos : 0 < r := Nat.pos_of_ne_zero fun hzero =>
          hndvd ⟨a, by rw [hdiv, hzero, Nat.add_zero]⟩
        have hr : g ∣ r := by
          have hflushed : g ∣ flushed C (width * rows.length) := hg.trans (Dvd.intro _ rfl)
          rw [hdiv] at hflushed
          exact (Nat.dvd_add_right (hwidth.mul_right a)).1 hflushed
        have ha : a < rows.length := by
          have hle := flushed_le C (width * rows.length)
          by_contra hge
          have := Nat.mul_le_mul_left width (Nat.le_of_not_lt hge)
          omega
        refine ⟨rows, List.mem_cons_self, rows[a], List.getElem_mem ha, r, line, hpos, hr,
          hspans.cons, ?_⟩
        have hsub : ∀ row ∈ rows.take a, IsRow newline width row := fun row hrow =>
          h.head row (List.mem_of_mem_take hrow)
        rw [rowFile_cons, List.append_assoc, early, length_rows h.head, hdiv,
          take_rows_add h.head ha hlt.le, List.append_assoc, lines_rows_append hsub,
          lines_append_of_lines ((h.head _ (List.getElem_mem ha)).no_newline_of_mem_take hlt) hafter]
        simp

end Stdio
