import CalcHeuristics.Stdio.Line

/-!
# Two files written side by side

Every entry puts one row into each of two files, through a stream of its own file, and the rows have
different widths. The two files are aligned when their lines correspond one to one, each pair written
for one owner. `aligned_rowFile_iff` says when: every stream that is not the last to write anything has
to flush the same whole number of rows early in both files.
-/

namespace Stdio

variable {α β ε : Type*}

/-- The two files have the same number of lines, and the lines at one position have one owner. -/
def Aligned (newline : α → Bool) (owner : α → β) (file file' : List α) : Prop :=
  List.Forall₂ (fun l l' => ∃ b, (∀ a ∈ l, owner a = b) ∧ ∀ a ∈ l', owner a = b)
    (lines newline file) (lines newline file')

/-- The row an entry writes, owned as a whole by the entry's key. -/
structure OwnedRow (newline : α → Bool) (owner : α → β) (width : Nat) (key : ε → β)
    (row : ε → List α) : Prop where
  isRow : ∀ e, IsRow newline width (row e)
  owned : ∀ e, ∀ a ∈ row e, owner a = key e

/-- After `n` entries, both streams have flushed the same whole number of rows. -/
def FlushInStep (C width width' n : Nat) : Prop :=
  ∃ a, flushed C (width * n) = width * a ∧ flushed C (width' * n) = width' * a

variable {newline : α → Bool} {owner : α → β} {key : ε → β} {row row' : ε → List α}
  {width width' C : Nat} {entries : List ε} {streams : List (List ε)}

/-- The streams flush in step when some multiple of the buffer size is a whole number of rows of either
width, and the rows after it fit in the buffer. -/
theorem flushInStep_iff (hC : 0 < C) (hle : width' ≤ width) (hpos : 0 < width') {n : Nat} :
    FlushInStep C width width' n ↔
      n = 0 ∨ ∃ a < n, C ∣ width.gcd width' * a ∧ width * (n - a) ≤ C := by
  obtain rfl | hn := Nat.eq_zero_or_pos n
  · exact ⟨fun _ => Or.inl rfl, fun _ => ⟨0, by simp [flushed], by simp [flushed]⟩⟩
  have hwidth : 0 < width := hpos.trans_le hle
  have hroom : ∀ w a, w * n ≤ w * a + C ↔ w * (n - a) ≤ C := by
    intro w a
    rw [Nat.mul_sub]
    omega
  simp only [FlushInStep, flushed_eq_iff hC (Nat.mul_pos hwidth hn),
    flushed_eq_iff hC (Nat.mul_pos hpos hn), hroom, Nat.mul_lt_mul_left hwidth,
    Nat.mul_lt_mul_left hpos, ← Nat.gcd_mul_right, Nat.dvd_gcd_iff, hn.ne', false_or]
  refine ⟨fun h => ?_, fun h => ?_⟩
  · obtain ⟨a, ⟨hdvd, hlt, hfits⟩, hdvd', _⟩ := h
    exact ⟨a, hlt, ⟨hdvd, hdvd'⟩, hfits⟩
  · obtain ⟨a, hlt, ⟨hdvd, hdvd'⟩, hfits⟩ := h
    exact ⟨a, ⟨hdvd, hlt, hfits⟩, hdvd', hlt, (Nat.mul_le_mul_right _ hle).trans hfits⟩

/-- The file that collects one row of every entry. -/
def entryFile (C : Nat) (row : ε → List α) (streams : List (List ε)) : List α :=
  rowFile C (streams.map (List.map row))

theorem entryFile_map {γ : Type*} (g : α → γ) (C : Nat) (row : ε → List α) (streams : List (List ε)) :
    (entryFile C row streams).map g = entryFile C (fun e => (row e).map g) streams := by
  simp only [entryFile, rowFile, finalContents_map, List.map_map, Function.comp_def,
    List.map_flatten]

theorem rowsOf_map (hrow : ∀ e, IsRow newline width (row e)) (streams : List (List ε)) :
    RowsOf newline width (streams.map (List.map row)) := by
  intro rows hrows r hr
  obtain ⟨entries, _, rfl⟩ := List.mem_map.1 hrows
  obtain ⟨e, _, rfl⟩ := List.mem_map.1 hr
  exact hrow e

/-- The lines of the file are the rows of the entries exactly when the streams stop between two rows. -/
theorem lines_entryFile_perm_iff (hrow : ∀ e, IsRow newline width (row e)) :
    (lines newline (entryFile C row streams)).Perm (streams.flatten.map row) ↔
      WholeRows C width (streams.map List.length) := by
  have hlength : (streams.map (List.map row)).map List.length = streams.map List.length := by
    simp
  rw [entryFile, List.map_flatten, lines_rowFile_perm_iff (rowsOf_map hrow streams), hlength]

namespace OwnedRow

theorem rowsOf (h : OwnedRow newline owner width key row) (streams : List (List ε)) :
    RowsOf newline width (streams.map (List.map row)) := rowsOf_map h.isRow streams

theorem isRow_of_mem (h : OwnedRow newline owner width key row) :
    ∀ r ∈ entries.map row, IsRow newline width r := by
  intro r hr
  obtain ⟨e, _, rfl⟩ := List.mem_map.1 hr
  exact h.isRow e

theorem mem_entryFile (h : OwnedRow newline owner width key row) {a : α}
    (ha : a ∈ entryFile C row streams) : owner a ∈ streams.flatten.map key := by
  rw [entryFile, rowFile, (finalContents_perm C _).mem_iff, List.map_map] at ha
  obtain ⟨rows, hrows, ha⟩ := List.mem_flatten.1 ha
  obtain ⟨entries, hentries, rfl⟩ := List.mem_map.1 hrows
  obtain ⟨r, hr, ha⟩ := List.mem_flatten.1 ha
  obtain ⟨e, he, rfl⟩ := List.mem_map.1 hr
  rw [h.owned e a ha]
  exact List.mem_map_of_mem (List.mem_flatten.2 ⟨entries, hentries, he⟩)

theorem entryFile_eq_nil_iff (h : OwnedRow newline owner width key row) :
    entryFile C row streams = [] ↔ ∀ n ∈ streams.map List.length, n = 0 := by
  rw [entryFile, rowFile_eq_nil_iff (h.rowsOf streams), List.map_map]
  simp [Function.comp_def]

theorem length_lines_entryFile (h : OwnedRow newline owner width key row) :
    (lines newline (entryFile C row streams)).length = streams.flatten.length := by
  have hends := endsLine_rowFile (C := C) (h.rowsOf streams)
  have hrows : (entryFile C row streams).Perm (streams.flatten.map row).flatten := by
    refine (finalContents_perm C _).trans (List.Perm.of_eq ?_)
    simp only [List.map_map, List.map_flatten, List.flatten_flatten, Function.comp_def]
  have hcount : ∀ data : List α, EndsLine newline data →
      (lines newline data).length = data.countP newline := by
    intro data hdata
    obtain rfl | ⟨body, last, rfl, hlast⟩ := hdata
    · rfl
    · exact length_lines hlast
  rw [hcount (entryFile C row streams) hends, hrows.countP_eq, ← hcount _ (endsLine_rows h.isRow_of_mem),
    lines_rows h.isRow_of_mem, List.length_map]

theorem width_pos (h : OwnedRow newline owner width key row) (e : ε) : 0 < width := by
  obtain ⟨body, last, hrow, _⟩ := (h.isRow e).ends
  rw [← (h.isRow e).length_eq, hrow]
  simp

/-- The beginning of a row has no newline. -/
theorem no_newline_of_mem_take (h : OwnedRow newline owner width key row) (e : ε) {r : Nat}
    (hr : r < width) : ∀ a ∈ (row e).take r, newline a = false := by
  obtain ⟨body, last, hrow, _, hbody⟩ := (h.isRow e).ends
  have hlen := (h.isRow e).length_eq
  rw [hrow, List.length_append, List.length_singleton] at hlen
  intro a ha
  rw [hrow, List.take_append_of_le_length (by omega)] at ha
  exact hbody a (List.mem_of_mem_take ha)

/-- A stream cut inside a row leaves a line with two owners, unless nothing was written after it. -/
theorem exists_flushed_eq (h : OwnedRow newline owner width key row)
    (hsingle : ∀ l ∈ lines newline (entryFile C row (entries :: streams)),
      ∃ b, ∀ a ∈ l, owner a = b)
    (hdisjoint : ∀ e ∈ entries, key e ∉ streams.flatten.map key)
    (hne : entryFile C row streams ≠ []) :
    ∃ a, a ≤ entries.length ∧ flushed C (width * entries.length) = width * a := by
  have hrows : ∀ r ∈ entries.map row, IsRow newline width r := h.isRow_of_mem
  obtain hzero | hpos := Nat.eq_zero_or_pos entries.length
  · exact ⟨0, Nat.zero_le _, by simp [hzero, flushed]⟩
  have hwidth : 0 < width := h.width_pos (entries[0])
  have hlt : flushed C (width * entries.length) < width * entries.length :=
    flushed_lt (Nat.mul_pos hwidth hpos)
  obtain ⟨a, r, hdiv, hr⟩ : ∃ a r, flushed C (width * entries.length) = width * a + r ∧ r < width :=
    ⟨_, _, (Nat.div_add_mod _ _).symm, Nat.mod_lt _ hwidth⟩
  have ha : a < entries.length := by
    by_contra hge
    have := Nat.mul_le_mul_left width (Nat.le_of_not_lt hge)
    omega
  refine ⟨a, ha.le, ?_⟩
  by_contra hcut
  -- the early blocks are whole rows and then the beginning of the row that was cut
  have hearly : early C (entries.map row).flatten =
      ((entries.map row).take a).flatten ++ (row entries[a]).take r := by
    rw [early, length_rows hrows, List.length_map, hdiv, take_rows_add hrows (by simpa using ha) hr.le,
      List.getElem_map]
  obtain ⟨y, ys, hy⟩ := List.exists_cons_of_ne_nil hne
  obtain ⟨x, xs, hx⟩ : ∃ x xs, (row entries[a]).take r = x :: xs := by
    refine List.exists_cons_of_ne_nil (List.ne_nil_of_length_pos ?_)
    rw [List.length_take, (h.isRow _).length_eq]
    omega
  obtain ⟨l, ls, hl⟩ := lines_append_of_no_newline (h.no_newline_of_mem_take entries[a] hr) y
    (ys ++ pending C (entries.map row).flatten)
  have hlines : lines newline (entryFile C row (entries :: streams)) =
      (entries.map row).take a ++ ((row entries[a]).take r ++ y :: l) :: ls := by
    rw [← hl, ← lines_rows_append fun r' hr' => hrows r' (List.mem_of_mem_take hr')]
    show lines newline (early C (entries.map row).flatten ++ entryFile C row streams ++
      pending C (entries.map row).flatten) = _
    rw [hearly, hy]
    simp only [List.append_assoc, List.cons_append]
  obtain ⟨b, hb⟩ := hsingle ((row entries[a]).take r ++ y :: l) (by rw [hlines]; simp)
  have hxowner : owner x = key entries[a] :=
    h.owned _ x (List.mem_of_mem_take (hx ▸ List.mem_cons_self))
  have hyowner : owner y ∈ streams.flatten.map key :=
    h.mem_entryFile (C := C) (hy ▸ List.mem_cons_self)
  have hxy : owner x = owner y := by
    rw [hb x (by simp [hx]), hb y (by simp)]
  exact hdisjoint _ (List.getElem_mem ha) (hxowner ▸ hxy ▸ hyowner)

theorem lines_entryFile_cons {a : Nat} (h : OwnedRow newline owner width key row)
    (ha : flushed C (width * entries.length) = width * a) :
    lines newline (entryFile C row (entries :: streams)) =
      (entries.take a).map row ++ lines newline (entryFile C row streams) ++
        (entries.drop a).map row := by
  rw [List.map_take, List.map_drop]
  exact lines_rowFile_cons (h.rowsOf (entries :: streams)) (by rw [List.length_map]; exact ha)

theorem lines_entryFile_cons_of_nil (h : OwnedRow newline owner width key row)
    (hnil : entryFile C row streams = []) :
    lines newline (entryFile C row (entries :: streams)) = entries.map row :=
  lines_rowFile_cons_of_nil (h.rowsOf (entries :: streams)) hnil

/-- The owners of the lines of a file: first the whole rows flushed early, then an owner of the later
streams. -/
theorem owners_entryFile {a : Nat} (h : OwnedRow newline owner width key row)
    (ha : flushed C (width * entries.length) = width * a)
    (hne : entryFile C row streams ≠ []) :
    ∃ b owners, b ∈ streams.flatten.map key ∧
      (lines newline (entryFile C row (entries :: streams))).map (fun l => l.head?.map owner) =
        ((entries.map key).map some).take a ++ some b :: owners := by
  obtain ⟨l, ls, hl⟩ : ∃ l ls, lines newline (entryFile C row streams) = l :: ls :=
    List.exists_cons_of_ne_nil (mt lines_eq_nil.1 hne)
  obtain ⟨x, xs, rfl⟩ : ∃ x xs, l = x :: xs :=
    List.exists_cons_of_ne_nil (ne_nil_of_mem_lines (hl ▸ List.mem_cons_self))
  have hx : x ∈ entryFile C row streams := by
    have hflat : (lines newline (entryFile C row streams)).flatten = _ := lines_flatten _
    rw [← hflat, hl]
    simp
  have hrow : ∀ e, (row e).head?.map owner = some (key e) := by
    intro e
    obtain ⟨body, last, hrow, _⟩ := (h.isRow e).ends
    obtain ⟨y, ys, hy⟩ := List.exists_cons_of_ne_nil (l := row e) (by rw [hrow]; simp)
    rw [hy, List.head?_cons, Option.map_some, h.owned e y (hy ▸ List.mem_cons_self)]
  refine ⟨owner x, (ls ++ (entries.drop a).map row).map fun l => l.head?.map owner,
    h.mem_entryFile hx, ?_⟩
  rw [h.lines_entryFile_cons ha, hl, List.append_assoc, List.map_append, List.map_map,
    List.cons_append, List.map_cons, List.head?_cons, Option.map_some, List.map_map,
    ← List.map_take]
  congr 1
  exact List.map_congr_left fun e _ => hrow e

end OwnedRow

theorem Aligned.left {file file' : List α} (h : Aligned newline owner file file') :
    ∀ l ∈ lines newline file, ∃ b, ∀ a ∈ l, owner a = b := by
  intro l hl
  obtain ⟨i, hi, rfl⟩ := List.getElem_of_mem hl
  obtain ⟨b, hb, _⟩ := h.get hi (h.length_eq ▸ hi)
  exact ⟨b, hb⟩

theorem Aligned.symm {file file' : List α} (h : Aligned newline owner file file') :
    Aligned newline owner file' file :=
  List.Forall₂.flip (h.imp fun _ _ ⟨b, hl, hl'⟩ => ⟨b, hl', hl⟩)

/-- Aligned files have the same owners line by line. -/
theorem Aligned.owners {file file' : List α} (h : Aligned newline owner file file') :
    (lines newline file).map (fun l => l.head?.map owner) =
      (lines newline file').map fun l => l.head?.map owner := by
  apply List.ext_getElem (by simp [h.length_eq])
  intro i hi hi'
  rw [List.length_map] at hi hi'
  rw [List.getElem_map, List.getElem_map]
  obtain ⟨b, hb, hb'⟩ := h.get hi hi'
  obtain ⟨x, xs, hx⟩ := List.exists_cons_of_ne_nil (ne_nil_of_mem_lines (List.getElem_mem hi))
  obtain ⟨y, ys, hy⟩ := List.exists_cons_of_ne_nil (ne_nil_of_mem_lines (List.getElem_mem hi'))
  simp only [List.get_eq_getElem] at hb hb'
  rw [hx] at hb ⊢
  rw [hy] at hb' ⊢
  simp [hb x List.mem_cons_self, hb' y List.mem_cons_self]

/-- Two cuts of one list that are both followed by a stranger are one cut. -/
theorem take_unique {l s s' : List β} {a a' : Nat} {b b' : β} (ha : a ≤ l.length)
    (ha' : a' ≤ l.length) (hb : b ∉ l) (hb' : b' ∉ l)
    (heq : l.take a ++ b :: s = l.take a' ++ b' :: s') : a = a' := by
  wlog hle : a ≤ a' generalizing a a' b b' s s'
  · exact (this ha' ha hb' hb heq.symm (by omega)).symm
  by_contra hne
  have hget : (l.take a ++ b :: s)[a]? = (l.take a' ++ b' :: s')[a]? := by rw [heq]
  rw [List.getElem?_append_right (by simp), List.getElem?_append_left (by simp; omega),
    List.getElem?_take_of_lt (by omega)] at hget
  simp only [List.length_take, Nat.min_eq_left ha, Nat.sub_self, List.getElem?_cons_zero] at hget
  exact hb (List.mem_of_getElem? hget.symm)

theorem forall₂_middle {R : α → β → Prop} {l₁ l₂ l₃ : List α} {l₁' l₂' l₃' : List β}
    (h : List.Forall₂ R (l₁ ++ l₂ ++ l₃) (l₁' ++ l₂' ++ l₃')) (h₁ : l₁.length = l₁'.length)
    (h₂ : l₂.length = l₂'.length) : List.Forall₂ R l₂ l₂' := by
  rw [List.append_assoc, List.append_assoc] at h
  have hdrop := List.forall₂_drop l₁.length h
  rw [List.drop_left, h₁, List.drop_left] at hdrop
  have htake := List.forall₂_take l₂.length hdrop
  rwa [List.take_left, h₂, List.take_left] at htake

/-- The rows of one list of entries are aligned, whatever their widths. -/
theorem OwnedRow.forall₂_map (h : OwnedRow newline owner width key row)
    (h' : OwnedRow newline owner width' key row') (entries : List ε) :
    List.Forall₂ (fun l l' => ∃ b, (∀ a ∈ l, owner a = b) ∧ ∀ a ∈ l', owner a = b)
      (entries.map row) (entries.map row') := by
  rw [List.forall₂_map_left_iff, List.forall₂_map_right_iff, List.forall₂_same]
  exact fun e _ => ⟨key e, h.owned e, h'.owned e⟩

/-- Alignment peels off the first stream, when a later one wrote something. -/
theorem aligned_cons_iff (h : OwnedRow newline owner width key row)
    (h' : OwnedRow newline owner width' key row')
    (hdisjoint : ∀ e ∈ entries, key e ∉ streams.flatten.map key)
    (hne : entryFile C row streams ≠ []) (hne' : entryFile C row' streams ≠ []) :
    Aligned newline owner (entryFile C row (entries :: streams))
        (entryFile C row' (entries :: streams)) ↔
      FlushInStep C width width' entries.length ∧
        Aligned newline owner (entryFile C row streams) (entryFile C row' streams) := by
  refine ⟨fun hal => ?_, fun hstep => ?_⟩
  · obtain ⟨a, hle, ha⟩ := h.exists_flushed_eq hal.left hdisjoint hne
    obtain ⟨a', hle', ha'⟩ := h'.exists_flushed_eq hal.symm.left hdisjoint hne'
    obtain ⟨b, owners, hb, howners⟩ := h.owners_entryFile ha hne
    obtain ⟨b', owners', hb', howners'⟩ := h'.owners_entryFile ha' hne'
    have hstranger : ∀ c ∈ streams.flatten.map key, some c ∉ (entries.map key).map some := by
      intro c hc hmem
      obtain ⟨d, hd, hdc⟩ := List.mem_map.1 hmem
      obtain ⟨e, he, rfl⟩ := List.mem_map.1 hd
      exact hdisjoint e he (Option.some.inj hdc ▸ hc)
    obtain rfl : a = a' := take_unique (by simpa using hle) (by simpa using hle')
      (hstranger b hb) (hstranger b' hb') (howners.symm.trans (hal.owners.trans howners'))
    refine ⟨⟨a, ha, ha'⟩, ?_⟩
    rw [Aligned, h.lines_entryFile_cons ha, h'.lines_entryFile_cons ha'] at hal
    exact forall₂_middle hal (by simp)
      (by rw [h.length_lines_entryFile, h'.length_lines_entryFile])
  · obtain ⟨⟨a, ha, ha'⟩, hal⟩ := hstep
    rw [Aligned, h.lines_entryFile_cons ha, h'.lines_entryFile_cons ha']
    exact List.rel_append (List.rel_append (h.forall₂_map h' _) hal) (h.forall₂_map h' _)

/-- The two files are aligned exactly when every stream that is not the last to write anything flushes
the same whole number of rows early in both. -/
theorem aligned_entryFile_iff (h : OwnedRow newline owner width key row)
    (h' : OwnedRow newline owner width' key row') (hnodup : (streams.flatten.map key).Nodup) :
    Aligned newline owner (entryFile C row streams) (entryFile C row' streams) ↔
      (streams.map List.length).Pairwise fun n n' => n' = 0 ∨ FlushInStep C width width' n := by
  induction streams with
  | nil => exact ⟨fun _ => List.Pairwise.nil, fun _ => List.Forall₂.nil⟩
  | cons entries streams ih =>
      rw [List.flatten_cons, List.map_append, List.nodup_append] at hnodup
      obtain ⟨_, hnodup, hne⟩ := hnodup
      have hdisjoint : ∀ e ∈ entries, key e ∉ streams.flatten.map key := fun e he hmem =>
        hne (key e) (List.mem_map_of_mem he) (key e) hmem rfl
      rw [List.map_cons, List.pairwise_cons, ← ih hnodup]
      by_cases hnil : entryFile C row streams = []
      · have hzero := h.entryFile_eq_nil_iff.1 hnil
        have hnil' : entryFile C row' streams = [] := h'.entryFile_eq_nil_iff.2 hzero
        refine ⟨fun _ => ⟨fun n' hn' => Or.inl (hzero n' hn'), ?_⟩, fun _ => ?_⟩
        · rw [hnil, hnil']
          exact List.Forall₂.nil
        · rw [Aligned, h.lines_entryFile_cons_of_nil hnil, h'.lines_entryFile_cons_of_nil hnil']
          exact h.forall₂_map h' entries
      · have hzero := mt h.entryFile_eq_nil_iff.2 hnil
        have hnil' : entryFile C row' streams ≠ [] := mt h'.entryFile_eq_nil_iff.1 hzero
        rw [aligned_cons_iff h h' hdisjoint hnil hnil']
        push Not at hzero
        obtain ⟨n', hn', hpos⟩ := hzero
        exact and_congr_left fun _ =>
          ⟨fun hstep _ _ => Or.inr hstep, fun hall => (hall n' hn').resolve_left hpos⟩

/-- Files whose streams flush in step have the rows of the entries in one common order. -/
theorem OwnedRow.exists_order (h : OwnedRow newline owner width key row)
    (h' : OwnedRow newline owner width' key row')
    (hstep : (streams.map List.length).Pairwise fun n n' =>
      n' = 0 ∨ FlushInStep C width width' n) :
    ∃ order : List ε, order.Perm streams.flatten ∧
      lines newline (entryFile C row streams) = order.map row ∧
      lines newline (entryFile C row' streams) = order.map row' := by
  induction streams with
  | nil => exact ⟨[], .refl _, rfl, rfl⟩
  | cons entries streams ih =>
      rw [List.map_cons, List.pairwise_cons] at hstep
      obtain ⟨order, horder, hlines, hlines'⟩ := ih hstep.2
      by_cases hnil : entryFile C row streams = []
      · have hzero := h.entryFile_eq_nil_iff.1 hnil
        refine ⟨entries, ?_, h.lines_entryFile_cons_of_nil hnil,
          h'.lines_entryFile_cons_of_nil (h'.entryFile_eq_nil_iff.2 hzero)⟩
        have hempty : streams.flatten = [] := by
          rw [← List.length_eq_zero_iff, List.length_flatten, List.sum_eq_zero hzero]
        rw [List.flatten_cons, hempty, List.append_nil]
      · have hzero := mt h.entryFile_eq_nil_iff.2 hnil
        push Not at hzero
        obtain ⟨n', hn', hpos⟩ := hzero
        obtain ⟨a, ha, ha'⟩ := (hstep.1 n' hn').resolve_left hpos
        refine ⟨entries.take a ++ order ++ entries.drop a, ?_, ?_, ?_⟩
        · rw [List.flatten_cons, List.append_assoc]
          refine (List.Perm.append_left _
            (List.perm_append_comm.trans (horder.append_left _))).trans ?_
          rw [← List.append_assoc, List.take_append_drop]
        · rw [h.lines_entryFile_cons ha, hlines, List.map_append, List.map_append]
        · rw [h'.lines_entryFile_cons ha', hlines', List.map_append, List.map_append]

end Stdio
