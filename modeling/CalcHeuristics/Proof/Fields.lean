import CalcHeuristics.MachineLearning
import CalcHeuristics.Proof.TrueProbability

/-!
# What is read back

The rows are printed by one program and read by another. The reader finds the fields that were printed,
the numbers of the heuristics are exact in double precision, and a true probability becomes a label: the
six decimals and the rounding of ties to the even integer both favour "not taken".
-/

namespace CalcHeuristics

open Stdio FloatingPoint

/-- The fields of a row. -/
def RowRecord.fields (r : RowRecord) : CsvFile → List (List Char)
  | .heuristics => r.heuristics.columns.map fun prediction => printfFixed 1 prediction.value
  | .trueProbability => [printfFixed 6 r.takenBrProb.toRat, printfFixed 6 (1 - r.takenBrProb.toRat)]

def CsvFile.columns : CsvFile → Nat
  | heuristics => 8
  | trueProbability => 2

section
variable (r : RowRecord) (file : CsvFile)

theorem RowRecord.text_eq : r.text file = csvLine (r.fields file) := by
  cases file <;> rfl

theorem RowRecord.length_fields : (r.fields file).length = file.columns := by
  cases file <;> rfl

theorem RowRecord.fields_ne_nil : r.fields file ≠ [] := by
  cases file <;> simp [fields, HeuristicRow.columns]

variable {r file}

/-- A field is a number with one or six decimals. -/
theorem RowRecord.exists_of_mem_fields {field : List Char} (h : field ∈ r.fields file) :
    ∃ k x, 0 < k ∧ 0 ≤ x ∧ x ≤ 1 ∧ field = printfFixed k x := by
  cases file with
  | heuristics =>
      obtain ⟨prediction, _, rfl⟩ := List.mem_map.1 h
      refine ⟨1, prediction.value, one_pos, ?_, prediction.value_le_one, rfl⟩
      cases prediction <;> norm_num [Prediction.value]
  | trueProbability =>
      have hnonneg := r.takenBrProb.toRat_nonneg
      have hle := r.takenBrProb.toRat_le_one
      obtain rfl | rfl := List.mem_pair.1 h
      · exact ⟨6, _, by decide, hnonneg, hle, rfl⟩
      · exact ⟨6, _, by decide, sub_nonneg.2 hle, sub_le_self 1 hnonneg, rfl⟩

theorem RowRecord.not_mem_field {field : List Char} (h : field ∈ r.fields file) {c : Char}
    (hc : c.isDigit = false) (hpoint : c ≠ '.') : c ∉ field := by
  obtain ⟨k, x, _, _, _, rfl⟩ := r.exists_of_mem_fields h
  exact not_mem_printfFixed hc hpoint k x

end

/-! ### Reading the text -/

theorem mem_intercalate {fields : List (List Char)} {c : Char}
    (h : c ∈ [','].intercalate fields) : c = ',' ∨ ∃ field ∈ fields, c ∈ field := by
  induction fields with
  | nil => simp at h
  | cons field rest ih =>
      cases rest with
      | nil => exact Or.inr ⟨field, List.mem_cons_self, by simpa using h⟩
      | cons field' rest =>
          rw [List.intercalate_cons_cons, List.mem_append, List.mem_append, List.mem_singleton] at h
          obtain (h | h) | h := h
          · exact Or.inr ⟨field, List.mem_cons_self, h⟩
          · exact Or.inl h
          · obtain h | ⟨field', hfield', hc⟩ := ih h
            · exact Or.inl h
            · exact Or.inr ⟨field', List.mem_cons_of_mem _ hfield', hc⟩

theorem not_mem_csvLine {fields : List (List Char)} {c : Char} (hcomma : c ≠ ',') (hnewline : c ≠ '\n')
    (h : ∀ field ∈ fields, c ∉ field) : c ∉ csvLine fields := by
  rw [csvLine, List.mem_append, List.mem_singleton, not_or]
  refine ⟨fun hmem => ?_, hnewline⟩
  obtain rfl | ⟨field, hfield, hc⟩ := mem_intercalate hmem
  · exact hcomma rfl
  · exact h field hfield hc

theorem RowRecord.splitLine_text (r : RowRecord) (file : CsvFile) :
    Csv.splitLine ',' (r.text file) = r.fields file := by
  have hclean : ∀ field ∈ r.fields file, '\n' ∉ field ∧ ',' ∉ field ∧ field ≠ [] := by
    intro field hfield
    refine ⟨r.not_mem_field hfield rfl (by decide), r.not_mem_field hfield rfl (by decide), ?_⟩
    obtain ⟨k, x, _, _, _, rfl⟩ := r.exists_of_mem_fields hfield
    simp [printfFixed]
  have hsplit : ([','].intercalate (r.fields file)).splitOn ',' = r.fields file :=
    List.splitOn_intercalate ',' (fun field hfield => (hclean field hfield).2.1) (r.fields_ne_nil file)
  have hbody : (r.text file).filter (fun c => c ≠ '\n') = [','].intercalate (r.fields file) := by
    rw [r.text_eq, csvLine, List.filter_append, List.filter_eq_self.2]
    · simp
    · intro c hc
      obtain rfl | ⟨field, hfield, hc⟩ := mem_intercalate hc
      · rfl
      · exact decide_eq_true fun heq => (hclean field hfield).1 (heq ▸ hc)
  rw [Csv.splitLine, hbody, hsplit]
  refine if_neg fun hnil => ?_
  rw [hnil, List.splitOn_nil] at hsplit
  exact (hclean [] (hsplit ▸ List.mem_singleton.2 rfl)).2.2 rfl

/-- Text that was printed is read line by line. -/
theorem reader_of_printed {text : List Char} {file : CsvFile}
    (h : ∀ c ∈ text, ∃ r : RowRecord, c ∈ r.text file) :
    Csv.reader ',' text = .ok ((lines isNewlineChar text).map (Csv.splitLine ',')) := by
  have hclean : ∀ c : Char, c ≠ ',' → c ≠ '\n' → c.isDigit = false → c ≠ '.' → c ∉ text := by
    intro c hcomma hnewline hdigit hpoint hmem
    obtain ⟨r, hc⟩ := h c hmem
    rw [r.text_eq] at hc
    exact not_mem_csvLine hcomma hnewline (fun field hfield => r.not_mem_field hfield hdigit hpoint) hc
  exact Csv.reader_of_plain (hclean '"' (by decide) (by decide) rfl (by decide))
    (hclean '\r' (by decide) (by decide) rfl (by decide))

/-- A file whose lines are rows is read as the fields of the rows. -/
theorem reader_of_rows {text : List Char} {file : CsvFile} {order : List RowRecord}
    (h : lines isNewlineChar text = order.map (RowRecord.text · file)) :
    Csv.reader ',' text = .ok (order.map (RowRecord.fields · file)) := by
  have hflat : (lines isNewlineChar text).flatten = text := lines_flatten text
  have hprinted : ∀ c ∈ text, ∃ r : RowRecord, c ∈ r.text file := by
    intro c hmem
    rw [← hflat, h, List.mem_flatten] at hmem
    obtain ⟨line, hline, hc⟩ := hmem
    obtain ⟨r, _, rfl⟩ := List.mem_map.1 hline
    exact ⟨r, hc⟩
  rw [reader_of_printed hprinted, h, List.map_map]
  exact congrArg Except.ok (List.map_congr_left fun r _ => r.splitLine_text file)

/-! ### Reading the numbers -/

/-- `float` is correctly rounded on numbers up to one that are written with digits and a point. -/
def ReadsFixed (float : List Char → Option Datum) : Prop :=
  ∀ whole decimals : List Char, whole ≠ [] → (∀ c ∈ whole ++ decimals, c.isDigit = true) →
    readFixed (whole ++ '.' :: decimals) ≤ 1 →
      float (whole ++ '.' :: decimals) =
        some (.finite (binary64.nearest (readFixed (whole ++ '.' :: decimals))))

theorem scaled_value (prediction : Prediction) :
    (scaled 1 prediction.value : Rat) / 10 ^ 1 = prediction.value := by
  obtain ⟨m, hm⟩ : ∃ m : Nat, prediction.value = m / 10 ^ 1 := by
    cases prediction
    · exact ⟨10, by norm_num [Prediction.value]⟩
    · exact ⟨0, by norm_num [Prediction.value]⟩
    · exact ⟨5, by norm_num [Prediction.value]⟩
  rw [hm, scaled_div]

section
variable {float : List Char → Option Datum} (hfloat : ReadsFixed float)
include hfloat

theorem float_printfFixed {k : Nat} {x : Rat} (hx : x ≤ 1) :
    float (printfFixed k x) = some (.finite (binary64.nearest (scaled k x / 10 ^ k))) := by
  have hle : readFixed (printfFixed k x) ≤ 1 := by
    rw [readFixed_printfFixed, div_le_one (by positivity)]
    exact_mod_cast scaled_le k hx
  rw [printfFixed] at hle ⊢
  rw [hfloat _ _ (by simp) ?_ hle, ← printfFixed, readFixed_printfFixed]
  intro c hc
  obtain hc | hc := List.mem_append.1 hc
  · exact Nat.isDigit_of_mem_toDigits (by decide) (by decide) hc
  · exact isDigit_of_mem_lastDigits hc

/-- The three values are exact. -/
theorem float_prediction (prediction : Prediction) :
    float (printfFixed 1 prediction.value) = some (.finite prediction.value) := by
  have hcontains : binary64.Contains prediction.value := by
    cases prediction
    · exact ⟨1, 0, by decide, by decide, by norm_num [Prediction.value]⟩
    · exact ⟨0, 0, by decide, by decide, by norm_num [Prediction.value]⟩
    · exact ⟨1, -1, by decide, by decide, by norm_num [Prediction.value]⟩
  have hnonneg : 0 ≤ prediction.value := by
    cases prediction <;> norm_num [Prediction.value]
  rw [float_printfFixed hfloat prediction.value_le_one, scaled_value,
    Format.nearest_of_contains hnonneg (by decide) hcontains]

/-! ### Labels -/

/-- What the row of a branch contributes to the labels. -/
def RowRecord.label (r : RowRecord) : Datum :=
  .finite (if 1073742898 ≤ r.takenBrProb.numerator then 1 else 0)

omit hfloat

/-- Half a unit of the sixth decimal above one half is what it takes to be printed as more. -/
theorem scaled_le_half_iff (p : BranchProbability) :
    scaled 6 p.toRat ≤ 500000 ↔ p.numerator < 1073742898 := by
  have hnear := abs_le.1 (isRounded_scaled 6 p.toRat_nonneg).near
  have hvalue : p.toRat * 10 ^ 6 = p.numerator * 1000000 / 2147483648 := by
    rw [BranchProbability.toRat, BranchProbability.denominator]
    norm_num
    ring
  rw [hvalue] at hnear
  push_cast at hnear
  constructor
  · intro h
    have h' : (scaled 6 p.toRat : Rat) ≤ 500000 := by exact_mod_cast h
    have hlt : (p.numerator : Rat) < (1073742898 : Nat) := by
      push_cast
      linarith
    exact_mod_cast hlt
  · intro h
    have h' : (p.numerator : Rat) ≤ (1073742897 : Nat) := by exact_mod_cast Nat.le_of_lt_succ h
    push_cast at h'
    have hlt : (scaled 6 p.toRat : Rat) < (500001 : Nat) := by
      push_cast
      linarith
    have hlt' : scaled 6 p.toRat < 500001 := by exact_mod_cast hlt
    omega

theorem contains_binary64 (m : Int) (e : Int) (hm : |m| < 2 ^ 53) (he : -1074 ≤ e) :
    binary64.Contains (m * (2 : Rat) ^ e) := ⟨m, e, hm, he, rfl⟩

/-- A number of millionths rounds to one as a double when it is above one half. -/
theorem roundEven_nearest {m : Nat} (hm : m ≤ 1000000) :
    roundEven (binary64.nearest (m / 10 ^ 6)) = if m ≤ 500000 then 0 else 1 := by
  have hnonneg : (0 : Rat) ≤ m / 10 ^ 6 := by positivity
  have hm' : (m : Rat) ≤ 1000000 := by exact_mod_cast hm
  apply roundEven_eq
  split
  · rename_i hhalf
    have hhalf' : (m : Rat) ≤ 500000 := by exact_mod_cast hhalf
    have hlow : (0 : Rat) ≤ binary64.nearest (m / 10 ^ 6) := by
      have hzero := contains_binary64 0 0 (by decide) (by decide)
      rw [Int.cast_zero, zero_mul] at hzero
      exact Format.le_nearest hnonneg (by decide) hzero hnonneg
    have hhigh : binary64.nearest (m / 10 ^ 6) ≤ 1 / 2 := by
      have hone := contains_binary64 1 (-1) (by decide) (by decide)
      have heq : ((1 : Int) : Rat) * 2 ^ (-1 : Int) = 1 / 2 := by norm_num
      rw [heq] at hone
      exact Format.nearest_le hnonneg hone (by linarith)
    refine ⟨abs_le.2 ⟨?_, ?_⟩, fun _ => Even.zero⟩ <;> push_cast <;> linarith
  · rename_i hhalf
    have hhalf' : (500001 : Rat) ≤ m := by exact_mod_cast Nat.lt_of_not_le hhalf
    have hlow : 1 / 2 + 1 / 2 ^ 20 ≤ binary64.nearest (m / 10 ^ 6) := by
      have hsum := contains_binary64 (2 ^ 19 + 1) (-20) (by decide) (by decide)
      have heq : ((2 ^ 19 + 1 : Int) : Rat) * 2 ^ (-20 : Int) = 1 / 2 + 1 / 2 ^ 20 := by norm_num
      rw [heq] at hsum
      exact Format.le_nearest hnonneg (by decide) hsum (by linarith)
    have hhigh : binary64.nearest (m / 10 ^ 6) ≤ 1 := by
      have hone := contains_binary64 1 0 (by decide) (by decide)
      have heq : ((1 : Int) : Rat) * 2 ^ (0 : Int) = 1 := by norm_num
      rw [heq] at hone
      exact Format.nearest_le hnonneg hone (by linarith)
    have hlt : |((1 : Int) : Rat) - binary64.nearest (m / 10 ^ 6)| < 1 / 2 := by
      rw [abs_lt]
      constructor <;> push_cast <;> linarith
    exact ⟨hlt.le, fun htie => absurd htie hlt.ne⟩

end

end CalcHeuristics
