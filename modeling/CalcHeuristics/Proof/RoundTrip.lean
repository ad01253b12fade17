import CalcHeuristics.Proof.AnyFiles

/-!
# What the rows tell

The numbers that the script has for a row determine the text of the row, and the text the numbers: a double
tells any two texts of six decimals apart. So the files say of the branches what the data sets say of them,
and of the predictions they say everything.
-/

namespace CalcHeuristics

open Stdio FloatingPoint SideBySide

/-- The numbers that are read in a row. -/
def RowRecord.numbers (r : RowRecord) : CsvFile → List Datum
  | .heuristics => r.features
  | .trueProbability => r.probabilities

theorem mapM_fields_numbers {float : List Char → Option Datum} (hfloat : ReadsFixed float)
    (r : RowRecord) (file : CsvFile) : (r.fields file).mapM float = some (r.numbers file) := by
  cases file with
  | heuristics => exact mapM_fields_heuristics hfloat r
  | trueProbability => exact mapM_fields_trueProbability hfloat r

/-! ### Millionths as doubles -/

/-- A millionth is more than two steps of `2 ^ (-21)`. -/
theorem nearest_millionths_lt {m m' : Nat} (hlt : m < m') (hm' : m' ≤ 1000000) :
    binary64.nearest (m / 10 ^ 6) < binary64.nearest (m' / 10 ^ 6) := by
  have hm : (m : Rat) + 1 ≤ m' := by exact_mod_cast hlt
  have hle : (m' : Rat) ≤ 1000000 := by exact_mod_cast hm'
  obtain ⟨c, hc⟩ : ∃ c, c = m * 2 ^ 21 / 1000000 := ⟨_, rfl⟩
  have hdown : (c : Rat) * 1000000 ≤ m * 2 ^ 21 := by
    have hfloor : c * 1000000 ≤ m * 2 ^ 21 := hc ▸ Nat.div_mul_le_self _ _
    exact_mod_cast hfloor
  have hup : (m : Rat) * 2 ^ 21 < c * 1000000 + 1000000 := by
    have hfloor : m * 2 ^ 21 < c * 1000000 + 1000000 := hc ▸ Nat.lt_div_mul_add (by decide)
    exact_mod_cast hfloor
  have hcontains : ∀ d : Nat, d ≤ 2 → binary64.Contains ((c + d : Nat) / 2 ^ 21) := by
    intro d hd
    refine ⟨(c + d : Nat), -21, ?_, by decide, ?_⟩
    · have hsmall : c + d < 2 ^ 53 := by omega
      rw [abs_of_nonneg (by positivity)]
      exact_mod_cast hsmall
    · rw [zpow_neg, div_eq_mul_inv]
      norm_cast
  apply Format.nearest_lt_nearest (by positivity) (by decide) (hcontains 1 (by decide))
    (hcontains 2 (by decide))
  · push_cast
    linarith
  · push_cast
    linarith
  · push_cast
    linarith

theorem nearest_millionths_inj {m m' : Nat} (hm : m ≤ 1000000) (hm' : m' ≤ 1000000) :
    binary64.nearest (m / 10 ^ 6) = binary64.nearest (m' / 10 ^ 6) ↔ m = m' := by
  constructor
  · intro h
    obtain hlt | heq | hlt := lt_trichotomy m m'
    · exact absurd h (nearest_millionths_lt hlt hm').ne
    · exact heq
    · exact absurd h (nearest_millionths_lt hlt hm).ne'
  · rintro rfl
    rfl

/-! ### Fields and numbers -/

theorem HeuristicRow.columns_injective : Function.Injective HeuristicRow.columns := by
  rintro ⟨⟩ ⟨⟩ h
  simpa [columns] using h

theorem features_eq_iff {r r' : RowRecord} :
    r.features = r'.features ↔ r.heuristics = r'.heuristics := by
  have hvalue : Function.Injective fun prediction : Prediction => Datum.finite prediction.value := by
    intro p q h
    apply printfFixed_value_injective
    exact congrArg (printfFixed 1) (Datum.finite.inj h)
  exact (hvalue.list_map.comp HeuristicRow.columns_injective).eq_iff

theorem printfFixed_eq_iff {k : Nat} {x y : Rat} :
    printfFixed k x = printfFixed k y ↔ scaled k x = scaled k y := by
  constructor
  · intro h
    have hread := congrArg readFixed h
    rw [readFixed_printfFixed, readFixed_printfFixed, div_left_inj' (by positivity)] at hread
    exact_mod_cast hread
  · intro h
    rw [printfFixed, printfFixed, h]

theorem fields_eq_iff (file : CsvFile) (r r' : RowRecord) :
    r.fields file = r'.fields file ↔ r.numbers file = r'.numbers file := by
  cases file with
  | heuristics =>
      refine Iff.trans ?_ features_eq_iff.symm
      exact (printfFixed_value_injective.list_map.comp HeuristicRow.columns_injective).eq_iff
  | trueProbability =>
      have hle : ∀ r : RowRecord, scaled 6 r.takenBrProb.toRat ≤ 1000000 ∧
          scaled 6 (1 - r.takenBrProb.toRat) ≤ 1000000 := fun r =>
        ⟨scaled_le 6 r.takenBrProb.toRat_le_one,
          scaled_le 6 (sub_le_self 1 r.takenBrProb.toRat_nonneg)⟩
      simp only [RowRecord.fields, RowRecord.numbers, RowRecord.probabilities, List.cons.injEq,
        and_true, Datum.finite.injEq, printfFixed_eq_iff,
        nearest_millionths_inj (hle r).1 (hle r').1, nearest_millionths_inj (hle r).2 (hle r').2]

/-! ### Whole files -/

theorem lines_flatMap_text (file : CsvFile) (order : List RowRecord) :
    lines isNewlineChar (order.flatMap (RowRecord.text · file)) = order.map (RowRecord.text · file) := by
  rw [List.flatMap_def]
  apply lines_rows
  intro row hrow
  obtain ⟨r, _, rfl⟩ := List.mem_map.1 hrow
  exact r.isRow_text file

theorem map_eq_map_iff {α β γ : Type} {f : α → β} {g : α → γ} (h : ∀ a b, f a = f b ↔ g a = g b)
    {l l' : List α} : l.map f = l'.map f ↔ l.map g = l'.map g := by
  induction l generalizing l' with
  | nil => simp [eq_comm]
  | cons a l ih => cases l' with
      | nil => simp
      | cons b l' => simp only [List.map_cons, List.cons.injEq, h, ih]

theorem flatMap_text_eq_iff (file : CsvFile) {order order' : List RowRecord} :
    order.flatMap (RowRecord.text · file) = order'.flatMap (RowRecord.text · file) ↔
      order.map (RowRecord.numbers · file) = order'.map (RowRecord.numbers · file) := by
  rw [← map_eq_map_iff (fields_eq_iff file)]
  constructor
  · intro h
    have hread := reader_of_rows (lines_flatMap_text file order)
    rw [h, reader_of_rows (lines_flatMap_text file order')] at hread
    exact (Except.ok.inj hread).symm
  · intro h
    have htext : ∀ rows : List RowRecord, rows.flatMap (RowRecord.text · file) =
        (rows.map (RowRecord.fields · file)).flatMap csvLine := by
      intro rows
      rw [List.flatMap_map]
      exact List.flatMap_congr fun r _ => r.text_eq file
    rw [htext, htext, h]

/-- Reading finds the numbers of the rows that were printed. Two sequences of rows have the same text
exactly when they have the same numbers, and in `heuristics.csv` when they have the same predictions. -/
theorem rows_round_trip {float : List Char → Option Datum} (hfloat : ReadsFixed float)
    (order order' : List RowRecord) :
    (∀ file, ∃ rows, Csv.reader ',' (order.flatMap (RowRecord.text · file)) = .ok rows ∧
        rows.mapM (fun row => row.mapM float) = some (order.map (RowRecord.numbers · file))) ∧
      (∀ file, order.flatMap (RowRecord.text · file) = order'.flatMap (RowRecord.text · file) ↔
        order.map (RowRecord.numbers · file) = order'.map (RowRecord.numbers · file)) ∧
      (order.flatMap (RowRecord.text · .heuristics) = order'.flatMap (RowRecord.text · .heuristics) ↔
        order.map RowRecord.heuristics = order'.map RowRecord.heuristics) := by
  refine ⟨fun file => ⟨_, reader_of_rows (lines_flatMap_text file order), ?_⟩,
    fun file => flatMap_text_eq_iff file, ?_⟩
  · exact mapM_map_eq_some fun r _ => mapM_fields_numbers hfloat r file
  · rw [flatMap_text_eq_iff]
    exact map_eq_map_iff fun _ _ => features_eq_iff

/-- Two probabilities around one half that the six decimals do not tell apart. -/
theorem rows_round_trip_nearHalf : ∃ r r' : RowRecord,
    r.takenBrProb.numerator ≠ r'.takenBrProb.numerator ∧
      (∃ rows, Csv.reader ',' ([r, r'].flatMap (RowRecord.text · .trueProbability)) = .ok rows ∧
        rows.mapM (fun row => row.mapM readNearest) =
          some ([r, r'].map (RowRecord.numbers · .trueProbability))) ∧
      r.numbers .trueProbability = r'.numbers .trueProbability := by
  let r : RowRecord := { calledBranch with takenBrProb := ⟨2 ^ 30, by decide⟩ }
  let r' : RowRecord := { calledBranch with takenBrProb := ⟨2 ^ 30 + 1, by decide⟩ }
  have htext : [r].flatMap (RowRecord.text · .trueProbability) =
      [r'].flatMap (RowRecord.text · .trueProbability) := by
    decide +kernel
  obtain ⟨hreads, _, _⟩ := rows_round_trip readsFixed_readNearest [r, r'] []
  obtain ⟨_, hsame, _⟩ := rows_round_trip readsFixed_readNearest [r] [r']
  refine ⟨r, r', by decide, hreads .trueProbability, ?_⟩
  simpa using (hsame .trueProbability).1 htext

end CalcHeuristics
