import CalcHeuristics.Proof.Output
import CalcHeuristics.Stdio.Decimal

/-!
# The two columns of a true probability

`true_probability.csv` has the probability of the taken edge and of the other one, each rounded on its
own. Together they are still exactly one: where one is rounded up the other is rounded down, and on a tie
both go to the even side, which for a pair that adds up to an even number of units are opposite ones.
-/

namespace CalcHeuristics

open Stdio

/-- The fields of a line, as a reader of comma-separated values finds them. -/
def csvFields (line : List Char) : List (List Char) := line.dropLast.splitOn ','

theorem csvFields_csvLine {fields : List (List Char)} (hne : fields ≠ [])
    (hcomma : ∀ field ∈ fields, ',' ∉ field) : csvFields (csvLine fields) = fields := by
  rw [csvFields, csvLine, List.dropLast_concat]
  exact List.splitOn_intercalate ',' hcomma hne

/-- The columns of a row of `true_probability.csv`, read back as numbers. -/
def readTrueProb (line : List Char) : List Rat := (csvFields line).map readFixed

theorem readTrueProb_trueProbText (p : BranchProbability) :
    readTrueProb (trueProbText p) =
      [(scaled 6 p.toRat : Rat) / 10 ^ 6, (scaled 6 (1 - p.toRat) : Rat) / 10 ^ 6] := by
  have hfields : csvFields (trueProbText p) =
      [printfFixed 6 p.toRat, printfFixed 6 (1 - p.toRat)] := by
    apply csvFields_csvLine (by simp)
    intro field hfield
    obtain rfl | rfl := List.mem_pair.1 hfield <;> exact not_mem_printfFixed rfl (by decide) 6 _
  rw [readTrueProb, hfields, List.map_cons, List.map_cons, List.map_nil, readFixed_printfFixed,
    readFixed_printfFixed]

/-- The two columns of a row add up to one, each is within half a unit of the sixth decimal of the
probability it stands for, and either is what is printed for the rest of the other to one. -/
theorem trueProb_columns (p : BranchProbability) : ∃ a b : Rat,
    readTrueProb (trueProbText p) = [a, b] ∧ a + b = 1 ∧ |a - p.toRat| ≤ 1 / 2 / 10 ^ 6 ∧
      |b - (1 - p.toRat)| ≤ 1 / 2 / 10 ^ 6 ∧
      trueProbText p = csvLine [printfFixed 6 a, printfFixed 6 (1 - a)] ∧
      trueProbText p = csvLine [printfFixed 6 (1 - b), printfFixed 6 b] := by
  have hnonneg := p.toRat_nonneg
  have hle := p.toRat_le_one
  have hsum : (scaled 6 p.toRat : Rat) / 10 ^ 6 + (scaled 6 (1 - p.toRat) : Rat) / 10 ^ 6 = 1 := by
    rw [← add_div, ← Nat.cast_add, scaled_add_scaled (by decide) hnonneg hle]
    norm_num
  have htaken := printfFixed_readFixed 6 p.toRat
  have hnotTaken := printfFixed_readFixed 6 (1 - p.toRat)
  rw [readFixed_printfFixed] at htaken hnotTaken
  refine ⟨_, _, readTrueProb_trueProbText p, hsum, scaled_close 6 hnonneg,
    scaled_close 6 (sub_nonneg.2 hle), ?_, ?_⟩
  · rw [← eq_sub_of_add_eq' hsum, htaken, hnotTaken]
    rfl
  · rw [← eq_sub_of_add_eq hsum, htaken, hnotTaken]
    rfl

end CalcHeuristics
