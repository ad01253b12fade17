import CalcHeuristics.Stdio.Printf
import Mathlib.Algebra.Order.Floor.Ring
import Mathlib.Algebra.Ring.Int.Parity
import Mathlib.Data.Rat.Floor
import Mathlib.Tactic.FieldSimp
import Mathlib.Tactic.NormNum

/-!
# What fixed-point output says

`IsRounded` is rounding as a relation: a nearest integer, and the even one of two. It has at most one
result, and reflecting a number at an even integer reflects its rounding, which settles questions about
`scaled` without going through remainders. `readFixed` reads what was printed.
-/

namespace Stdio

/-- `m` is an integer nearest to `t`, the even one if there are two. -/
structure IsRounded (m : Int) (t : Rat) : Prop where
  near : |(m : Rat) - t| ≤ 1 / 2
  even_of_tie : |(m : Rat) - t| = 1 / 2 → Even m

namespace IsRounded

variable {m m' : Int} {t : Rat}

theorem intCast (m : Int) : IsRounded m m := ⟨by norm_num, by norm_num⟩

theorem unique (h : IsRounded m t) (h' : IsRounded m' t) : m = m' := by
  by_contra hne
  have htriangle : |(m : Rat) - m'| ≤ |(m : Rat) - t| + |(m' : Rat) - t| := by
    rw [abs_sub_comm (m' : Rat) t]
    exact abs_sub_le _ _ _
  have hone : (1 : Rat) ≤ |(m : Rat) - m'| := by
    exact_mod_cast Int.one_le_abs (sub_ne_zero.2 hne)
  have hnear := h.near
  have hnear' := h'.near
  obtain ⟨i, hi⟩ := h.even_of_tie (le_antisymm hnear (by linarith))
  obtain ⟨j, hj⟩ := h'.even_of_tie (le_antisymm hnear' (by linarith))
  have hle : |m - m'| ≤ 1 := by
    have hrat : |(m : Rat) - m'| ≤ 1 := by linarith
    exact_mod_cast hrat
  have hbounds := abs_le.1 hle
  omega

/-- Reflection at an even integer swaps the two integers around a tie and keeps which of them is even. -/
theorem reflect (h : IsRounded m t) {M : Int} (hM : Even M) : IsRounded (M - m) (M - t) := by
  have habs : |((M - m : Int) : Rat) - (M - t)| = |(m : Rat) - t| := by
    rw [← abs_neg]
    push_cast
    ring_nf
  refine ⟨habs ▸ h.near, fun htie => ?_⟩
  exact hM.sub (h.even_of_tie (habs ▸ htie))

/-- Dropping a fraction of at most a half. -/
theorem down {q : Int} {ρ : Rat} (hpos : 0 ≤ ρ) (hle : ρ ≤ 1 / 2) (heven : ρ = 1 / 2 → Even q) :
    IsRounded q (q + ρ) := by
  have habs : |(q : Rat) - (q + ρ)| = ρ := by
    rw [sub_add_cancel_left, abs_neg, abs_of_nonneg hpos]
  exact ⟨habs.le.trans hle, fun htie => heven (habs.symm.trans htie)⟩

/-- Adding what a fraction of at least a half lacks. -/
theorem up {q : Int} {ρ : Rat} (hlt : ρ ≤ 1) (hle : 1 / 2 ≤ ρ) (heven : ρ = 1 / 2 → Even (q + 1)) :
    IsRounded (q + 1) (q + ρ) := by
  have habs : |((q + 1 : Int) : Rat) - (q + ρ)| = 1 - ρ := by
    rw [← abs_of_nonneg (sub_nonneg.2 hlt)]
    push_cast
    ring_nf
  refine ⟨by rw [habs]; linarith, fun htie => heven ?_⟩
  rw [habs] at htie
  linarith

end IsRounded

theorem isRounded_roundHalfEven (num : Nat) {den : Nat} (hden : 0 < den) :
    IsRounded (roundHalfEven num den) (num / den) := by
  have hden' : (0 : Rat) < den := by exact_mod_cast hden
  obtain ⟨q, hq⟩ : ∃ q, q = num / den := ⟨_, rfl⟩
  obtain ⟨r, hr⟩ : ∃ r, r = num % den := ⟨_, rfl⟩
  have hnum : (num : Rat) / den = (q : Int) + (r : Rat) / den := by
    have hdiv : num = den * q + r := by rw [hq, hr, Nat.div_add_mod]
    rw [hdiv]
    push_cast
    field_simp
  have hlt : (r : Rat) / den ≤ 1 := by
    rw [div_le_one hden', hr]
    exact_mod_cast (Nat.mod_lt num hden).le
  have hhalf : (r : Rat) / den ≤ 1 / 2 ↔ 2 * r ≤ den := by
    rw [div_le_div_iff₀ hden' two_pos, one_mul, mul_comm]
    exact_mod_cast Iff.rfl
  have hhalf' : 1 / 2 ≤ (r : Rat) / den ↔ den ≤ 2 * r := by
    rw [div_le_div_iff₀ two_pos hden', one_mul, mul_comm (r : Rat)]
    exact_mod_cast Iff.rfl
  have htie : (r : Rat) / den = 1 / 2 → 2 * r = den := fun h =>
    le_antisymm (hhalf.1 h.le) (hhalf'.1 h.ge)
  rw [hnum]
  unfold roundHalfEven
  rw [← hq, ← hr]
  dsimp only
  split_ifs with hsmall hlarge heven
  · exact .down (by positivity) (hhalf.2 hsmall.le) fun h => absurd (htie h) hsmall.ne
  · rw [Nat.cast_succ]
    exact .up hlt (hhalf'.2 hlarge.le) fun h => absurd (htie h) hlarge.ne'
  · exact .down (by positivity) (hhalf.2 (by omega)) fun _ => by
      rw [Int.even_coe_nat]
      exact Nat.even_iff.2 heven
  · rw [Nat.cast_succ]
    refine .up hlt (hhalf'.2 (by omega)) fun _ => ?_
    rw [Int.even_add_one, Int.even_coe_nat]
    exact fun h => heven (Nat.even_iff.1 h)

/-! ### Scaled numbers -/

section
variable {x : Rat} {k : Nat}

/-- A number in units of `10 ^ (-k)` is rounded to the nearest one. -/
theorem isRounded_scaled (k : Nat) (h : 0 ≤ x) : IsRounded (scaled k x) (x * 10 ^ k) := by
  have hnum : ((x.num.toNat : Nat) : Rat) = x.num := by
    exact_mod_cast Int.toNat_of_nonneg (Rat.num_nonneg.2 h)
  have hx : ((x.num.toNat * 10 ^ k : Nat) : Rat) / x.den = x * 10 ^ k := by
    push_cast
    rw [hnum, mul_div_right_comm, Rat.num_div_den]
  have hrounded := isRounded_roundHalfEven (x.num.toNat * 10 ^ k) x.den_pos
  rwa [hx] at hrounded

theorem scaled_eq {m : Nat} (hx : 0 ≤ x) (h : IsRounded m (x * 10 ^ k)) : scaled k x = m := by
  exact_mod_cast (isRounded_scaled k hx).unique h

/-- A number and what it lacks to one are rounded to units that add up to one. -/
theorem scaled_add_scaled (hk : 0 < k) (hx : 0 ≤ x) (hx1 : x ≤ 1) :
    scaled k x + scaled k (1 - x) = 10 ^ k := by
  have heven : Even ((10 : Int) ^ k) := (by decide : Even (10 : Int)).pow_of_ne_zero hk.ne'
  have hreflect := (isRounded_scaled k hx).reflect heven
  have hrest : ((10 ^ k : Int) : Rat) - x * 10 ^ k = (1 - x) * 10 ^ k := by
    push_cast
    ring
  rw [hrest] at hreflect
  have hunique := (isRounded_scaled k (sub_nonneg.2 hx1)).unique hreflect
  have hsum : (scaled k x : Int) + scaled k (1 - x) = 10 ^ k := by rw [hunique]; ring
  exact_mod_cast hsum

theorem scaled_div (k m : Nat) : scaled k (m / 10 ^ k) = m := by
  apply scaled_eq (by positivity)
  rw [div_mul_cancel₀ _ (by positivity)]
  exact_mod_cast IsRounded.intCast m

theorem scaled_close (k : Nat) (hx : 0 ≤ x) :
    |(scaled k x : Rat) / 10 ^ k - x| ≤ 1 / 2 / 10 ^ k := by
  have hpos : (0 : Rat) < 10 ^ k := by positivity
  have hsplit : (scaled k x : Rat) / 10 ^ k - x = (scaled k x - x * 10 ^ k) / 10 ^ k := by
    field_simp
  rw [hsplit, abs_div, abs_of_pos hpos]
  apply div_le_div_of_nonneg_right _ hpos.le
  exact_mod_cast (isRounded_scaled k hx).near

end

/-! ### Reading -/

/-- The value of a number written with a decimal point. -/
def readFixed (text : List Char) : Rat :=
  let whole := text.takeWhile (· ≠ '.')
  let decimals := (text.dropWhile (· ≠ '.')).drop 1
  (Nat.ofDigitChars 10 (whole ++ decimals) 0 : Nat) / 10 ^ decimals.length

theorem ofDigitChars_lastDigits (k m init : Nat) :
    Nat.ofDigitChars 10 (lastDigits k m) init = 10 ^ k * init + m % 10 ^ k := by
  induction k generalizing m with
  | zero => simp [lastDigits, Nat.mod_one]
  | succ k ih =>
      have hdigit : m % 10 < 10 := Nat.mod_lt m (by decide)
      rw [lastDigits, Nat.ofDigitChars_append, ih, Nat.ofDigitChars_cons_digitChar_of_lt_ten hdigit,
        Nat.ofDigitChars_nil, pow_succ', Nat.mod_mul]
      ring

/-- Reading gives back the rounded number. -/
theorem readFixed_printfFixed (k : Nat) (x : Rat) :
    readFixed (printfFixed k x) = scaled k x / 10 ^ k := by
  have hdigits : ∀ c ∈ Nat.toDigits 10 (scaled k x / 10 ^ k), decide (c ≠ '.') = true := by
    intro c hc
    have hdigit := Nat.isDigit_of_mem_toDigits (by decide) (by decide) hc
    rw [decide_eq_true_iff]
    rintro rfl
    simp [Char.isDigit] at hdigit
  have hwhole : (printfFixed k x).takeWhile (· ≠ '.') = Nat.toDigits 10 (scaled k x / 10 ^ k) := by
    rw [printfFixed, List.takeWhile_append_of_pos hdigits]
    simp
  have hdecimals : ((printfFixed k x).dropWhile (· ≠ '.')).drop 1 =
      lastDigits k (scaled k x % 10 ^ k) := by
    rw [printfFixed, List.dropWhile_append_of_pos hdigits]
    simp
  rw [readFixed, hwhole, hdecimals, Nat.ofDigitChars_append,
    Nat.ofDigitChars_toDigits (by decide) (by decide), ofDigitChars_lastDigits, Nat.mod_mod,
    Nat.div_add_mod, length_lastDigits]

/-- A printed number is printed the same once it has been read. -/
theorem printfFixed_readFixed (k : Nat) (x : Rat) :
    printfFixed k (readFixed (printfFixed k x)) = printfFixed k x := by
  rw [readFixed_printfFixed, printfFixed, scaled_div, ← printfFixed]

end Stdio
