import CalcHeuristics.Stdio.Decimal
import Mathlib.Algebra.Order.Field.Power
import Mathlib.Data.Int.Log

/-!
# Rounding to a floating-point format

The numbers of a format are the integers of its precision, scaled by powers of two from its smallest
exponent on. `nearest` rounds on the grid of the binade in which a number lies, ties to even. It does not
cross a number of the format (`le_nearest`, `nearest_le`), so it compares with such a number as the
number that was rounded does.
-/

namespace FloatingPoint

open Stdio

/-- The nearest integer, the even one of two. -/
def roundEven (x : Rat) : Int := if 0 ≤ x then scaled 0 x else -scaled 0 (-x)

theorem isRounded_roundEven (x : Rat) : IsRounded (roundEven x) x := by
  rw [roundEven]
  split
  · rename_i hx
    simpa using isRounded_scaled 0 hx
  · rename_i hx
    have hneg := isRounded_scaled 0 (neg_nonneg.2 (not_le.1 hx).le)
    simpa using hneg.reflect Even.zero

theorem roundEven_eq {m : Int} {x : Rat} (h : IsRounded m x) : roundEven x = m :=
  (isRounded_roundEven x).unique h

/-- Rounding does not cross an integer. -/
theorem le_roundEven {m : Int} {x : Rat} (h : (m : Rat) ≤ x) : m ≤ roundEven x := by
  have hnear := abs_le.1 (isRounded_roundEven x).near
  have hlt : ((m - 1 : Int) : Rat) < roundEven x := by
    push_cast
    linarith
  have hlt' : m - 1 < roundEven x := by exact_mod_cast hlt
  omega

theorem roundEven_le {m : Int} {x : Rat} (h : x ≤ m) : roundEven x ≤ m := by
  have hnear := abs_le.1 (isRounded_roundEven x).near
  have hlt : (roundEven x : Rat) < ((m + 1 : Int) : Rat) := by
    push_cast
    linarith
  have hlt' : roundEven x < m + 1 := by exact_mod_cast hlt
  omega

/-- A value of a format that is bounded above; the zeros are not told apart. -/
inductive Datum where
  | finite (x : Rat)
  | infinite (negative : Bool)
  | nan
  deriving DecidableEq

/-- A value rounded to an integer. -/
def Datum.round : Datum → Datum
  | finite x => finite (roundEven x)
  | infinite negative => infinite negative
  | nan => nan

structure Format where
  precision : Nat
  minExponent : Int

/-- IEEE 754 double precision. -/
def binary64 : Format := ⟨53, -1074⟩

namespace Format

/-- The numbers of the format, without a bound above. -/
def Contains (fmt : Format) (v : Rat) : Prop :=
  ∃ (m e : Int), |m| < 2 ^ fmt.precision ∧ fmt.minExponent ≤ e ∧ v = m * (2 : Rat) ^ e

/-- The exponent of the grid around a positive number. -/
def exponent (fmt : Format) (x : Rat) : Int :=
  max (Int.log 2 x + 1 - fmt.precision) fmt.minExponent

/-- The number of the format nearest to `x`, without a bound above. -/
def nearest (fmt : Format) (x : Rat) : Rat :=
  let e := fmt.exponent |x|
  roundEven (x / (2 : Rat) ^ e) * (2 : Rat) ^ e

section
variable {fmt : Format} {x v : Rat}

/-- The numbers of the format that are not below the binade of `x` lie on the grid of `x`. -/
theorem Contains.onGrid (hv : fmt.Contains v) (hbinade : (2 : Rat) ^ Int.log 2 x ≤ v) :
    ∃ k : Int, v = k * (2 : Rat) ^ fmt.exponent x := by
  obtain ⟨m, e, hm, he, rfl⟩ := hv
  have hle : fmt.exponent x ≤ e := by
    refine max_le ?_ he
    have hm' : (m : Rat) < (2 : Rat) ^ (fmt.precision : Int) := by
      rw [zpow_natCast]
      exact_mod_cast (abs_lt.1 hm).2
    have hlt : (2 : Rat) ^ Int.log 2 x < (2 : Rat) ^ (fmt.precision + e : Int) := by
      rw [zpow_add₀ two_ne_zero]
      exact hbinade.trans_lt (mul_lt_mul_of_pos_right hm' (by positivity))
    have := (zpow_lt_zpow_iff_right₀ (by norm_num : (1 : Rat) < 2)).1 hlt
    omega
  obtain ⟨d, hd⟩ := Int.eq_ofNat_of_zero_le (sub_nonneg.2 hle)
  refine ⟨m * 2 ^ d, ?_⟩
  rw [show e = d + fmt.exponent x by omega, zpow_add₀ two_ne_zero, zpow_natCast]
  push_cast
  ring

theorem nearest_zero (fmt : Format) : fmt.nearest 0 = 0 := by
  have hzero : roundEven 0 = 0 := roundEven_eq (by simpa using IsRounded.intCast 0)
  rw [nearest, zero_div, hzero]
  simp

theorem le_nearest_of_grid {k : Int} (hx : 0 ≤ x) (h : k * (2 : Rat) ^ fmt.exponent x ≤ x) :
    k * (2 : Rat) ^ fmt.exponent x ≤ fmt.nearest x := by
  have hpos : (0 : Rat) < 2 ^ fmt.exponent x := by positivity
  rw [nearest, abs_of_nonneg hx]
  refine mul_le_mul_of_nonneg_right ?_ hpos.le
  exact_mod_cast le_roundEven ((le_div_iff₀ hpos).2 h)

theorem nearest_le_of_grid {k : Int} (hx : 0 ≤ x) (h : x ≤ k * (2 : Rat) ^ fmt.exponent x) :
    fmt.nearest x ≤ k * (2 : Rat) ^ fmt.exponent x := by
  have hpos : (0 : Rat) < 2 ^ fmt.exponent x := by positivity
  rw [nearest, abs_of_nonneg hx]
  refine mul_le_mul_of_nonneg_right ?_ hpos.le
  exact_mod_cast roundEven_le ((div_le_iff₀ hpos).2 h)

theorem nearest_le (hx : 0 ≤ x) (hv : fmt.Contains v) (h : x ≤ v) : fmt.nearest x ≤ v := by
  obtain rfl | hpos := hx.eq_or_lt
  · rwa [nearest_zero]
  · obtain ⟨k, rfl⟩ := hv.onGrid ((Int.zpow_log_le_self one_lt_two hpos).trans h)
    exact nearest_le_of_grid hx h

/-- The beginning of a binade is on the grid of the numbers in it, unless the numbers are so small that
all of the format is. -/
theorem le_nearest (hx : 0 ≤ x) (hprecision : 0 < fmt.precision) (hv : fmt.Contains v) (h : v ≤ x) :
    v ≤ fmt.nearest x := by
  obtain rfl | hpos := hx.eq_or_lt
  · rwa [nearest_zero]
  obtain hlow | hbinade := lt_or_ge v ((2 : Rat) ^ Int.log 2 x)
  · obtain hgrid | hgrid := le_total (Int.log 2 x + 1 - fmt.precision) fmt.minExponent
    · obtain ⟨m, e, hm, he, rfl⟩ := hv
      obtain ⟨d, hd⟩ := Int.eq_ofNat_of_zero_le (sub_nonneg.2 he)
      have hexponent : fmt.exponent x = fmt.minExponent := max_eq_right hgrid
      have hv : (m : Rat) * 2 ^ e = (m * 2 ^ d : Int) * (2 : Rat) ^ fmt.exponent x := by
        rw [hexponent, show e = d + fmt.minExponent by omega, zpow_add₀ two_ne_zero, zpow_natCast]
        push_cast
        ring
      rw [hv] at h ⊢
      exact le_nearest_of_grid hx h
    · have hexponent : fmt.exponent x = Int.log 2 x + 1 - fmt.precision := max_eq_left hgrid
      have hstart : (2 : Rat) ^ Int.log 2 x =
          (2 ^ (fmt.precision - 1) : Int) * (2 : Rat) ^ fmt.exponent x := by
        push_cast
        rw [hexponent, ← zpow_natCast, ← zpow_add₀ two_ne_zero]
        congr 1
        omega
      refine hlow.le.trans ?_
      have hle := Int.zpow_log_le_self (b := 2) one_lt_two hpos
      push_cast at hle
      rw [hstart] at hle ⊢
      exact le_nearest_of_grid hx hle
  · obtain ⟨k, rfl⟩ := hv.onGrid hbinade
    exact le_nearest_of_grid hx h

theorem nearest_of_contains (hx : 0 ≤ x) (hprecision : 0 < fmt.precision) (h : fmt.Contains x) :
    fmt.nearest x = x :=
  le_antisymm (nearest_le hx h le_rfl) (le_nearest hx hprecision h le_rfl)

/-- Two numbers of the format keep what is around them apart. -/
theorem nearest_lt_nearest {w y : Rat} (hx : 0 ≤ x) (hprecision : 0 < fmt.precision)
    (hv : fmt.Contains v) (hw : fmt.Contains w) (hxv : x ≤ v) (hvw : v < w) (hwy : w ≤ y) :
    fmt.nearest x < fmt.nearest y :=
  calc fmt.nearest x ≤ v := nearest_le hx hv hxv
    _ < w := hvw
    _ ≤ fmt.nearest y := le_nearest (hx.trans (hxv.trans (hvw.le.trans hwy))) hprecision hw hwy

end

end Format

end FloatingPoint
