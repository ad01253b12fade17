import Mathlib.Data.Rat.Defs
import Mathlib.Algebra.Order.Ring.Unbundled.Rat
import Mathlib.Tactic.Linarith

/-!
# Fixed-point output

The conversion of a non-negative number to a given number of decimals: the number is scaled and rounded
to the nearest integer, ties going to the even one, and the digits are written with the decimal point in
place. Numbers up to one all come out with the same number of characters.
-/

namespace Stdio

/-- `num / den` rounded to the nearest integer, ties to even. -/
def roundHalfEven (num den : Nat) : Nat :=
  let q := num / den
  let r := num % den
  if 2 * r < den then q
  else if den < 2 * r then q + 1
  else if q % 2 = 0 then q else q + 1

/-- The last `k` decimal digits of a number. -/
def lastDigits : Nat → Nat → List Char
  | 0, _ => []
  | k + 1, m => lastDigits k (m / 10) ++ [Nat.digitChar (m % 10)]

/-- A non-negative number in units of `10 ^ (-k)`. -/
def scaled (k : Nat) (x : Rat) : Nat := roundHalfEven (x.num.toNat * 10 ^ k) x.den

/-- A non-negative number with `k` decimals, `k` not zero. -/
def printfFixed (k : Nat) (x : Rat) : List Char :=
  Nat.toDigits 10 (scaled k x / 10 ^ k) ++ '.' :: lastDigits k (scaled k x % 10 ^ k)

@[simp] theorem length_lastDigits (k m : Nat) : (lastDigits k m).length = k := by
  induction k generalizing m with
  | zero => rfl
  | succ k ih => rw [lastDigits, List.length_append, ih, List.length_singleton]

theorem isDigit_of_mem_lastDigits {k m : Nat} {c : Char} (hc : c ∈ lastDigits k m) :
    c.isDigit = true := by
  induction k generalizing m with
  | zero => simp [lastDigits] at hc
  | succ k ih =>
      obtain hc | hc := List.mem_append.1 hc
      · exact ih hc
      · have hdigit : m % 10 < 10 := Nat.mod_lt m (by decide)
        rw [List.mem_singleton.1 hc, Nat.isDigit_digitChar]
        exact decide_eq_true hdigit

theorem roundHalfEven_le {num den bound : Nat} (hden : 0 < den) (h : num ≤ bound * den) :
    roundHalfEven num den ≤ bound := by
  have hdiv := Nat.div_add_mod num den
  have hmod := Nat.mod_lt num hden
  have hq : num / den ≤ bound := Nat.div_le_of_le_mul (by rwa [Nat.mul_comm])
  have hup : 0 < num % den → num / den + 1 ≤ bound := by
    intro hr
    have hlt : den * (num / den) < den * bound := by
      rw [Nat.mul_comm den bound]
      omega
    exact Nat.lt_of_mul_lt_mul_left hlt
  unfold roundHalfEven
  dsimp only
  split_ifs with h1 h2 h3
  · exact hq
  · exact hup (by omega)
  · exact hq
  · exact hup (by omega)

theorem scaled_le {x : Rat} (k : Nat) (h : x ≤ 1) : scaled k x ≤ 10 ^ k := by
  apply roundHalfEven_le x.den_pos
  have hnum : x.num ≤ x.den := Rat.num_le_denom_iff.2 h
  have : x.num.toNat ≤ x.den := by omega
  rw [Nat.mul_comm]
  exact Nat.mul_le_mul_left _ this

/-- What is written for a number up to one: a digit, the point and the decimals. -/
theorem printfFixed_unit {x : Rat} (k : Nat) (h : x ≤ 1) :
    ∃ d < 10, printfFixed k x =
      Nat.digitChar d :: '.' :: lastDigits k (scaled k x % 10 ^ k) := by
  have hle := scaled_le k h
  have hdiv : scaled k x / 10 ^ k ≤ 1 := Nat.div_le_of_le_mul (by omega)
  obtain hd | hd := Nat.le_one_iff_eq_zero_or_eq_one.1 hdiv
  · exact ⟨0, by decide, by rw [printfFixed, hd]; rfl⟩
  · exact ⟨1, by decide, by rw [printfFixed, hd]; rfl⟩

theorem length_printfFixed {x : Rat} (k : Nat) (h : x ≤ 1) :
    (printfFixed k x).length = k + 2 := by
  obtain ⟨d, _, hd⟩ := printfFixed_unit k h
  rw [hd, List.length_cons, List.length_cons, length_lastDigits]

/-- Only digits and the point are written. -/
theorem not_mem_printfFixed {c : Char} (hc : c.isDigit = false) (hpoint : c ≠ '.') (k : Nat)
    (x : Rat) : c ∉ printfFixed k x := by
  intro hmem
  have hdigit : c.isDigit = true := by
    obtain hwhole | hmem := List.mem_append.1 hmem
    · exact Nat.isDigit_of_mem_toDigits (by decide) (by decide) hwhole
    · exact isDigit_of_mem_lastDigits ((List.mem_cons.1 hmem).resolve_left hpoint)
  exact Bool.false_ne_true (hc.symm.trans hdigit)

end Stdio
