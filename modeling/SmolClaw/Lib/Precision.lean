/-
  Floating-point numbers, and how many digits of another base identify one.

  1. **Formats** — `Canonical`: a number `s * β ^ e` with `p` digits in base `β` and no exponent below
     `least`, written with the least exponent there is room for.

  2. **Neighbourhoods** — `Within x s e`: `x` is nearer to `s * β ^ e` than half the way to the next
     number of the format on either side.  The gap below a power of the base is smaller than the one
     above.  `Within.exponent` finds the exponent of the number from the size of `x`.

  3. **Identification** — `within_of_digits`: rounded to `n` digits of a base `B`, a number of the
     format stays in its neighbourhood when `β ^ p < B ^ (n - 1)`.
-/
import Mathlib.Algebra.Order.Field.Rat
import Mathlib.Algebra.Order.Archimedean.Basic
import Mathlib.Tactic.Linarith
import Mathlib.Tactic.Ring
import Mathlib.Tactic.Positivity

namespace Lib.Precision

/-! ## Powers -/

/-- A power with a negative exponent is a quotient. -/
theorem zpow_split {b : ℚ} (hb : b ≠ 0) (k : ℤ) : b ^ k = b ^ k.toNat / b ^ (-k).toNat := by
  rw [← zpow_natCast, ← zpow_natCast, ← zpow_sub₀ hb]
  congr 1
  omega

/-- A whole number is as near to `x` as a whole number can be. -/
theorem whole_eq_of_near {x : ℚ} {m n : ℕ} (hm : |x - m| < 1 / 2) (hn : |x - n| ≤ 1 / 2) : m = n := by
  rw [abs_lt] at hm
  rw [abs_le] at hn
  have hlow : (m : ℚ) < n + 1 := by linarith [hm.2, hn.1]
  have hhigh : (n : ℚ) < m + 1 := by linarith [hm.1, hn.2]
  have hlow' : m < n + 1 := by exact_mod_cast hlow
  have hhigh' : n < m + 1 := by exact_mod_cast hhigh
  omega

/-- The powers between which a number lies have one exponent. -/
theorem exponent_lt {b x : ℚ} (hb : 1 < b) {k j : ℤ} (hlow : b ^ k ≤ x) (hhigh : x < b ^ j) : k < j :=
  (zpow_lt_zpow_iff_right₀ hb).mp (lt_of_le_of_lt hlow hhigh)

/-! ## Formats -/

section Format

variable (β p : ℕ) (least : ℤ)

/-- A number with `p` digits, written with the least exponent that leaves room for them. -/
structure Canonical (s : ℕ) (e : ℤ) : Prop where
  digits : s < β ^ p
  least_le : least ≤ e
  normal : least < e → β ^ (p - 1) ≤ s

/-- Nearer than half the way to the next number on either side. -/
structure Within (x : ℚ) (s : ℕ) (e : ℤ) : Prop where
  near : |x - s * (β : ℚ) ^ e| < (β : ℚ) ^ e / 2
  below : s = β ^ (p - 1) → least < e → s * (β : ℚ) ^ e - x < (β : ℚ) ^ (e - 1) / 2

end Format

section Neighbourhood

variable {β p : ℕ} {least : ℤ} {x : ℚ} {s : ℕ} {e : ℤ}

/-- A number is in its own neighbourhood. -/
theorem Within.self (hβ : 0 < β) : Within β p least (s * (β : ℚ) ^ e) s e := by
  have hβQ : (0 : ℚ) < β := by exact_mod_cast hβ
  constructor
  · rw [sub_self, abs_zero]
    exact half_pos (zpow_pos hβQ e)
  · intro _ _
    rw [sub_self]
    exact half_pos (zpow_pos hβQ (e - 1))

/-- **The exponent of a number from the size of anything in its neighbourhood**: it is what the leading
    digit says, or one more when the number is a power of the base and `x` lies below it. -/
theorem Within.exponent (hβ : 2 ≤ β) (hp : 1 ≤ p) (hs : Canonical β p least s e)
    (hx : Within β p least x s e) {k : ℤ} (hlow : (β : ℚ) ^ k ≤ x) (hhigh : x < (β : ℚ) ^ (k + 1)) :
    max (k - (p - 1)) least = e ∨
      (s = β ^ (p - 1) ∧ least < e ∧ x < s * (β : ℚ) ^ e ∧ max (k - (p - 1)) least = e - 1) := by
  have hβ2 : (2 : ℚ) ≤ β := by exact_mod_cast hβ
  have hβ1 : (1 : ℚ) < β := by linarith
  have hβ0 : (β : ℚ) ≠ 0 := by linarith
  have hunit : (0 : ℚ) < (β : ℚ) ^ e := zpow_pos (by linarith) e
  obtain ⟨hnear, hnear'⟩ := abs_lt.mp hx.near
  have hdigits : (s : ℚ) + 1 ≤ (β : ℚ) ^ p := by exact_mod_cast hs.digits
  -- no digit to the left of the ones there is room for
  have htop : k < e + p := by
    apply exponent_lt hβ1 hlow
    rw [zpow_add₀ hβ0, zpow_natCast]
    nlinarith
  have hleast := hs.least_le
  by_cases hfloor : e = least
  · left
    omega
  · have habove : least < e := by omega
    have hnormal : ((β : ℚ) ^ (p - 1)) ≤ s := by exact_mod_cast hs.normal habove
    have hpower : (β : ℚ) ^ (e + (p - 1 : ℕ)) = (β : ℚ) ^ (p - 1) * (β : ℚ) ^ e := by
      rw [zpow_add₀ hβ0, zpow_natCast, mul_comm]
    by_cases hin : (β : ℚ) ^ (e + (p - 1 : ℕ)) ≤ x
    · left
      have hge := exponent_lt hβ1 hin hhigh
      omega
    · right
      -- below its binade `x` is near the power of the base only
      have hout : x < (β : ℚ) ^ (p - 1) * (β : ℚ) ^ e := by
        rw [← hpower]
        exact lt_of_not_ge hin
      have hs' : (s : ℚ) < (β : ℚ) ^ (p - 1) + 1 := by nlinarith
      have heq : s = β ^ (p - 1) := by
        have hlt : s < β ^ (p - 1) + 1 := by exact_mod_cast hs'
        have hge := hs.normal habove
        omega
      have hvalue : (s : ℚ) * (β : ℚ) ^ e = (β : ℚ) ^ (e + (p - 1 : ℕ)) := by
        rw [hpower, heq]
        push_cast
        rfl
      have hbelow := hx.below heq habove
      have hone : (β : ℚ) ^ e = β * (β : ℚ) ^ (e - 1) := by
        rw [zpow_sub_one₀ hβ0]
        field_simp
      have hstep : (0 : ℚ) < (β : ℚ) ^ (e - 1) := zpow_pos (by linarith) _
      have hpow1 : (1 : ℚ) ≤ (β : ℚ) ^ (p - 1) := one_le_pow₀ (by linarith)
      have hge : (β : ℚ) ^ (e - 1 + (p - 1 : ℕ)) ≤ x := by
        have hprev : (β : ℚ) ^ (e - 1 + (p - 1 : ℕ)) = (β : ℚ) ^ (p - 1) * (β : ℚ) ^ (e - 1) := by
          rw [zpow_add₀ hβ0, zpow_natCast, mul_comm]
        rw [hprev]
        rw [hvalue, hpower, hone] at hbelow
        nlinarith [mul_le_mul_of_nonneg_right hpow1 hstep.le, mul_pos (lt_of_lt_of_le one_pos hpow1) hstep]
      have hlo := exponent_lt hβ1 hge hhigh
      have hhi := exponent_lt hβ1 hlow (by rw [hpower]; exact hout)
      refine ⟨heq, habove, ?_, by omega⟩
      rw [hvalue, hpower]
      exact hout

/-- **So many digits identify a number**: `d` is `s * β ^ e` rounded in its `n`-th digit, `t` the unit of
    that digit. -/
theorem within_of_digits (hβ : 2 ≤ β) (hp : 1 ≤ p) (hs : Canonical β p least s e) {B n : ℕ}
    (hdigits : β ^ p < B ^ (n - 1)) {d t : ℚ} (ht : (B : ℚ) ^ (n - 1) * t ≤ s * (β : ℚ) ^ e)
    (hd : |d - s * (β : ℚ) ^ e| ≤ t / 2) : Within β p least d s e := by
  have hβ2 : (2 : ℚ) ≤ β := by exact_mod_cast hβ
  have hβ0 : (β : ℚ) ≠ 0 := by linarith
  have hunit : (0 : ℚ) < (β : ℚ) ^ e := zpow_pos (by linarith) e
  have hB : ((β : ℚ) ^ p) < (B : ℚ) ^ (n - 1) := by exact_mod_cast hdigits
  have hsmall : (s : ℚ) < (β : ℚ) ^ p := by exact_mod_cast hs.digits
  have hβp : (0 : ℚ) < (β : ℚ) ^ p := by positivity
  constructor
  · have hlt : t < (β : ℚ) ^ e := by
      by_contra hge
      have hge' : (β : ℚ) ^ e ≤ t := le_of_not_gt hge
      nlinarith
    linarith
  · intro heq _
    have hone : (β : ℚ) ^ e = β * (β : ℚ) ^ (e - 1) := by
      rw [zpow_sub_one₀ hβ0]
      field_simp
    have hstep : (0 : ℚ) < (β : ℚ) ^ (e - 1) := zpow_pos (by linarith) _
    have hvalue : (s : ℚ) * (β : ℚ) ^ e = (β : ℚ) ^ p * (β : ℚ) ^ (e - 1) := by
      obtain ⟨q, rfl⟩ : ∃ q, p = q + 1 := ⟨p - 1, by omega⟩
      rw [hone, heq]
      rw [Nat.add_sub_cancel]
      push_cast
      ring
    have hlt : t < (β : ℚ) ^ (e - 1) := by
      by_contra hge
      have hge' : (β : ℚ) ^ (e - 1) ≤ t := le_of_not_gt hge
      rw [hvalue] at ht
      nlinarith
    have hlow := (abs_le.mp hd).1
    linarith

end Neighbourhood

end Lib.Precision
