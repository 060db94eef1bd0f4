/-
  Which decimal numbers `strtod` takes for a given `double` (`parse_number`, `src/json/json.c`).

  1. **Rounding** — `roundHalfEven` is within a half of the quotient (`roundHalfEven_near`), and so the
     one whole number that is nearer.

  2. **Parts** — a finite `double` is a number of the format with 53 binary digits and the least
     exponent -1074 (`canonical_of_finite`); its bits are its exponent and its digits put together.

  3. **Nearest** — `nearest_of_within`: a quotient in the neighbourhood of such a number is rounded to
     it.

  4. **Integers** — what `%.0f` prints of an integer below `2 ^ 53` is read back as THE SAME `double`, the
     sign of zero included (`strtod_formatFixed0`).
-/
import SmolClaw.Core.Printed
import SmolClaw.Lib.Precision
import Mathlib.Tactic.FieldSimp

namespace SmolClaw

open Lib.Precision

namespace Double

/-! ## Rounding -/

/-- The rounded quotient is at most a half away. -/
theorem roundHalfEven_near (num : Nat) {den : Nat} (hden : 0 < den) :
    |(num / den : ℚ) - roundHalfEven num den| ≤ 1 / 2 := by
  have hdenQ : (0 : ℚ) < den := by exact_mod_cast hden
  have hsplit : (num : ℚ) = den * (num / den : ℕ) + (num % den : ℕ) := by
    exact_mod_cast (Nat.div_add_mod num den).symm
  have hquot : (num / den : ℚ) = (num / den : ℕ) + (num % den : ℕ) / den := by
    nth_rewrite 1 [hsplit]
    field_simp
  have hmod : num % den < den := Nat.mod_lt num hden
  rw [abs_le, hquot, roundHalfEven]
  split
  next hup =>
    have hhalf : den ≤ 2 * (num % den) := by omega
    have hhalfQ : (den : ℚ) ≤ 2 * (num % den : ℕ) := by exact_mod_cast hhalf
    have hmodQ : ((num % den : ℕ) : ℚ) < den := by exact_mod_cast hmod
    have hlow : (1 : ℚ) / 2 ≤ (num % den : ℕ) / den := by rw [div_le_div_iff₀ two_pos hdenQ]; linarith
    have hhigh : ((num % den : ℕ) : ℚ) / den < 1 := by rw [div_lt_one hdenQ]; exact hmodQ
    push_cast
    constructor <;> linarith
  next hdown =>
    have hhalf : 2 * (num % den) ≤ den := by omega
    have hhalfQ : (2 : ℚ) * (num % den : ℕ) ≤ den := by exact_mod_cast hhalf
    have hlow : (0 : ℚ) ≤ (num % den : ℕ) / den := by positivity
    have hhigh : ((num % den : ℕ) : ℚ) / den ≤ 1 / 2 := by rw [div_le_div_iff₀ hdenQ two_pos]; linarith
    constructor <;> linarith

/-- The whole number nearer than a half. -/
theorem roundHalfEven_eq {num den m : Nat} (hden : 0 < den) (h : |(num / den : ℚ) - m| < 1 / 2) :
    roundHalfEven num den = m :=
  (whole_eq_of_near h (roundHalfEven_near num hden)).symm

/-! ## Parts -/

/-- A finite value has 53 binary digits. -/
theorem canonical_of_finite {d : Double} (h : d.isFinite = true) :
    Canonical 2 53 (-1074) d.significand d.exponent where
  digits := (parts_bounds h).1
  least_le := by
    rw [exponent]
    omega
  normal hlt := by
    rw [exponent] at hlt
    rw [significand, if_neg (by omega)]
    exact Nat.le_add_right _ _

/-- The bits of a value from its parts. -/
theorem magnitude_parts (d : Double) : d.magnitude = (d.exponent + 1074).toNat * 2 ^ 52 + d.significand := by
  rw [exponent, significand]
  split <;> omega

/-! ## Nearest -/

/-- A scaled comparison, with the negative exponent on the other side. -/
theorem scaled_lt {num den : Nat} (hden : 0 < den) (k : Int) :
    num * 2 ^ (-k).toNat < den * 2 ^ k.toNat ↔ (num / den : ℚ) < (2 : ℚ) ^ k := by
  have hdenQ : (0 : ℚ) < den := by exact_mod_cast hden
  have hpow : (0 : ℚ) < 2 ^ (-k).toNat := by positivity
  rw [zpow_split two_ne_zero, div_lt_div_iff₀ hdenQ hpow, mul_comm ((2 : ℚ) ^ k.toNat)]
  exact_mod_cast Iff.rfl

/-- The quotient in units of a power of the base. -/
theorem scaled_div {b : Nat} (hb : 0 < b) (num den : Nat) (k : Int) :
    ((num * b ^ (-k).toNat : Nat) : ℚ) / ((den * b ^ k.toNat : Nat) : ℚ) = (num / den : ℚ) / (b : ℚ) ^ k := by
  have hbQ : (0 : ℚ) < b := by exact_mod_cast hb
  rw [zpow_split hbQ.ne']
  push_cast
  have hpow : (b : ℚ) ^ (-k).toNat ≠ 0 := by positivity
  have hpow' : (b : ℚ) ^ k.toNat ≠ 0 := by positivity
  rcases eq_or_ne (den : ℚ) 0 with hzero | hne
  · rw [hzero, zero_mul, div_zero, div_zero, zero_div]
  · field_simp

/-- The exponent of the leading bit of a quotient, as `nearest` finds it. -/
def leadingExponent (num den : Nat) : Int :=
  let e : Int := (Nat.log2 num : Int) - Nat.log2 den
  if num * 2 ^ (-e).toNat < den * 2 ^ e.toNat then e - 1 else e

theorem leadingExponent_bounds {num den : Nat} (hnum : 0 < num) (hden : 0 < den) :
    (2 : ℚ) ^ leadingExponent num den ≤ (num / den : ℚ) ∧
      (num / den : ℚ) < (2 : ℚ) ^ (leadingExponent num den + 1) := by
  have hdenQ : (0 : ℚ) < den := by exact_mod_cast hden
  have hnumLow : ((2 : ℚ) ^ Nat.log2 num) ≤ num := by exact_mod_cast Nat.log2_self_le hnum.ne'
  have hnumHigh : (num : ℚ) < (2 : ℚ) ^ (Nat.log2 num + 1) := by exact_mod_cast Nat.lt_log2_self
  have hdenLow : ((2 : ℚ) ^ Nat.log2 den) ≤ den := by exact_mod_cast Nat.log2_self_le hden.ne'
  have hdenHigh : (den : ℚ) < (2 : ℚ) ^ (Nat.log2 den + 1) := by exact_mod_cast Nat.lt_log2_self
  -- the quotient of the leading bits is at most one place off
  have hlow : (2 : ℚ) ^ ((Nat.log2 num : Int) - Nat.log2 den - 1) ≤ num / den := by
    have hsplit : (2 : ℚ) ^ ((Nat.log2 num : Int) - Nat.log2 den - 1) =
        (2 : ℚ) ^ Nat.log2 num / (2 : ℚ) ^ (Nat.log2 den + 1) := by
      rw [← zpow_natCast, ← zpow_natCast, ← zpow_sub₀ two_ne_zero]
      congr 1
      push_cast
      ring
    rw [hsplit]
    exact div_le_div₀ (by positivity) hnumLow hdenQ hdenHigh.le
  have hhigh : (num / den : ℚ) < (2 : ℚ) ^ ((Nat.log2 num : Int) - Nat.log2 den + 1) := by
    have hsplit : (2 : ℚ) ^ ((Nat.log2 num : Int) - Nat.log2 den + 1) =
        (2 : ℚ) ^ (Nat.log2 num + 1) / (2 : ℚ) ^ Nat.log2 den := by
      rw [← zpow_natCast, ← zpow_natCast, ← zpow_sub₀ two_ne_zero]
      congr 1
      push_cast
      ring
    rw [hsplit]
    exact div_lt_div₀ hnumHigh hdenLow (by positivity) (by positivity)
  rw [leadingExponent]
  by_cases hlt : num * 2 ^ (-((Nat.log2 num : Int) - Nat.log2 den)).toNat <
      den * 2 ^ ((Nat.log2 num : Int) - Nat.log2 den).toNat
  · rw [if_pos hlt]
    exact ⟨hlow, by rw [sub_add_cancel]; exact (scaled_lt hden _).mp hlt⟩
  · rw [if_neg hlt]
    exact ⟨le_of_not_gt fun h => hlt ((scaled_lt hden _).mpr h), hhigh⟩

/-- **A quotient in the neighbourhood of a finite value is rounded to it.** -/
theorem nearest_of_within {num den : Nat} (hden : 0 < den) {s : Nat} {e : Int}
    (hs : Canonical 2 53 (-1074) s e) (hx : Within 2 53 (-1074) (num / den) s e)
    (hfinite : (e + 1074).toNat * 2 ^ 52 + s < infinityBits) :
    nearest num den = (e + 1074).toNat * 2 ^ 52 + s := by
  have hunit : (0 : ℚ) < (2 : ℚ) ^ e := zpow_pos two_pos e
  have hnear := abs_lt.mp hx.near
  push_cast at hnear
  by_cases hzero : num = 0
  · -- nothing but zero is near zero
    have hs0 : (s : ℚ) < 1 := by
      rw [hzero, Nat.cast_zero, zero_div] at hnear
      nlinarith
    have hs0' : s = 0 := by
      have hlt : s < 1 := by exact_mod_cast hs0
      omega
    have he : e = -1074 := by
      have hle := hs.least_le
      by_contra hne
      have hnormal := hs.normal (by omega)
      rw [hs0'] at hnormal
      exact absurd hnormal (by decide)
    rw [nearest, if_pos hzero, hs0', he]
    rfl
  · have hnum : 0 < num := Nat.pos_of_ne_zero hzero
    have hcases := hx.exponent le_rfl (by decide) hs (leadingExponent_bounds hnum hden).1
      (leadingExponent_bounds hnum hden).2
    have hleast := hs.least_le
    have hround : ∀ (k : Int) (m : Nat), max (leadingExponent num den) (-1022) - 52 = k →
        |(num / den : ℚ) / (2 : ℚ) ^ k - m| < 1 / 2 →
        nearest num den = min ((k + 1074).toNat * 2 ^ 52 + m) infinityBits := by
      intro k m hk hm
      have hulp : roundHalfEven (num * 2 ^ (-k).toNat) (den * 2 ^ k.toNat) = m := by
        apply roundHalfEven_eq (Nat.mul_pos hden (Nat.two_pow_pos _))
        rw [scaled_div two_pos]
        exact hm
      have hfield : (max (leadingExponent num den) (-1022) + 1022).toNat = (k + 1074).toNat := by omega
      rw [leadingExponent] at hk hfield
      rw [nearest, if_neg hzero]
      simp only [hk, hulp, hfield]
    rcases hcases with hsame | ⟨heq, habove, hbelow, hprev⟩
    · -- the last place of the quotient is the last place of the value
      rw [hround e s (by omega) ?_, min_eq_left hfinite.le]
      rw [abs_lt]
      constructor
      · rw [lt_sub_iff_add_lt, lt_div_iff₀ hunit]
        linarith [hnear.1]
      · rw [sub_lt_iff_lt_add, div_lt_iff₀ hunit]
        linarith [hnear.2]
    · -- one binade below, where the places are half as wide, the value is the next power of two
      have hgap := hx.below heq habove
      push_cast at hgap hbelow
      have hone : (2 : ℚ) ^ e = 2 * (2 : ℚ) ^ (e - 1) := by
        rw [zpow_sub_one₀ two_ne_zero]
        field_simp
      have hstep : (0 : ℚ) < (2 : ℚ) ^ (e - 1) := zpow_pos two_pos _
      rw [hround (e - 1) (2 * s) (by omega) ?_]
      · have hfield : (e - 1 + 1074).toNat * 2 ^ 52 + 2 * s = (e + 1074).toNat * 2 ^ 52 + s := by
          rw [heq]
          omega
        rw [hfield, min_eq_left hfinite.le]
      · rw [abs_lt]
        push_cast
        constructor
        · rw [lt_sub_iff_add_lt, lt_div_iff₀ hstep]
          rw [hone] at hgap
          linarith
        · rw [sub_lt_iff_lt_add, div_lt_iff₀ hstep]
          rw [hone] at hbelow
          nlinarith

/-- The value of the parts. -/
theorem parts_quotient (s : Nat) (e : Int) :
    ((s * 2 ^ e.toNat : Nat) : ℚ) / ((2 ^ (-e).toNat : Nat) : ℚ) = s * (2 : ℚ) ^ e := by
  rw [zpow_split two_ne_zero]
  push_cast
  rw [mul_div_assoc]

end Double

open Double

/-- **A decimal number in the neighbourhood of a finite value is read as that value.** -/
theorem decimalDouble_of_within {d : Double} (h : d.isFinite = true) {m : Nat} {k : Int} (hm : m ≠ 0)
    (hmin : -1000 ≤ k) (hmax : k ≤ 1000)
    (hx : Within 2 53 (-1074) (m * (10 : ℚ) ^ k) d.significand d.exponent) :
    decimalDouble d.negative m k = d := by
  have hquot : ((m * 10 ^ k.toNat : Nat) : ℚ) / ((10 ^ (-k).toNat : Nat) : ℚ) = m * (10 : ℚ) ^ k := by
    rw [zpow_split (by norm_num)]
    push_cast
    rw [mul_div_assoc]
  have hmagnitude := magnitude_parts d
  have hfinite : d.magnitude < infinityBits := of_decide_eq_true h
  have hnearest : nearest (m * 10 ^ k.toNat) (10 ^ (-k).toNat) =
      (d.exponent + 1074).toNat * 2 ^ 52 + d.significand :=
    nearest_of_within (Nat.pow_pos (by decide)) (canonical_of_finite h) (hquot ▸ hx) (hmagnitude ▸ hfinite)
  rw [decimalDouble, if_neg (by omega), if_neg (by omega), hnearest, ← hmagnitude, ofMagnitude_self]

/-- A zero is read with its sign. -/
theorem decimalDouble_zero {d : Double} (h : d.significand = 0) : decimalDouble d.negative 0 0 = d := by
  have hmagnitude : d.magnitude = 0 := by
    rw [significand] at h
    split at h <;> omega
  rw [decimalDouble, if_pos (Or.inl rfl), ← hmagnitude, ofMagnitude_self]

/-- **The 17 digits that are printed stay in the neighbourhood of the value.** -/
theorem within_digits17 {d : Double} (h : d.isFinite = true) (hsig : 0 < d.significand) :
    Within 2 53 (-1074) (digits17 d * (10 : ℚ) ^ (exponent17 d - 16)) d.significand d.exponent := by
  have hnum : 0 < d.significand * 2 ^ d.exponent.toNat := Nat.mul_pos hsig (Nat.two_pow_pos _)
  have hden : 0 < 2 ^ (-d.exponent).toNat := Nat.two_pow_pos _
  have hneg : (16 - exponent17 d).toNat = (-(exponent17 d - 16)).toNat := by omega
  have hunit : (0 : ℚ) < (10 : ℚ) ^ (exponent17 d - 16) := zpow_pos (by norm_num) _
  -- in units of the last printed place
  have hscaled := scaled_div (b := 10) (by decide) (d.significand * 2 ^ d.exponent.toNat)
    (2 ^ (-d.exponent).toNat) (exponent17 d - 16)
  rw [parts_quotient] at hscaled
  push_cast at hscaled
  apply within_of_digits (B := 10) (n := 17) (t := (10 : ℚ) ^ (exponent17 d - 16)) le_rfl (by decide)
    (canonical_of_finite h) (by decide)
  · have hlow := (scaled_bounds (x := exponent17 d) hnum hden rfl).1
    rw [hneg] at hlow
    have hlowQ : (10 : ℚ) ^ 16 * (2 ^ (-d.exponent).toNat * 10 ^ (exponent17 d - 16).toNat) ≤
        d.significand * 2 ^ d.exponent.toNat * 10 ^ (-(exponent17 d - 16)).toNat := by exact_mod_cast hlow
    rw [← le_div_iff₀ (by positivity), hscaled, le_div_iff₀ hunit] at hlowQ
    push_cast
    exact hlowQ
  · have hpos : 0 < 2 ^ (-d.exponent).toNat * 10 ^ (exponent17 d - 16).toNat :=
      Nat.mul_pos hden (Nat.pow_pos (by decide))
    have hnear := roundHalfEven_near
      (d.significand * 2 ^ d.exponent.toNat * 10 ^ (16 - exponent17 d).toNat) hpos
    rw [← digits17, hneg] at hnear
    push_cast at hnear ⊢
    rw [hscaled, abs_le] at hnear
    rw [abs_le]
    obtain ⟨hlow, hhigh⟩ := hnear
    rw [neg_le_sub_iff_le_add, ← sub_le_iff_le_add, le_div_iff₀ hunit] at hlow
    rw [sub_le_iff_le_add, div_le_iff₀ hunit] at hhigh
    constructor <;> linarith

/-! ## Integers -/

/-- A number below `2 ^ 53` is finite as a `double`. -/
theorem nearest_lt_infinity {n : Nat} (h : n < 2 ^ 53) : nearest n 1 < infinityBits := by
  by_cases hzero : n = 0
  · rw [hzero]
    decide
  -- shifted to 53 bits, it has its leading bit at 52
  have hlog : Nat.log2 n ≤ 52 := by
    have hlt := (Nat.log2_lt hzero).mpr h
    omega
  have hpos : 0 < 2 ^ (52 - Nat.log2 n) := Nat.two_pow_pos _
  have hlow := Nat.mul_le_mul_right (2 ^ (52 - Nat.log2 n)) (Nat.log2_self_le hzero)
  have hhigh := Nat.mul_lt_mul_of_pos_right (Nat.lt_log2_self (n := n)) hpos
  have hsum : Nat.log2 n + 1 + (52 - Nat.log2 n) = 53 := by omega
  rw [← Nat.pow_add, Nat.add_sub_cancel' hlog] at hlow
  rw [← Nat.pow_add, hsum] at hhigh
  have hcanonical : Canonical 2 53 (-1074) (n * 2 ^ (52 - Nat.log2 n)) ((Nat.log2 n : Int) - 52) :=
    ⟨hhigh, by omega, fun _ => hlow⟩
  have hvalue : ((n * 2 ^ (52 - Nat.log2 n) : Nat) : ℚ) * ((2 : ℕ) : ℚ) ^ ((Nat.log2 n : Int) - 52) =
      (n / (1 : ℕ) : ℚ) := by
    have hexp : (Nat.log2 n : Int) - 52 = -((52 - Nat.log2 n : Nat) : Int) := by omega
    have htwo : ((2 : ℚ) ^ (52 - Nat.log2 n)) ≠ 0 := by positivity
    rw [hexp, zpow_neg, zpow_natCast]
    push_cast
    rw [mul_assoc, mul_inv_cancel₀ htwo, mul_one, div_one]
  have hwithin : Within 2 53 (-1074) (n / (1 : ℕ) : ℚ) (n * 2 ^ (52 - Nat.log2 n)) ((Nat.log2 n : Int) - 52) :=
    hvalue ▸ Within.self two_pos
  have hlt : ((Nat.log2 n : Int) - 52 + 1074).toNat * 2 ^ 52 + n * 2 ^ (52 - Nat.log2 n) < infinityBits := by
    rw [infinityBits]
    omega
  rw [nearest_of_within one_pos hcanonical hwithin hlt]
  exact hlt

/-- The digits of a number below `2 ^ 53` are a finite `double`. -/
theorem decimalDouble_finite (neg : Bool) {n : Nat} (h : n < 2 ^ 53) :
    (decimalDouble neg n 0).isFinite = true := by
  have hof : ∀ mag, mag < infinityBits → (ofMagnitude neg mag).isFinite = true := by
    intro mag hmag
    have hbound : mag < 2 ^ 63 := by
      rw [infinityBits] at hmag
      omega
    rw [isFinite, magnitude_ofMagnitude hbound]
    exact decide_eq_true hmag
  unfold decimalDouble
  split
  · exact hof 0 (by decide)
  · rw [if_neg (by omega)]
    show (ofMagnitude neg (nearest (n * 1) 1)).isFinite = true
    rw [Nat.mul_one]
    exact hof _ (nearest_lt_infinity h)

/-- **A safe integer is read back as the same double.** -/
theorem strtod_formatFixed0 {d : Double} (h : d.isSafeInteger = true) :
    strtod (formatFixed0 d) = some d := by
  rw [(formatFixed0_safe h).1, strtod_digits]
  rw [isSafeInteger, Bool.and_eq_true, Bool.and_eq_true, beq_iff_eq] at h
  obtain ⟨⟨hfinite, hmod⟩, -⟩ := h
  have hexact : d.wholePart * 2 ^ (-d.exponent).toNat = d.significand * 2 ^ d.exponent.toNat :=
    Nat.div_mul_cancel (Nat.dvd_of_mod_eq_zero hmod)
  by_cases hsig : d.significand = 0
  · have hwhole : d.wholePart = 0 := by rw [wholePart, hsig, Nat.zero_mul, Nat.zero_div]
    rw [hwhole, decimalDouble_zero hsig]
  · have hwhole : d.wholePart ≠ 0 := by
      intro hzero
      rw [hzero, Nat.zero_mul] at hexact
      exact Nat.mul_ne_zero hsig (Nat.two_pow_pos _).ne' hexact.symm
    have hvalue : (d.significand : ℚ) * ((2 : ℕ) : ℚ) ^ d.exponent = d.wholePart * (10 : ℚ) ^ (0 : Int) := by
      have hpow : ((2 ^ (-d.exponent).toNat : Nat) : ℚ) ≠ 0 := by positivity
      have hquot := parts_quotient d.significand d.exponent
      rw [← hexact, Nat.cast_mul, mul_div_assoc, div_self hpow, mul_one] at hquot
      rw [zpow_zero, mul_one, hquot]
      rfl
    have hwithin : Within 2 53 (-1074) (d.wholePart * (10 : ℚ) ^ (0 : Int)) d.significand d.exponent :=
      hvalue ▸ Within.self two_pos
    rw [decimalDouble_of_within hfinite hwhole (by decide) (by decide) hwithin]

end SmolClaw
