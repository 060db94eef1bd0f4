/-
  Whole numbers through text.

  1. **Digits** — `decimal n` spells `n` (`decimalValue_decimal`), in digits only and in at most `k` of
     them below `10 ^ k`.  The recursion is the one of the digits: all but the last spell `n / 10`.

  2. **Doubles** — an integer of magnitude below `2 ^ 53` is printed exactly by `%.0f`
     (`formatFixed0_safe`), and `strtod` reads digits for the number they spell (`strtod_digits`).
-/
import Mathlib.Data.List.TakeWhile
import Mathlib.Data.Nat.Log
import SmolClaw.Core.Text
import SmolClaw.Core.Double

namespace SmolClaw

/-! ## Digits -/

/-- The digit of a number below 10. -/
theorem digitChar_toUInt8 {d : Nat} (h : d < 10) : d.digitChar.toUInt8 = UInt8.ofNat (48 + d) := by
  have hall : ∀ d : Fin 10, d.val.digitChar.toUInt8 = UInt8.ofNat (48 + d.val) := by decide
  exact hall ⟨d, h⟩

theorem decimal_of_lt {n : Nat} (h : n < 10) : decimal n = [UInt8.ofNat (48 + n)] := by
  rw [decimal, Nat.toDigits_of_lt_base h, List.map_singleton, digitChar_toUInt8 h]

/-- **All digits but the last** spell the number without its last digit. -/
theorem decimal_of_le {n : Nat} (h : 10 ≤ n) :
    decimal n = decimal (n / 10) ++ [UInt8.ofNat (48 + n % 10)] := by
  have hlast : n % 10 < 10 := Nat.mod_lt _ (by omega)
  have happ := Nat.toDigits_append_toDigits (b := 10) (n := n / 10) (d := n % 10) (by omega) (by omega)
    hlast
  rw [Nat.div_add_mod, Nat.toDigits_of_lt_base hlast] at happ
  rw [decimal, ← happ, List.map_append, List.map_singleton, digitChar_toUInt8 hlast]
  rfl

/-- Induction over the digits. -/
theorem decimal_induction {P : Nat → Prop} (single : ∀ n < 10, P n)
    (more : ∀ n, 10 ≤ n → P (n / 10) → P n) (n : Nat) : P n := by
  induction n using Nat.strong_induction_on with
  | h n ih =>
    by_cases hn : n < 10
    · exact single n hn
    · exact more n (by omega) (ih (n / 10) (by omega))

theorem decimalValue_append (s : Bytes) (c : UInt8) :
    decimalValue (s ++ [c]) = 10 * decimalValue s + (c.toNat - 48) := by
  rw [decimalValue, List.foldl_append]
  rfl

theorem digit_value {d : Nat} (h : d < 10) :
    (UInt8.ofNat (48 + d)).toNat - 48 = d ∧ isDigit (UInt8.ofNat (48 + d)) = true := by
  have hall : ∀ d : Fin 10, (UInt8.ofNat (48 + d.val)).toNat - 48 = d.val ∧
      isDigit (UInt8.ofNat (48 + d.val)) = true := by decide
  exact hall ⟨d, h⟩

/-- **The digits of a number spell it.** -/
theorem decimalValue_decimal (n : Nat) : decimalValue (decimal n) = n := by
  induction n using decimal_induction with
  | single n h =>
    rw [decimal_of_lt h]
    show 10 * 0 + ((UInt8.ofNat (48 + n)).toNat - 48) = n
    rw [(digit_value h).1]
    omega
  | more n h ih =>
    rw [decimal_of_le h, decimalValue_append, ih, (digit_value (Nat.mod_lt n (by omega))).1]
    exact Nat.div_add_mod n 10

theorem isDigit_ascii {c : UInt8} (h : isDigit c = true) : c ≤ 0x7F :=
  UInt8.le_trans (of_decide_eq_true (Bool.and_eq_true_iff.mp h).2) (by decide)

theorem decimal_isDigit (n : Nat) : ∀ c ∈ decimal n, isDigit c = true := by
  induction n using decimal_induction with
  | single n h =>
    rw [decimal_of_lt h]
    intro c hc
    rw [List.mem_singleton.mp hc]
    exact (digit_value h).2
  | more n h ih =>
    rw [decimal_of_le h]
    intro c hc
    rcases List.mem_append.mp hc with hc | hc
    · exact ih c hc
    · rw [List.mem_singleton.mp hc]
      exact (digit_value (Nat.mod_lt n (by omega))).2

theorem decimal_ne_nil (n : Nat) : decimal n ≠ [] := by
  by_cases h : n < 10
  · rw [decimal_of_lt h]
    exact List.cons_ne_nil _ _
  · rw [decimal_of_le (by omega)]
    exact List.append_ne_nil_of_right_ne_nil _ (List.cons_ne_nil _ _)

theorem decimal_length_le : ∀ (k n : Nat), n < 10 ^ (k + 1) → (decimal n).length ≤ k + 1 := by
  intro k
  induction k with
  | zero =>
    intro n h
    rw [decimal_of_lt (by omega)]
    exact Nat.le_refl 1
  | succ k ih =>
    intro n h
    by_cases hn : n < 10
    · rw [decimal_of_lt hn]
      exact Nat.succ_le_succ (Nat.zero_le _)
    · rw [decimal_of_le (by omega), List.length_append]
      have hrest := ih (n / 10) (by rw [Nat.pow_succ] at h; omega)
      exact Nat.succ_le_succ hrest

example : decimal 305 = str "305" ∧ decimalValue (str "0305") = 305 := by decide

/-! ## Integers as doubles -/

namespace Double

/-- An integer of magnitude below `2 ^ 53`. -/
def isSafeInteger (d : Double) : Bool :=
  d.isFinite && d.significand * 2 ^ d.exponent.toNat % 2 ^ (-d.exponent).toNat == 0 &&
    decide (d.significand * 2 ^ d.exponent.toNat / 2 ^ (-d.exponent).toNat < 2 ^ 53)

/-- The magnitude of an integer. -/
def wholePart (d : Double) : Nat := d.significand * 2 ^ d.exponent.toNat / 2 ^ (-d.exponent).toNat

/-- A magnitude that is a whole number is left whole by the truncation. -/
theorem wholePart_eq {d : Double} {n : Int}
    (h : (d.significand : Int) * 2 ^ d.exponent.toNat = n * 2 ^ (-d.exponent).toNat) :
    (d.wholePart : Int) = n := by
  have hpos : (2 : Int) ^ (-d.exponent).toNat ≠ 0 := Int.ne_of_gt (Int.pow_pos (by decide))
  rw [wholePart, Int.natCast_ediv, Int.natCast_mul, Int.natCast_pow, Int.natCast_pow, Int.cast_ofNat_Int, h,
    Int.mul_ediv_cancel n hpos]

/-- A whole number that fits survives the cast. -/
theorem toInt64_of_isWhole {d : Double} {n : Int} (h : d.IsWhole n) (hmin : -2 ^ 63 ≤ n)
    (hmax : n < 2 ^ 63) : d.toInt64 = n := by
  obtain ⟨hfinite, hvalue⟩ := h
  have hwhole : (if d.negative then -(d.wholePart : Int) else d.wholePart) = n := by
    cases hneg : d.negative with
    | false =>
      rw [hneg, if_neg Bool.false_ne_true] at hvalue
      rw [if_neg Bool.false_ne_true]
      exact wholePart_eq hvalue
    | true =>
      rw [hneg, if_pos rfl, Int.neg_mul] at hvalue
      have hmagnitude : (d.significand : Int) * 2 ^ d.exponent.toNat = -n * 2 ^ (-d.exponent).toNat := by
        rw [Int.neg_mul]
        omega
      rw [if_pos rfl, wholePart_eq hmagnitude, Int.neg_neg]
  rw [toInt64, if_pos hfinite]
  simp only [wholePart] at hwhole
  simp only [hwhole]
  exact if_pos ⟨hmin, hmax⟩

/-- A quotient without a remainder is not rounded. -/
theorem roundHalfEven_mul {n den : Nat} (h : 0 < den) : roundHalfEven (n * den) den = n := by
  rw [roundHalfEven, Nat.mul_mod_left, Nat.mul_div_cancel n h, if_neg]
  omega

/-- A value is its sign and its magnitude. -/
theorem ofMagnitude_self (d : Double) : ofMagnitude d.negative d.magnitude = d := by
  obtain ⟨bits⟩ := d
  have hlt : bits.toNat < 2 ^ 64 := bits.toNat_lt
  have hsum : (if (⟨bits⟩ : Double).negative then 2 ^ 63 else 0) + (⟨bits⟩ : Double).magnitude =
      bits.toNat := by
    simp only [negative, magnitude, decide_eq_true_eq]
    split <;> omega
  rw [ofMagnitude, hsum, UInt64.ofNat_toNat]

end Double

/-- The magnitude of a value put together. -/
theorem Double.magnitude_ofMagnitude {neg : Bool} {mag : Nat} (h : mag < 2 ^ 63) :
    (ofMagnitude neg mag).magnitude = mag := by
  rw [ofMagnitude, magnitude, UInt64.toNat_ofNat']
  cases neg <;> simp only [if_true, Bool.false_eq_true, if_false] <;> omega

/-- The text of a safe integer. -/
theorem formatFixed0_safe {d : Double} (h : d.isSafeInteger = true) :
    formatFixed0 d = (if d.negative then str "-" else []) ++ decimal d.wholePart ∧
      d.wholePart < 2 ^ 53 := by
  have hparts := h
  rw [Double.isSafeInteger, Bool.and_eq_true, Bool.and_eq_true, beq_iff_eq, decide_eq_true_eq] at hparts
  obtain ⟨⟨hfinite, hmod⟩, hlt⟩ := hparts
  have hnan := Double.isNaN_of_isFinite hfinite
  have hround : Double.roundHalfEven (d.significand * 2 ^ d.exponent.toNat) (2 ^ (-d.exponent).toNat) =
      d.wholePart := by
    have hdvd := Nat.dvd_of_mod_eq_zero hmod
    nth_rewrite 1 [← Nat.div_mul_cancel hdvd]
    exact Double.roundHalfEven_mul (Nat.two_pow_pos _)
  refine ⟨?_, hlt⟩
  simp only [formatFixed0, hnan, hfinite, hround, Bool.not_true, Bool.false_eq_true, if_false]

/-- The digits of a number, read by `strtod` behind an optional minus. -/
theorem strtod_digits (neg : Bool) (n : Nat) :
    strtod ((if neg then str "-" else []) ++ decimal n) = some (decimalDouble neg n 0) := by
  have hdigits := decimal_isDigit n
  have htake : (decimal n).takeWhile isDigit = decimal n := List.takeWhile_eq_self_iff.mpr hdigits
  have hdrop : (decimal n).dropWhile isDigit = [] := List.dropWhile_eq_nil_iff.mpr hdigits
  have hsign : scanSign ((if neg then str "-" else []) ++ decimal n) = (neg, decimal n) := by
    cases neg with
    | true => rfl
    | false =>
      obtain ⟨c, t, hct⟩ := List.exists_cons_of_ne_nil (decimal_ne_nil n)
      have hc : isDigit c = true := hdigits c (by rw [hct]; exact List.mem_cons_self)
      have hne : c ≠ chr '-' ∧ c ≠ chr '+' := by
        constructor
        · rintro rfl; exact absurd hc (by decide)
        · rintro rfl; exact absurd hc (by decide)
      rw [hct]
      show scanSign (c :: t) = _
      rw [scanSign, if_neg hne.1, if_neg hne.2]
  rw [strtod, hsign]
  dsimp only
  rw [htake, hdrop]
  dsimp only
  rw [if_neg (by rintro ⟨h, -⟩; exact decimal_ne_nil n h), List.append_nil, decimalValue_decimal]
  rfl

end SmolClaw
