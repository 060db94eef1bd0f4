/-
  What `%.17g` prints (`mjson_write_number_double`, `vendor/microjson/mjson_write.c`).

  1. **Digits** — a finite value that is not zero is scaled to a whole number of 17 digits
     (`scaled_bounds`), with the exponent of its leading digit (`decimalExponent_bounds`).

  2. **Layout** — `layout17` is the printed text without its sign: digits with a point in them, zeros
     in front of them, or an exponent behind them.

  3. **Length** — `formatGeneral17_length`: the text always fits the buffer of 64 bytes.
-/
import SmolClaw.Core.WholeNumber

namespace SmolClaw

/-! ## Digits -/

/-- A number lies between the powers of ten its digits say. -/
theorem decimal_bounds (n : Nat) :
    n < 10 ^ (decimal n).length ∧ (0 < n → 10 ^ ((decimal n).length - 1) ≤ n) := by
  induction n using decimal_induction with
  | single n h =>
    rw [decimal_of_lt h]
    exact ⟨by simpa using h, fun hpos => hpos⟩
  | more n h ih =>
    have hpos : 0 < n / 10 := by omega
    have hlow := ih.2 hpos
    have hhigh := ih.1
    have hlen : 0 < (decimal (n / 10)).length := List.length_pos_iff.mpr (decimal_ne_nil _)
    rw [decimal_of_le h, List.length_append, List.length_singleton]
    constructor
    · rw [Nat.pow_succ]
      omega
    · intro _
      have hsplit : 10 ^ ((decimal (n / 10)).length + 1 - 1) = 10 ^ ((decimal (n / 10)).length - 1) * 10 := by
        rw [← Nat.pow_succ]
        congr 1
        omega
      rw [hsplit]
      omega

/-- **The exponent of the leading digit**, with the denominators multiplied out. -/
theorem decimalExponent_bounds {num den : Nat} (hnum : 0 < num) (hden : 0 < den) :
    den * 10 ^ (decimalExponent num den).toNat ≤ num * 10 ^ (-decimalExponent num den).toNat ∧
      num * 10 ^ (-decimalExponent num den).toNat < den * 10 ^ (decimalExponent num den).toNat * 10 := by
  rw [decimalExponent]
  split
  · next hle =>
    have hq : 0 < num / den := Nat.div_pos hle hden
    obtain ⟨hhigh, hlow⟩ := decimal_bounds (num / den)
    have hlen : 0 < (decimal (num / den)).length := List.length_pos_iff.mpr (decimal_ne_nil _)
    have hx : (((decimal (num / den)).length : Int) - 1).toNat = (decimal (num / den)).length - 1 := by omega
    have hneg : (-(((decimal (num / den)).length : Int) - 1)).toNat = 0 := by omega
    rw [hx, hneg, Nat.pow_zero, Nat.mul_one]
    constructor
    · calc den * 10 ^ ((decimal (num / den)).length - 1) ≤ den * (num / den) :=
            Nat.mul_le_mul_left den (hlow hq)
        _ ≤ num := Nat.mul_div_le num den
    · have hpow : 10 ^ ((decimal (num / den)).length - 1) * 10 = 10 ^ (decimal (num / den)).length := by
        rw [← Nat.pow_succ]
        congr 1
        omega
      rw [Nat.mul_assoc, hpow]
      calc num < den * (num / den + 1) := Nat.lt_mul_div_succ num hden
        _ ≤ den * 10 ^ (decimal (num / den)).length := Nat.mul_le_mul_left den hhigh
  · next hlt =>
    -- one below the rounded-up inverse
    obtain ⟨q, hq⟩ : ∃ q, (den + num - 1) / num = q + 1 :=
      ⟨(den + num - 1) / num - 1, by have := (Nat.one_le_div_iff hnum).mpr (by omega : num ≤ den + num - 1); omega⟩
    have hceil : num * q < den ∧ den ≤ num * (q + 1) := by
      have hdiv := Nat.div_add_mod (den + num - 1) num
      have hmod := Nat.mod_lt (den + num - 1) hnum
      rw [hq, Nat.mul_add, Nat.mul_one] at hdiv
      rw [Nat.mul_add, Nat.mul_one]
      omega
    have hqpos : 0 < q := by
      have htwo : 2 ≤ (den + num - 1) / num := (Nat.le_div_iff_mul_le hnum).mpr (by omega)
      omega
    rw [hq, Nat.add_sub_cancel]
    obtain ⟨hhigh, hlow⟩ := decimal_bounds q
    have hlen : 0 < (decimal q).length := List.length_pos_iff.mpr (decimal_ne_nil _)
    have hx : (-((decimal q).length : Int)).toNat = 0 := by omega
    have hneg : (- -((decimal q).length : Int)).toNat = (decimal q).length := by omega
    rw [hx, hneg, Nat.pow_zero, Nat.mul_one]
    constructor
    · calc den ≤ num * (q + 1) := hceil.2
        _ ≤ num * 10 ^ (decimal q).length := Nat.mul_le_mul_left num hhigh
    · have hpow : 10 ^ (decimal q).length = 10 ^ ((decimal q).length - 1) * 10 := by
        rw [← Nat.pow_succ]
        congr 1
        omega
      have hbelow : num * 10 ^ ((decimal q).length - 1) < den :=
        Nat.lt_of_le_of_lt (Nat.mul_le_mul_left num (hlow hqpos)) hceil.1
      rw [hpow, ← Nat.mul_assoc]
      omega

namespace Double

theorem roundHalfEven_bounds {num den lo hi : Nat} (hden : 0 < den) (hlo : lo * den ≤ num)
    (hhi : num < hi * den) : lo ≤ roundHalfEven num den ∧ roundHalfEven num den ≤ hi := by
  have hq : lo ≤ num / den := (Nat.le_div_iff_mul_le hden).mpr hlo
  have hq' : num / den < hi := (Nat.div_lt_iff_lt_mul hden).mpr hhi
  rw [roundHalfEven]
  split <;> omega

/-- The parts of a finite value are bounded. -/
theorem parts_bounds {d : Double} (h : d.isFinite = true) :
    d.significand < 2 ^ 53 ∧ d.exponent.toNat ≤ 971 ∧ (-d.exponent).toNat ≤ 1074 := by
  have hmag : d.magnitude < infinityBits := of_decide_eq_true h
  rw [infinityBits] at hmag
  have hfrac : d.magnitude % 2 ^ 52 < 2 ^ 52 := Nat.mod_lt _ (by decide)
  refine ⟨?_, ?_, ?_⟩
  · rw [significand]
    split <;> omega
  · rw [exponent]
    omega
  · rw [exponent]
    omega

end Double

/-- A number scaled to 17 digits. -/
theorem scaled_bounds {num den : Nat} (hnum : 0 < num) (hden : 0 < den) {x : Int}
    (hx : x = decimalExponent num den) :
    10 ^ 16 * (den * 10 ^ (x - 16).toNat) ≤ num * 10 ^ (16 - x).toNat ∧
      num * 10 ^ (16 - x).toNat < 10 ^ 17 * (den * 10 ^ (x - 16).toNat) := by
  obtain ⟨hlow, hhigh⟩ := decimalExponent_bounds hnum hden
  rw [← hx] at hlow hhigh
  -- both sides are brought to the same power of ten
  have hsum : x.toNat + (16 - x).toNat = (-x).toNat + (16 + (x - 16).toNat) := by omega
  have hpow : 10 ^ x.toNat * 10 ^ (16 - x).toNat = 10 ^ (-x).toNat * (10 ^ 16 * 10 ^ (x - 16).toNat) := by
    rw [← Nat.pow_add, hsum, Nat.pow_add, Nat.pow_add]
  have hpos : 0 < 10 ^ (-x).toNat := Nat.pow_pos (by decide)
  have hscale : 0 < 10 ^ (16 - x).toNat := Nat.pow_pos (by decide)
  have hleft : 10 ^ 16 * (den * 10 ^ (x - 16).toNat) * 10 ^ (-x).toNat =
      den * (10 ^ x.toNat * 10 ^ (16 - x).toNat) := by
    rw [hpow]
    ac_rfl
  constructor
  · apply Nat.le_of_mul_le_mul_right _ hpos
    calc 10 ^ 16 * (den * 10 ^ (x - 16).toNat) * 10 ^ (-x).toNat
        = den * 10 ^ x.toNat * 10 ^ (16 - x).toNat := by rw [hleft, Nat.mul_assoc]
      _ ≤ num * 10 ^ (-x).toNat * 10 ^ (16 - x).toNat := Nat.mul_le_mul_right _ hlow
      _ = num * 10 ^ (16 - x).toNat * 10 ^ (-x).toNat := Nat.mul_right_comm _ _ _
  · apply Nat.lt_of_mul_lt_mul_right (a := 10 ^ (-x).toNat)
    calc num * 10 ^ (16 - x).toNat * 10 ^ (-x).toNat
        = num * 10 ^ (-x).toNat * 10 ^ (16 - x).toNat := Nat.mul_right_comm _ _ _
      _ < den * 10 ^ x.toNat * 10 * 10 ^ (16 - x).toNat := Nat.mul_lt_mul_of_pos_right hhigh hscale
      _ = 10 ^ 16 * (den * 10 ^ (x - 16).toNat) * 10 ^ (-x).toNat * 10 := by
          rw [hleft]
          ac_rfl
      _ = 10 ^ 17 * (den * 10 ^ (x - 16).toNat) * 10 ^ (-x).toNat := by
          rw [Nat.pow_succ 10 16]
          ac_rfl

/-- The exponent of a finite value that is not zero. -/
theorem decimalExponent_range {d : Double} (h : d.isFinite = true) (hsig : 0 < d.significand) :
    -325 < decimalExponent (d.significand * 2 ^ d.exponent.toNat) (2 ^ (-d.exponent).toNat) ∧
      decimalExponent (d.significand * 2 ^ d.exponent.toNat) (2 ^ (-d.exponent).toNat) < 309 := by
  obtain ⟨hsmall, hup, hdown⟩ := Double.parts_bounds h
  have hnum : 0 < d.significand * 2 ^ d.exponent.toNat := Nat.mul_pos hsig (Nat.two_pow_pos _)
  have hden : 0 < 2 ^ (-d.exponent).toNat := Nat.two_pow_pos _
  have hnumMax : d.significand * 2 ^ d.exponent.toNat < 10 ^ 309 := by
    have hpow : 2 ^ d.exponent.toNat ≤ 2 ^ 971 := Nat.pow_le_pow_right (by decide) hup
    calc d.significand * 2 ^ d.exponent.toNat ≤ d.significand * 2 ^ 971 := Nat.mul_le_mul_left _ hpow
      _ < 2 ^ 53 * 2 ^ 971 := Nat.mul_lt_mul_of_pos_right hsmall (Nat.two_pow_pos _)
      _ < 10 ^ 309 := by decide +kernel
  have hdenMax : 2 ^ (-d.exponent).toNat * 10 < 10 ^ 325 := by
    have hpow : 2 ^ (-d.exponent).toNat ≤ 2 ^ 1074 := Nat.pow_le_pow_right (by decide) hdown
    have hmax : 2 ^ 1074 * 10 < 10 ^ 325 := by decide +kernel
    omega
  obtain ⟨hlow, hhigh⟩ := decimalExponent_bounds hnum hden
  generalize decimalExponent (d.significand * 2 ^ d.exponent.toNat) (2 ^ (-d.exponent).toNat) = x at *
  constructor
  · by_contra hx
    have hneg : x.toNat = 0 := by omega
    rw [hneg, Nat.pow_zero, Nat.mul_one] at hhigh
    have hpow : 10 ^ 325 ≤ 10 ^ (-x).toNat := Nat.pow_le_pow_right (by decide) (by omega)
    have hmul : 10 ^ (-x).toNat ≤ d.significand * 2 ^ d.exponent.toNat * 10 ^ (-x).toNat :=
      Nat.le_mul_of_pos_left _ hnum
    omega
  · by_contra hx
    have hneg : (-x).toNat = 0 := by omega
    rw [hneg, Nat.pow_zero, Nat.mul_one] at hlow
    have hpow : 10 ^ 309 ≤ 10 ^ x.toNat := Nat.pow_le_pow_right (by decide) (by omega)
    have hmul : 10 ^ x.toNat ≤ 2 ^ (-d.exponent).toNat * 10 ^ x.toNat := Nat.le_mul_of_pos_left _ hden
    omega

/-! ## Layout -/

/-- A whole part and, when there are any, the digits behind the point. -/
def withPoint (whole frac : Bytes) : Bytes := if frac = [] then whole else whole ++ chr '.' :: frac

/-- Digits with the exponent `x` of the first, as `%.17g` lays them out. -/
def layout17 (x : Int) (digits : Bytes) : Bytes :=
  if x < -4 ∨ 17 ≤ x then
    let e := decimal x.natAbs
    withPoint (digits.take 1) (digits.drop 1) ++ chr 'e' :: (if x < 0 then chr '-' else chr '+') ::
      (List.replicate (2 - e.length) (chr '0') ++ e)
  else if x < 0 then
    withPoint (str "0") (List.replicate (x.natAbs - 1) (chr '0') ++ digits)
  else
    let whole := digits.take (x.toNat + 1)
    withPoint (whole ++ List.replicate (x.toNat + 1 - whole.length) (chr '0')) (digits.drop (x.toNat + 1))

/-- The digits that are printed: without the zeros at the end. -/
def printedDigits (m : Nat) : Bytes := ((decimal m).reverse.dropWhile (· == chr '0')).reverse

/-- The exponent of the leading digit of a finite value. -/
def exponent17 (d : Double) : Int :=
  decimalExponent (d.significand * 2 ^ d.exponent.toNat) (2 ^ (-d.exponent).toNat)

/-- A finite value scaled to 17 digits; one digit more when it is rounded up from 99...9. -/
def digits17 (d : Double) : Nat :=
  Double.roundHalfEven (d.significand * 2 ^ d.exponent.toNat * 10 ^ (16 - exponent17 d).toNat)
    (2 ^ (-d.exponent).toNat * 10 ^ (exponent17 d - 16).toNat)

theorem digits17_bounds {d : Double} (hsig : 0 < d.significand) :
    10 ^ 16 ≤ digits17 d ∧ digits17 d ≤ 10 ^ 17 := by
  have hnum : 0 < d.significand * 2 ^ d.exponent.toNat := Nat.mul_pos hsig (Nat.two_pow_pos _)
  have hden : 0 < 2 ^ (-d.exponent).toNat := Nat.two_pow_pos _
  obtain ⟨hlow, hhigh⟩ := scaled_bounds (x := exponent17 d) hnum hden rfl
  exact Double.roundHalfEven_bounds (Nat.mul_pos hden (Nat.pow_pos (by decide))) hlow hhigh

/-- What is printed is the layout of the 17 digits. -/
theorem formatGeneral17_layout {d : Double} (h : d.isFinite = true) (hsig : 0 < d.significand) :
    formatGeneral17 d = (if d.negative then str "-" else []) ++
      (if 10 ^ 17 ≤ digits17 d then layout17 (exponent17 d + 1) (printedDigits (digits17 d / 10))
        else layout17 (exponent17 d) (printedDigits (digits17 d))) := by
  have hnan := Double.isNaN_of_isFinite h
  have hzero : d.significand ≠ 0 := by omega
  have hlayout : ∀ (x : Int) (m : Nat),
      (if x < -4 ∨ 17 ≤ x then
        (if d.negative = true then str "-" else []) ++ withPoint ((printedDigits m).take 1) ((printedDigits m).drop 1) ++
          chr 'e' :: (if x < 0 then chr '-' else chr '+') ::
            (List.replicate (2 - (decimal x.natAbs).length) (chr '0') ++ decimal x.natAbs)
      else if x < 0 then
        (if d.negative = true then str "-" else []) ++
          withPoint (str "0") (List.replicate (x.natAbs - 1) (chr '0') ++ printedDigits m)
      else
        (if d.negative = true then str "-" else []) ++
          withPoint ((printedDigits m).take (x.toNat + 1) ++
            List.replicate (x.toNat + 1 - ((printedDigits m).take (x.toNat + 1)).length) (chr '0'))
              ((printedDigits m).drop (x.toNat + 1))) =
        (if d.negative = true then str "-" else []) ++ layout17 x (printedDigits m) := by
    intro x m
    rw [layout17]
    split
    · rw [List.append_assoc]
    · split <;> rfl
  rw [formatGeneral17]
  simp only [hnan, h, hzero, Bool.false_eq_true, if_false, Bool.not_true]
  rw [← exponent17, ← digits17]
  split
  · exact hlayout (exponent17 d + 1) (digits17 d / 10)
  · exact hlayout (exponent17 d) (digits17 d)

/-- **What is printed of a finite value that is not zero**: 17 digits `m` and their exponent. -/
theorem formatGeneral17_finite {d : Double} (h : d.isFinite = true) (hsig : 0 < d.significand) :
    ∃ (x : Int) (m : Nat), 10 ^ 16 ≤ m ∧ m < 10 ^ 17 ∧ -325 < x ∧ x ≤ 309 ∧
      formatGeneral17 d = (if d.negative then str "-" else []) ++ layout17 x (printedDigits m) ∧
      (x = exponent17 d ∧ m = digits17 d ∨ x = exponent17 d + 1 ∧ m * 10 = digits17 d) := by
  obtain ⟨hmin, hmax⟩ := decimalExponent_range h hsig
  rw [← exponent17] at hmin hmax
  obtain ⟨hlow, hhigh⟩ := digits17_bounds hsig
  rw [formatGeneral17_layout h hsig]
  by_cases hcarry : 10 ^ 17 ≤ digits17 d
  · -- rounded up from 99...9 the digits are those of a power of ten
    exact ⟨exponent17 d + 1, digits17 d / 10, by omega, by omega, by omega, by omega, by rw [if_pos hcarry],
      Or.inr ⟨rfl, by omega⟩⟩
  · exact ⟨exponent17 d, digits17 d, by omega, by omega, by omega, by omega, by rw [if_neg hcarry],
      Or.inl ⟨rfl, rfl⟩⟩

/-! ## Length -/

theorem printedDigits_length {m : Nat} (h : m < 10 ^ 17) : (printedDigits m).length ≤ 17 := by
  have hall := decimal_length_le 16 m h
  have hdrop := (List.dropWhile_suffix (l := (decimal m).reverse) (· == chr '0')).length_le
  rw [List.length_reverse] at hdrop
  rw [printedDigits, List.length_reverse]
  omega

theorem withPoint_length (whole frac : Bytes) : (withPoint whole frac).length ≤ whole.length + 1 + frac.length := by
  rw [withPoint]
  split
  · omega
  · rw [List.length_append, List.length_cons]
    omega

theorem layout17_length {x : Int} {digits : Bytes} (hx : x.natAbs < 10 ^ 3) (hdigits : digits.length ≤ 17) :
    (layout17 x digits).length ≤ 60 := by
  rw [layout17]
  split
  · have hexp := decimal_length_le 2 x.natAbs hx
    have hpoint := withPoint_length (digits.take 1) (digits.drop 1)
    simp only [List.length_append, List.length_cons, List.length_replicate, List.length_take,
      List.length_drop] at hpoint ⊢
    omega
  · split
    · have hpoint := withPoint_length (str "0") (List.replicate (x.natAbs - 1) (chr '0') ++ digits)
      have hone : (str "0").length = 1 := by decide
      simp only [List.length_append, List.length_replicate] at hpoint
      omega
    · have hpoint := withPoint_length
        (digits.take (x.toNat + 1) ++ List.replicate (x.toNat + 1 - (digits.take (x.toNat + 1)).length) (chr '0'))
        (digits.drop (x.toNat + 1))
      simp only [List.length_append, List.length_replicate, List.length_take, List.length_drop] at hpoint ⊢
      omega

/-- **The text of a number fits its buffer.** -/
theorem formatGeneral17_length (d : Double) : (formatGeneral17 d).length < 64 := by
  have hsign : (if d.negative = true then str "-" else []).length ≤ 1 := by split <;> decide
  by_cases hfinite : d.isFinite = true
  · by_cases hsig : d.significand = 0
    · have hnan := Double.isNaN_of_isFinite hfinite
      have hzero : (str "0").length = 1 := by decide
      rw [formatGeneral17]
      simp only [hnan, hfinite, hsig, Bool.false_eq_true, if_false, Bool.not_true, if_true,
        List.length_append, hzero]
      omega
    · obtain ⟨x, m, -, hm, hmin, hmax, htext, -⟩ := formatGeneral17_finite hfinite (Nat.pos_of_ne_zero hsig)
      have hlayout := layout17_length (x := x) (by omega) (printedDigits_length hm)
      rw [htext, List.length_append]
      omega
  · have hname : (str "nan").length = 3 ∧ (str "inf").length = 3 := by decide
    rw [formatGeneral17]
    split
    · rw [List.length_append, hname.1]
      omega
    · rw [if_pos (by simpa using hfinite), List.length_append, hname.2]
      omega

end SmolClaw
