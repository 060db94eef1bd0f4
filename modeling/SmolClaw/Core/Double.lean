/-
  `double` as the program uses it: JSON numbers come out of `strtod`, memory scores are compared and
  printed with `%.6f`, and a JSON number is cast to `int`.

  1. **Value** — a `Double` is its 64 bits (IEEE 754 binary64, the format of every supported
     target), so every value is a `double` and every `double` is a value, signed zeros and NaNs
     included.  Order is read off the bits: below the sign bit they are ordered like the magnitudes.

  2. **`strtod`** — on decimal text, in the C locale: the exact rational the digits spell, rounded
     to nearest, ties to even (`nearest`), infinity when too large.

  Everything is integer arithmetic, so all of it computes.
-/
import SmolClaw.Core.Status

namespace SmolClaw

/-- A `double`, by its bits. -/
structure Double where
  bits : UInt64
  deriving DecidableEq, Repr

namespace Double

/-- The bits of positive infinity; finite magnitudes are below it, NaNs above. -/
def infinityBits : Nat := 0x7FF0000000000000

/-- The bits without the sign. -/
def magnitude (d : Double) : Nat := d.bits.toNat % 2 ^ 63

/-- The sign bit. -/
def negative (d : Double) : Bool := 2 ^ 63 ≤ d.bits.toNat

/-- `isnan` -/
def isNaN (d : Double) : Bool := infinityBits < d.magnitude

/-- `isfinite` -/
def isFinite (d : Double) : Bool := d.magnitude < infinityBits

theorem isNaN_of_isFinite {d : Double} (h : d.isFinite = true) : d.isNaN = false := by
  have hlt : d.magnitude < infinityBits := of_decide_eq_true h
  exact decide_eq_false (by omega)

/-- The position of a value that is no NaN on the number line, in units that depend on the
    magnitude; both zeros stand at 0. -/
def position (d : Double) : Int := if d.negative then -(d.magnitude : Int) else d.magnitude

/-- `a < b`: false when either side is a NaN. -/
def lt (a b : Double) : Bool := !a.isNaN && !b.isNaN && a.position < b.position

/-- The whole number whose `significand * 2 ^ exponent` is the magnitude of a finite value. -/
def significand (d : Double) : Nat :=
  if d.magnitude < 2 ^ 52 then d.magnitude else 2 ^ 52 + d.magnitude % 2 ^ 52

/-- The exponent that goes with `significand`. -/
def exponent (d : Double) : Int := (max (d.magnitude / 2 ^ 52) 1 : Nat) - 1075

/-- `(int)d`: truncation toward zero; a value that does not fit (or a NaN) gives `INT_MIN`, as the
    conversion instruction of the supported targets does. -/
def toInt (d : Double) : Int :=
  if d.isFinite then
    let whole := d.significand * 2 ^ d.exponent.toNat / 2 ^ (-d.exponent).toNat
    let value : Int := if d.negative then -(whole : Int) else whole
    if -2147483648 ≤ value ∧ value ≤ 2147483647 then value else -2147483648
  else -2147483648

/-- `(int64_t)d`: as `toInt`, into 64 bits. -/
def toInt64 (d : Double) : Int :=
  if d.isFinite then
    let whole := d.significand * 2 ^ d.exponent.toNat / 2 ^ (-d.exponent).toNat
    let value : Int := if d.negative then -(whole : Int) else whole
    if -2 ^ 63 ≤ value ∧ value < 2 ^ 63 then value else -2 ^ 63
  else -2 ^ 63

/-- The value is the whole number `n`. -/
def IsWhole (d : Double) (n : Int) : Prop :=
  d.isFinite = true ∧
    (if d.negative then -(d.significand : Int) else d.significand) * 2 ^ d.exponent.toNat =
      n * 2 ^ (-d.exponent).toNat

instance (d : Double) (n : Int) : Decidable (d.IsWhole n) := inferInstanceAs (Decidable (_ ∧ _))

/-- A quotient rounded to the nearest whole number, ties to even. -/
def roundHalfEven (num den : Nat) : Nat :=
  let q := num / den
  let r := num % den
  if den < 2 * r ∨ (2 * r = den ∧ q % 2 = 1) then q + 1 else q

/-- The magnitude bits of the `double` nearest to `num / den`. -/
def nearest (num den : Nat) : Nat :=
  if num = 0 then 0
  else
    -- the leading bit of the quotient is at `e` or one below it
    let e : Int := (Nat.log2 num : Int) - Nat.log2 den
    let e := if num * 2 ^ (-e).toNat < den * 2 ^ e.toNat then e - 1 else e
    let e := max e (-1022)
    -- one unit in the last place is `2 ^ (e - 52)`
    let ulp := e - 52
    let m := roundHalfEven (num * 2 ^ (-ulp).toNat) (den * 2 ^ ulp.toNat)
    min ((e + 1022).toNat * 2 ^ 52 + m) infinityBits

/-- A sign and a magnitude. -/
def ofMagnitude (neg : Bool) (mag : Nat) : Double :=
  ⟨UInt64.ofNat ((if neg then 2 ^ 63 else 0) + mag)⟩

end Double

/-! ## Decimal text -/

/-- `isdigit` -/
def isDigit (c : UInt8) : Bool := chr '0' ≤ c && c ≤ chr '9'

/-- The number a run of digits spells. -/
def decimalValue (digits : Bytes) : Nat :=
  digits.foldl (fun n c => 10 * n + (c.toNat - 48)) 0

/-- The digits of a number, as `%llu` prints them. -/
def decimal (n : Nat) : Bytes := (Nat.toDigits 10 n).map Char.toUInt8

/-- `%d` and `%lld` -/
def decimalInt (n : Int) : Bytes := if n < 0 then chr '-' :: decimal n.natAbs else decimal n.natAbs

/-- A leading `-` or `+`, and what follows it. -/
def scanSign (text : Bytes) : Bool × Bytes :=
  match text with
  | c :: rest =>
      if c = chr '-' then (true, rest) else if c = chr '+' then (false, rest) else (false, text)
  | [] => (false, [])

/-- The exponent of a decimal number: `e` or `E`, a sign and at least one digit; 0 when the text has
    none. -/
def scanExponent (text : Bytes) : Int :=
  match text with
  | c :: rest =>
      if c = chr 'e' ∨ c = chr 'E' then
        let (neg, rest) := scanSign rest
        let e := decimalValue (rest.takeWhile isDigit)
        if neg then -(e : Int) else e
      else 0
  | [] => 0

/-- The `double` nearest to `mantissa * 10 ^ e`.  The texts that reach it have fewer than 128 digits,
    so exponents beyond a thousand are infinity or zero without computing the power. -/
def decimalDouble (neg : Bool) (mantissa : Nat) (e : Int) : Double :=
  if mantissa = 0 ∨ e < -1000 then Double.ofMagnitude neg 0
  else if 1000 < e then Double.ofMagnitude neg Double.infinityBits
  else Double.ofMagnitude neg (Double.nearest (mantissa * 10 ^ e.toNat) (10 ^ (-e).toNat))

/-- `strtod` on text made of digits, signs, dots and `e`s (the only text the program gives it):
    `none` when no number starts the text (`end == buffer`). -/
def strtod (text : Bytes) : Option Double :=
  let (neg, rest) := scanSign text
  let whole := rest.takeWhile isDigit
  let rest := rest.dropWhile isDigit
  let (frac, rest) :=
    match rest with
    | c :: t => if c = chr '.' then (t.takeWhile isDigit, t.dropWhile isDigit) else ([], rest)
    | [] => ([], [])
  if whole = [] ∧ frac = [] then none
  else
    some (decimalDouble neg (decimalValue (whole ++ frac)) (scanExponent rest - frac.length))

/-- `%.6f` -/
def formatFixed6 (d : Double) : Bytes :=
  let sign := if d.negative then str "-" else []
  if d.isNaN then sign ++ str "nan"
  else if !d.isFinite then sign ++ str "inf"
  else
    let scaled := Double.roundHalfEven (d.significand * 2 ^ d.exponent.toNat * 10 ^ 6)
      (2 ^ (-d.exponent).toNat)
    let frac := decimal (scaled % 10 ^ 6)
    sign ++ decimal (scaled / 10 ^ 6) ++ chr '.' :: (List.replicate (6 - frac.length) (chr '0') ++ frac)

/-- `%.0f` -/
def formatFixed0 (d : Double) : Bytes :=
  let sign := if d.negative then str "-" else []
  if d.isNaN then sign ++ str "nan"
  else if !d.isFinite then sign ++ str "inf"
  else
    sign ++ decimal (Double.roundHalfEven (d.significand * 2 ^ d.exponent.toNat)
      (2 ^ (-d.exponent).toNat))

/-- The exponent of the leading decimal digit of `num / den`. -/
def decimalExponent (num den : Nat) : Int :=
  if den ≤ num then ((decimal (num / den)).length : Int) - 1
  -- below 1: as many places down as the ceiling of the inverse, less one, has digits
  else -((decimal ((den + num - 1) / num - 1)).length : Int)

/-- `%.17g` -/
def formatGeneral17 (d : Double) : Bytes :=
  let sign := if d.negative then str "-" else []
  if d.isNaN then sign ++ str "nan"
  else if !d.isFinite then sign ++ str "inf"
  else if d.significand = 0 then sign ++ str "0"
  else
    let num := d.significand * 2 ^ d.exponent.toNat
    let den := 2 ^ (-d.exponent).toNat
    let x := decimalExponent num den
    let m := Double.roundHalfEven (num * 10 ^ (16 - x).toNat) (den * 10 ^ (x - 16).toNat)
    -- rounding up from 99...9 moves the leading digit one place
    let (x, m) := if 10 ^ 17 ≤ m then (x + 1, m / 10) else (x, m)
    let digits := ((decimal m).reverse.dropWhile (· == chr '0')).reverse
    let point (whole frac : Bytes) : Bytes := if frac = [] then whole else whole ++ chr '.' :: frac
    if x < -4 ∨ 17 ≤ x then
      let e := decimal x.natAbs
      sign ++ point (digits.take 1) (digits.drop 1) ++ chr 'e' :: (if x < 0 then chr '-' else chr '+') ::
        (List.replicate (2 - e.length) (chr '0') ++ e)
    else if x < 0 then
      sign ++ point (str "0") (List.replicate (x.natAbs - 1) (chr '0') ++ digits)
    else
      let whole := digits.take (x.toNat + 1)
      sign ++ point (whole ++ List.replicate (x.toNat + 1 - whole.length) (chr '0'))
        (digits.drop (x.toNat + 1))

end SmolClaw
