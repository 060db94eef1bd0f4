/-
  Numbers in the audit and receipt files (`parse_i64` and `parse_u64_hex`, `src/security/store.c`), for every
  text that may stand there.

  1. **Program** — `readI64` is the loop of `parse_i64` with its signed arithmetic: a product, a sum or the
     last product with the sign that leaves the range of an `int64_t` has no meaning in C
     (`Reading.overflow`).  `parseU64Hex` shifts in an unsigned number, which drops what does not fit.

  2. **Specification** — `ExactI64` and `ExactHex`: a number is accepted exactly if it is spelled and fits,
     with its value, and nothing overflows.

  3. **Defects** — neither loop looks at what it has before it goes on.  The digits of `-2^63` overflow before
     the sign is applied, as all longer numbers do; and of more than sixteen hexadecimal digits only the last
     ones count.

  4. **Result** — `numbers_exact`: both are exact exactly up to these limits.
-/
import SmolClaw.Security.Store

namespace SmolClaw.Security

/-! ## Program -/

/-- What reading a number comes to. -/
inductive Reading where
  | accepted (value : Int)
  | refused
  | overflow
  deriving DecidableEq

/-- A signed number of 64 bits. -/
def FitsI64 (n : Int) : Prop := -2 ^ 63 ≤ n ∧ n < 2 ^ 63

instance (n : Int) : Decidable (FitsI64 n) := inferInstanceAs (Decidable (_ ∧ _))

/-- The loop of `parse_i64`, and `*out = value * sign` behind it. -/
def readDigits (sign : Int) : Int → Bytes → Reading
  | value, [] => if FitsI64 (value * sign) then .accepted (value * sign) else .overflow
  | value, c :: rest =>
      if !isDigit c then .refused
      else if ¬FitsI64 (value * 10) then .overflow
      else if ¬FitsI64 (value * 10 + (c.toNat - 48 : Nat)) then .overflow
      else readDigits sign (value * 10 + (c.toNat - 48 : Nat)) rest

/-- `parse_i64` -/
def readI64 (text : Bytes) : Reading :=
  if text = [] then .refused
  else
    let (sign, digits) : Int × Bytes := if text.head? = some (chr '-') then (-1, text.tail) else (1, text)
    if digits = [] then .refused else readDigits sign 0 digits

/-! ## Specification -/

/-- A number as it is spelled: digits, perhaps behind a minus sign. -/
inductive Spelled : Bytes → Int → Prop
  | positive {digits : Bytes} (hne : digits ≠ []) (hdigits : ∀ c ∈ digits, isDigit c = true) :
      Spelled digits (decimalValue digits)
  | negative {digits : Bytes} (hne : digits ≠ []) (hdigits : ∀ c ∈ digits, isDigit c = true) :
      Spelled (chr '-' :: digits) (-decimalValue digits)

/-- **`parse_i64` is exact on a text.** -/
structure ExactI64 (text : Bytes) : Prop where
  defined : readI64 text ≠ .overflow
  value : ∀ v, readI64 text = .accepted v ↔ Spelled text v ∧ FitsI64 v

/-- What hexadecimal digits stand for. -/
def hexTextValue (text : Bytes) : Nat :=
  text.foldl (fun n c => 16 * n + ((hexValue c).getD 0).toNat) 0

/-- A text of hexadecimal digits. -/
def HexText (text : Bytes) : Prop := ∀ c ∈ text, (hexValue c).isSome = true

/-- **`parse_u64_hex` is exact on a text.** -/
def ExactHex (text : Bytes) : Prop :=
  ∀ v : UInt64, parseU64Hex text = some v ↔ text ≠ [] ∧ HexText text ∧ hexTextValue text = v.toNat

/-- The text behind its sign. -/
def digitsOf (text : Bytes) : Bytes := if text.head? = some (chr '-') then text.tail else text

/-- The number that the leading digits of a text spell, behind a minus sign if there is one. -/
def magnitude (text : Bytes) : Nat := decimalValue ((digitsOf text).takeWhile isDigit)

/-! ## Decimal digits -/

/-- Digits behind a value. -/
def addDigits (value : Nat) (digits : Bytes) : Nat := digits.foldl (fun n c => 10 * n + (c.toNat - 48)) value

theorem addDigits_le (digits : Bytes) : ∀ value, value ≤ addDigits value digits := by
  induction digits with
  | nil => exact Nat.le_refl
  | cons c digits ih =>
    intro value
    have hrest := ih (10 * value + (c.toNat - 48))
    show value ≤ addDigits (10 * value + (c.toNat - 48)) digits
    omega

variable {sign : Int}

/-- The end of the loop: the sign takes the number out of no range. -/
theorem readDigits_nil (hsign : sign = 1 ∨ sign = -1) {value : Nat} (hvalue : value < 2 ^ 63) :
    readDigits sign value [] = .accepted (value * sign) := by
  have hfits : FitsI64 (value * sign) := by
    unfold FitsI64
    rcases hsign with rfl | rfl <;> omega
  rw [readDigits, if_pos hfits]

/-- A turn of the loop: where the sum fits, the product fitted before. -/
theorem readDigits_cons (sign : Int) (value : Nat) (c : UInt8) (rest : Bytes) :
    readDigits sign value (c :: rest) =
      if isDigit c = true then
        if 10 * value + (c.toNat - 48) < 2 ^ 63 then
          readDigits sign (10 * value + (c.toNat - 48) : Nat) rest
        else .overflow
      else .refused := by
  have hcast : (value : Int) * 10 + (c.toNat - 48 : Nat) = (10 * value + (c.toNat - 48) : Nat) := by
    push_cast
    omega
  rw [readDigits, hcast]
  by_cases hc : isDigit c = true
  · rw [if_neg (by rw [hc]; decide), if_pos hc]
    by_cases hfits : 10 * value + (c.toNat - 48) < 2 ^ 63
    · have hproduct : FitsI64 ((value : Int) * 10) := by
        unfold FitsI64
        omega
      have hsum : FitsI64 ((10 * value + (c.toNat - 48) : Nat) : Int) := by
        unfold FitsI64
        omega
      rw [if_neg (not_not.mpr hproduct), if_neg (not_not.mpr hsum), if_pos hfits]
    · have hsum : ¬FitsI64 ((10 * value + (c.toNat - 48) : Nat) : Int) := by
        unfold FitsI64
        omega
      rw [if_pos hsum, if_neg hfits]
      split
      · rfl
      · rfl
  · rw [if_pos (by rw [Bool.eq_false_iff.mpr hc]; rfl), if_neg hc]

/-- **What the loop does**: it overflows as soon as the leading digits are too many; else it takes a text of
    digits, and refuses another one. -/
theorem readDigits_cases (hsign : sign = 1 ∨ sign = -1) (text : Bytes) : ∀ value : Nat, value < 2 ^ 63 →
    (2 ^ 63 ≤ addDigits value (text.takeWhile isDigit) → readDigits sign value text = .overflow) ∧
    (addDigits value (text.takeWhile isDigit) < 2 ^ 63 →
      readDigits sign value text =
        if text.all isDigit = true then .accepted (addDigits value text * sign) else .refused) := by
  induction text with
  | nil =>
    intro value hvalue
    refine ⟨fun hlarge => absurd hlarge (Nat.not_le.mpr hvalue), fun _ => ?_⟩
    rw [readDigits_nil hsign hvalue]
    rfl
  | cons c text ih =>
    intro value hvalue
    rw [readDigits_cons]
    by_cases hc : isDigit c = true
    · have hfold : ∀ digits, addDigits value (c :: digits) = addDigits (10 * value + (c.toNat - 48)) digits :=
        fun _ => rfl
      have hnext := addDigits_le (text.takeWhile isDigit) (10 * value + (c.toNat - 48))
      rw [List.takeWhile_cons_of_pos hc, hfold, if_pos hc]
      by_cases hfits : 10 * value + (c.toNat - 48) < 2 ^ 63
      · rw [if_pos hfits]
        obtain ⟨hlarge, hsmall⟩ := ih (10 * value + (c.toNat - 48)) hfits
        refine ⟨hlarge, fun htotal => ?_⟩
        rw [hsmall htotal, hfold, List.all_cons, hc, Bool.true_and]
      · rw [if_neg hfits]
        exact ⟨fun _ => rfl, fun htotal => absurd htotal (by omega)⟩
    · have hnot : ¬ (c :: text).all isDigit = true := fun hall =>
        hc (List.all_eq_true.mp hall c List.mem_cons_self)
      rw [List.takeWhile_cons_of_neg hc, if_neg hc]
      refine ⟨fun hlarge => absurd hlarge (Nat.not_le.mpr hvalue), fun _ => ?_⟩
      rw [if_neg hnot]

/-- The sign in front of a text. -/
def signOf (text : Bytes) : Int := if text.head? = some (chr '-') then -1 else 1

theorem signOf_cases (text : Bytes) : signOf text = 1 ∨ signOf text = -1 := by
  unfold signOf
  split
  · exact Or.inr rfl
  · exact Or.inl rfl

/-- Sign and digits make the number. -/
theorem spelled_iff (text : Bytes) (v : Int) : Spelled text v ↔
    digitsOf text ≠ [] ∧ (∀ c ∈ digitsOf text, isDigit c = true) ∧
      v = decimalValue (digitsOf text) * signOf text := by
  constructor
  · rintro (⟨hne, hdigits⟩ | @⟨digits, hne, hdigits⟩)
    · have hhead : text.head? ≠ some (chr '-') := by
        intro hhead
        exact absurd (hdigits _ (List.mem_of_head? hhead)) (by decide)
      rw [digitsOf, signOf, if_neg hhead, if_neg hhead, Int.mul_one]
      exact ⟨hne, hdigits, rfl⟩
    · refine ⟨hne, hdigits, ?_⟩
      show -(decimalValue digits : Int) = decimalValue digits * -1
      omega
  · rintro ⟨hne, hdigits, rfl⟩
    rw [digitsOf] at hne hdigits ⊢
    unfold signOf
    by_cases hhead : text.head? = some (chr '-')
    · obtain ⟨digits, rfl⟩ := List.head?_eq_some_iff.mp hhead
      rw [if_pos hhead] at hne hdigits
      rw [if_pos hhead, if_pos hhead, Int.mul_neg_one]
      exact Spelled.negative hne hdigits
    · rw [if_neg hhead] at hne hdigits
      rw [if_neg hhead, if_neg hhead, Int.mul_one]
      exact Spelled.positive hne hdigits

theorem readI64_eq (text : Bytes) :
    readI64 text = if digitsOf text = [] then .refused else readDigits (signOf text) 0 (digitsOf text) := by
  unfold readI64 digitsOf signOf
  by_cases hempty : text = []
  · subst hempty
    rfl
  rw [if_neg hempty]
  by_cases hhead : text.head? = some (chr '-')
  · rw [if_pos hhead, if_pos hhead, if_pos hhead]
  · rw [if_neg hhead, if_neg hhead, if_neg hhead]

/-- **`parse_i64` is exact** exactly if the leading digits are not too many. -/
theorem exactI64_iff (text : Bytes) : ExactI64 text ↔ magnitude text < 2 ^ 63 := by
  have hread := readI64_eq text
  obtain ⟨hlarge, hsmall⟩ := readDigits_cases (signOf_cases text) (digitsOf text) 0 (by decide)
  have hvalue : ∀ digits, addDigits 0 digits = decimalValue digits := fun _ => rfl
  rw [hvalue, ← magnitude] at hlarge hsmall
  rw [hvalue] at hsmall
  constructor
  · intro hexact
    by_contra hmany
    have hne : digitsOf text ≠ [] := by
      intro hempty
      rw [magnitude, hempty] at hmany
      exact hmany (by decide)
    exact hexact.defined (by rw [hread, if_neg hne]; exact hlarge (Nat.not_lt.mp hmany))
  · intro hfew
    by_cases hempty : digitsOf text = []
    · rw [if_pos hempty] at hread
      refine ⟨by rw [hread]; decide, fun v => ?_⟩
      rw [hread, spelled_iff]
      exact iff_of_false Reading.noConfusion fun h => h.1.1 hempty
    · rw [if_neg hempty] at hread
      replace hread := hread.trans (hsmall hfew)
      by_cases hdigits : ∀ c ∈ digitsOf text, isDigit c = true
      · rw [if_pos (List.all_eq_true.mpr hdigits)] at hread
        have hbound : decimalValue (digitsOf text) < 2 ^ 63 := by
          rwa [magnitude, List.takeWhile_eq_self_iff.mpr hdigits] at hfew
        refine ⟨by rw [hread]; exact Reading.noConfusion, fun v => ?_⟩
        rw [hread, spelled_iff, Reading.accepted.injEq]
        constructor
        · rintro rfl
          refine ⟨⟨hempty, hdigits, rfl⟩, ?_⟩
          unfold FitsI64
          rcases signOf_cases text with hsign | hsign
          · rw [hsign]
            omega
          · rw [hsign]
            omega
        · exact fun h => h.1.2.2.symm
      · rw [if_neg (mt List.all_eq_true.mp hdigits)] at hread
        refine ⟨by rw [hread]; decide, fun v => ?_⟩
        rw [hread, spelled_iff]
        exact iff_of_false Reading.noConfusion fun h => hdigits h.1.2.1

/-! ## Hexadecimal digits -/

theorem hexValue_lt {c nibble : UInt8} (h : hexValue c = some nibble) : nibble.toNat < 16 := by
  have hall : ∀ c : UInt8, (hexValue c).all (fun n => n.toNat < 16) = true := by
    apply byte_forall
    decide +kernel
  have hc := hall c
  rw [h] at hc
  exact of_decide_eq_true hc

/-- **What the loop does**: a text of digits is taken, with what its value leaves in 64 bits. -/
theorem hexFold (text : Bytes) : ∀ (value : UInt64) (n : Nat), value.toNat = n % 2 ^ 64 →
    (HexText text → ∃ w, text.foldlM hexStep value = some w ∧
      w.toNat = text.foldl (fun n c => 16 * n + ((hexValue c).getD 0).toNat) n % 2 ^ 64) ∧
    (¬HexText text → text.foldlM hexStep value = none) := by
  induction text with
  | nil =>
    intro value n hvalue
    exact ⟨fun _ => ⟨value, rfl, hvalue⟩, fun hno => absurd (fun _ hc => absurd hc List.not_mem_nil) hno⟩
  | cons c text ih =>
    intro value n hvalue
    rw [List.foldlM_cons, HexText, List.forall_mem_cons]
    cases hc : hexValue c with
    | none =>
      have hstep : hexStep value c = none := by rw [hexStep, hc, Option.map_none]
      rw [hstep]
      exact ⟨fun hhex => absurd hhex.1 Bool.false_ne_true, fun _ => rfl⟩
    | some nibble =>
      have hstep : hexStep value c = some (value <<< 4 ||| nibble.toUInt64) := by
        rw [hexStep, hc, Option.map_some]
      have hnext : (value <<< 4 ||| nibble.toUInt64).toNat = (16 * n + nibble.toNat) % 2 ^ 64 := by
        rw [nibble_wraps value (hexValue_lt hc), hvalue]
        omega
      rw [hstep]
      obtain ⟨htaken, hrefused⟩ := ih _ _ hnext
      refine ⟨fun hhex => ?_, fun hno => hrefused fun hrest => hno ⟨rfl, hrest⟩⟩
      rw [List.foldl_cons, hc]
      exact htaken hhex.2

/-- **`parse_u64_hex` is exact** exactly if a text of digits is not too long for its value. -/
theorem exactHex_iff (text : Bytes) : ExactHex text ↔ (HexText text → hexTextValue text < 2 ^ 64) := by
  obtain ⟨htaken, hrefused⟩ := hexFold text 0 0 rfl
  constructor
  · intro hexact hhex
    by_cases hempty : text = []
    · subst hempty
      decide
    obtain ⟨w, hw, -⟩ := htaken hhex
    have hparse : parseU64Hex text = some w := by rw [parseU64Hex, if_neg hempty, hw]
    rw [((hexact w).mp hparse).2.2]
    exact w.toNat_lt
  · intro hfits v
    by_cases hempty : text = []
    · rw [parseU64Hex, if_pos hempty]
      exact iff_of_false (Option.some_ne_none v).symm fun h => h.1 hempty
    rw [parseU64Hex, if_neg hempty]
    by_cases hhex : HexText text
    · obtain ⟨w, hw, hvalue⟩ := htaken hhex
      have hexactly : w.toNat = hexTextValue text := hvalue.trans (Nat.mod_eq_of_lt (hfits hhex))
      rw [hw, Option.some_inj]
      constructor
      · rintro rfl
        exact ⟨hempty, hhex, hexactly.symm⟩
      · rintro ⟨-, -, hv⟩
        exact UInt64.toNat_inj.mp (hexactly.trans hv)
    · rw [hrefused hhex]
      exact iff_of_false (Option.some_ne_none v).symm fun h => hhex h.2.1

/-! ## The loader -/

/-- The value of an accepted number. -/
def Reading.value? : Reading → Option Int
  | .accepted value => some value
  | .refused => none
  | .overflow => none

theorem readDigits_value (hsign : sign = 1 ∨ sign = -1) (text : Bytes) : ∀ value : Nat, value < 2 ^ 63 →
    (readDigits sign value text).value? = (parseDigits value text).map fun n : Nat => (n : Int) * sign := by
  induction text with
  | nil =>
    intro value hvalue
    rw [readDigits_nil hsign hvalue]
    rfl
  | cons c text ih =>
    intro value hvalue
    rw [readDigits_cons, parseDigits]
    by_cases hc : isDigit c = true
    · by_cases hfits : 10 * value + (c.toNat - 48) < 2 ^ 63
      · rw [if_pos hc, if_pos hfits, if_pos ⟨hc, hfits⟩, ih _ hfits]
      · rw [if_pos hc, if_neg hfits, if_neg fun h => hfits h.2]
        rfl
    · rw [if_neg hc, if_neg fun h => hc h.1]
      rfl

/-- The number that the rest of the development reads is this one; where it has none, C has no meaning or
    the text is refused. -/
theorem parseI64_value (text : Bytes) : parseI64 text = (readI64 text).value?.map Int64.ofInt := by
  rw [readI64_eq, digitsOf, signOf]
  cases text with
  | nil => rfl
  | cons c rest =>
    have hhead : (c :: rest).head? = some (chr '-') ↔ c = chr '-' := Option.some_inj
    rw [parseI64]
    by_cases hc : c = chr '-'
    · rw [if_pos hc, if_pos (hhead.mpr hc), if_pos (hhead.mpr hc), List.tail_cons]
      by_cases hrest : rest = []
      · rw [if_pos hrest, if_pos hrest]
        rfl
      · have hvalue : (readDigits (-1) 0 rest).value? = _ := readDigits_value (Or.inr rfl) rest 0 (by decide)
        rw [if_neg hrest, if_neg hrest, hvalue, Option.map_map]
        refine congrArg (fun f : Nat → Int64 => (parseDigits 0 _).map f) (funext fun n => ?_)
        show Int64.ofInt (-(n : Int)) = Int64.ofInt ((n : Int) * -1)
        rw [Int.mul_neg_one]
    · have hvalue : (readDigits 1 0 (c :: rest)).value? = _ :=
        readDigits_value (Or.inl rfl) (c :: rest) 0 (by decide)
      rw [if_neg hc, if_neg (mt hhead.mp hc), if_neg (mt hhead.mp hc), if_neg (List.cons_ne_nil c rest),
        hvalue, Option.map_map]
      refine congrArg (fun f : Nat → Int64 => (parseDigits 0 _).map f) (funext fun n => ?_)
      show Int64.ofInt (n : Int) = Int64.ofInt ((n : Int) * 1)
      rw [Int.mul_one]

/-! ## The result -/

/-- Two texts are one time only if they spell one number. -/
def TellsTimes (a b : Bytes) : Prop :=
  ∀ v w x, readI64 a = .accepted v → readI64 b = .accepted v → Spelled a w → Spelled b x → w = x

/-- Two texts are one hash only if they have one value. -/
def TellsHashes (a b : Bytes) : Prop :=
  ∀ v, parseU64Hex a = some v → parseU64Hex b = some v → hexTextValue a = hexTextValue b

theorem tellsTimes_of {a b : Bytes} (ha : ExactI64 a) (hb : ExactI64 b) : TellsTimes a b := by
  intro v w x hreadA hreadB hspellA hspellB
  have hv := ((spelled_iff a v).mp ((ha.value v).mp hreadA).1).2.2
  have hv' := ((spelled_iff b v).mp ((hb.value v).mp hreadB).1).2.2
  rw [((spelled_iff a w).mp hspellA).2.2, ((spelled_iff b x).mp hspellB).2.2, ← hv, ← hv']

theorem tellsHashes_of {a b : Bytes} (ha : ExactHex a) (hb : ExactHex b) : TellsHashes a b := by
  intro v hreadA hreadB
  rw [((ha v).mp hreadA).2.2, ((hb v).mp hreadB).2.2]

/-- **The readers are exact up to the limits** that they do not check; on texts within them no two numbers are
    taken for one. -/
theorem numbers_exact (text other : Bytes) :
    (ExactI64 text ↔ magnitude text < 2 ^ 63) ∧
    (ExactHex text ↔ (HexText text → hexTextValue text < 2 ^ 64)) ∧
    (ExactI64 text → ExactI64 other → TellsTimes text other) ∧
    (ExactHex text → ExactHex other → TellsHashes text other) :=
  ⟨exactI64_iff text, exactHex_iff text, tellsTimes_of, tellsHashes_of⟩

/-- **Past the limits**: the least `int64_t` overflows, and seventeen digits are the hash zero. -/
theorem limits_unchecked : (¬∀ text, ExactI64 text) ∧ ¬∀ text, ExactHex text := by
  constructor
  · intro hall
    have hoverflow : readI64 (str "-9223372036854775808") = .overflow := by decide +kernel
    exact (hall _).defined hoverflow
  · intro hall
    have hzero : parseU64Hex (str "10000000000000000") = some 0 := by decide +kernel
    have hvalue := ((hall _ _).mp hzero).2.2
    exact absurd hvalue (by decide +kernel)

end SmolClaw.Security
