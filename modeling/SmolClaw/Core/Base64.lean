/-
  Base64 in the URL-safe alphabet without padding, the form libsodium writes for
  `sodium_base64_VARIANT_URLSAFE_NO_PADDING`.

  Three bytes become four characters, a rest of one or two bytes becomes two or three.  Decoding
  inverts encoding (`base64Decode_encode`); the text is as long as
  `sodium_base64_ENCODED_LEN` says, less the final NUL, and made of characters no line format
  uses for itself.
-/
import SmolClaw.Core.Utf8
import SmolClaw.Lib.Sextets

namespace SmolClaw

open Lib.Sextets

/-- The character of a sextet. -/
def base64Char (n : Nat) : UInt8 :=
  if n < 26 then UInt8.ofNat (65 + n)
  else if n < 52 then UInt8.ofNat (97 + (n - 26))
  else if n < 62 then UInt8.ofNat (48 + (n - 52))
  else if n = 62 then chr '-'
  else chr '_'

/-- The sextet of a character. -/
def base64Value (c : UInt8) : Option Nat :=
  if chr 'A' ≤ c ∧ c ≤ chr 'Z' then some (c.toNat - 65)
  else if chr 'a' ≤ c ∧ c ≤ chr 'z' then some (c.toNat - 97 + 26)
  else if chr '0' ≤ c ∧ c ≤ chr '9' then some (c.toNat - 48 + 52)
  else if c = chr '-' then some 62
  else if c = chr '_' then some 63
  else none

/-- The characters of an encoded text. -/
def isBase64 (c : UInt8) : Bool := (base64Value c).isSome

/-- `sodium_bin2base64` -/
def base64Encode : Bytes → Bytes
  | a :: b :: c :: rest =>
      base64Char (a.toNat / 4) :: base64Char (a.toNat % 4 * 16 + b.toNat / 16) ::
        base64Char (b.toNat % 16 * 4 + c.toNat / 64) :: base64Char (c.toNat % 64) :: base64Encode rest
  | [a, b] =>
      [base64Char (a.toNat / 4), base64Char (a.toNat % 4 * 16 + b.toNat / 16),
        base64Char (b.toNat % 16 * 4)]
  | [a] => [base64Char (a.toNat / 4), base64Char (a.toNat % 4 * 16)]
  | [] => []

/-- `sodium_base642bin` over a whole text: the bits left over at its end have to be zero. -/
def base64Decode : Bytes → Option Bytes
  | w :: x :: y :: z :: rest => do
      let w ← base64Value w
      let x ← base64Value x
      let y ← base64Value y
      let z ← base64Value z
      let rest ← base64Decode rest
      return UInt8.ofNat (w * 4 + x / 16) :: UInt8.ofNat (x % 16 * 16 + y / 4) ::
        UInt8.ofNat (y % 4 * 64 + z) :: rest
  | [w, x, y] => do
      let w ← base64Value w
      let x ← base64Value x
      let y ← base64Value y
      if y % 4 = 0 then return [UInt8.ofNat (w * 4 + x / 16), UInt8.ofNat (x % 16 * 16 + y / 4)]
      else none
  | [w, x] => do
      let w ← base64Value w
      let x ← base64Value x
      if x % 16 = 0 then return [UInt8.ofNat (w * 4 + x / 16)] else none
  | [] => some []
  | [_] => none

/-- `sodium_base64_ENCODED_LEN(n, sodium_base64_VARIANT_URLSAFE_NO_PADDING) - 1` -/
def base64EncodedLen (n : Nat) : Nat := n / 3 * 4 + (if n % 3 = 0 then 0 else n % 3 + 1)

theorem base64Value_char {n : Nat} (h : n < 64) : base64Value (base64Char n) = some n := by
  have hall : ∀ n : Fin 64, base64Value (base64Char n) = some n.val := by decide
  exact hall ⟨n, h⟩

/-- The characters are those of the sextets. -/
theorem base64Encode_eq (bytes : Bytes) : base64Encode bytes = (sextets bytes).map base64Char := by
  fun_induction base64Encode bytes with
  | case1 a b c rest ih => rw [ih, sextets]; rfl
  | case2 | case3 | case4 => rfl

theorem base64Encode_length (bytes : Bytes) :
    (base64Encode bytes).length = base64EncodedLen bytes.length := by
  rw [base64Encode_eq, List.length_map, sextets_length, base64EncodedLen]
  split <;> omega

theorem base64Encode_isBase64 (bytes : Bytes) : ∀ c ∈ base64Encode bytes, isBase64 c = true := by
  intro c hc
  rw [base64Encode_eq] at hc
  obtain ⟨n, hn, rfl⟩ := List.mem_map.mp hc
  rw [isBase64, base64Value_char (sextets_lt bytes n hn)]
  rfl

/-- **Decoding inverts encoding.** -/
theorem base64Decode_encode (bytes : Bytes) : base64Decode (base64Encode bytes) = some bytes := by
  have hbyte : ∀ b : UInt8, b.toNat < 256 := fun b => b.toNat_lt
  fun_induction base64Encode bytes with
  | case1 a b c rest ih =>
    have ha := hbyte a
    have hb := hbyte b
    have hc := hbyte c
    rw [base64Decode, base64Value_char (by omega), base64Value_char (by omega),
      base64Value_char (by omega), base64Value_char (by omega), ih]
    show some (_ :: _ :: _ :: rest) = _
    rw [ofNat_of_eq (b := a) (by omega), ofNat_of_eq (b := b) (by omega), ofNat_of_eq (b := c) (by omega)]
  | case2 a b =>
    have ha := hbyte a
    have hb := hbyte b
    rw [base64Decode, base64Value_char (by omega), base64Value_char (by omega),
      base64Value_char (by omega)]
    show (if b.toNat % 16 * 4 % 4 = 0 then some [_, _] else none) = _
    rw [if_pos (by omega), ofNat_of_eq (b := a) (by omega), ofNat_of_eq (b := b) (by omega)]
  | case3 a =>
    have ha := hbyte a
    rw [base64Decode, base64Value_char (by omega), base64Value_char (by omega)]
    show (if a.toNat % 4 * 16 % 16 = 0 then some [_] else none) = _
    rw [if_pos (by omega), ofNat_of_eq (b := a) (by omega)]
  | case4 => rfl

/-! ## The standard alphabet -/

/-- The character of the standard alphabet for one of the URL-safe alphabet. -/
def base64Standard (c : UInt8) : UInt8 :=
  if c = chr '-' then chr '+' else if c = chr '_' then chr '/' else c

/-- `sodium_bin2base64` with `sodium_base64_VARIANT_ORIGINAL`: padded to whole groups of four. -/
def base64EncodeOriginal (bytes : Bytes) : Bytes :=
  (base64Encode bytes).map base64Standard ++ List.replicate ((3 - bytes.length % 3) % 3) (chr '=')

/-- The two alphabets have as many characters. -/
theorem base64Standard_injective {c d : UInt8} (hc : isBase64 c = true) (hd : isBase64 d = true)
    (h : base64Standard c = base64Standard d) : c = d := by
  have hback : ∀ c, isBase64 c = true →
      (if base64Standard c = chr '+' then chr '-'
        else if base64Standard c = chr '/' then chr '_' else base64Standard c) = c := by
    intro c hc
    have hplus : c ≠ chr '+' := by rintro rfl; exact absurd hc (by decide)
    have hslash : c ≠ chr '/' := by rintro rfl; exact absurd hc (by decide)
    by_cases hminus : c = chr '-'
    · rw [hminus]
      decide
    · by_cases hunder : c = chr '_'
      · rw [hunder]
        decide
      · rw [base64Standard, if_neg hminus, if_neg hunder, if_neg hplus, if_neg hslash]
  rw [← hback c hc, ← hback d hd, h]

/-- **Texts of one length are told apart.** -/
theorem base64EncodeOriginal_injective {bytes bytes' : Bytes} (hlen : bytes.length = bytes'.length)
    (h : base64EncodeOriginal bytes = base64EncodeOriginal bytes') : bytes = bytes' := by
  have hsame : ((base64Encode bytes).map base64Standard).length =
      ((base64Encode bytes').map base64Standard).length := by
    rw [List.length_map, List.length_map, base64Encode_length, base64Encode_length, hlen]
  have hmap := (List.append_inj h hsame).1
  have hencode : base64Encode bytes = base64Encode bytes' := by
    refine List.ext_getElem ?_ fun i hi hi' => ?_
    · rw [base64Encode_length, base64Encode_length, hlen]
    · refine base64Standard_injective (base64Encode_isBase64 bytes _ (List.getElem_mem hi))
        (base64Encode_isBase64 bytes' _ (List.getElem_mem hi')) ?_
      have hget := List.getElem_of_eq hmap (by rwa [List.length_map])
      rwa [List.getElem_map, List.getElem_map] at hget
  have hdecode := congrArg base64Decode hencode
  rw [base64Decode_encode, base64Decode_encode] at hdecode
  exact Option.some.inj hdecode

example : base64Encode (str "light w") = str "bGlnaHQgdw" := by decide

end SmolClaw
