/-
  Text helpers of the core library: lower case, case-insensitive search, hexadecimal digits and
  random identifiers (`sc_uuid_v4`, `src/core/time.c`).

  An identifier is 36 bytes out of `0-9a-f-`; that is all later proofs ask of one
  (`uuidV4_isUuidByte`, `uuidV4_ne_nil`).
-/
import Mathlib.Data.List.Infix
import SmolClaw.Core.Utf8

namespace SmolClaw

/-! ## Case -/

/-- `tolower` in the C locale -/
def toLower (c : UInt8) : UInt8 := if chr 'A' ≤ c ∧ c ≤ chr 'Z' then c + 32 else c

/-- `str_contains_casefold`: the nested loops look for the needle at every offset; an empty needle is
    everywhere. -/
def strContainsCasefold (haystack needle : Bytes) : Bool :=
  decide (needle.map toLower <:+: haystack.map toLower)

/-! ## Hexadecimal -/

/-- The digit `%x` prints for a value below 16. -/
def hexDigit (v : UInt8) : UInt8 := if v < 10 then chr '0' + v else chr 'a' + (v - 10)

/-- The table `"0123456789ABCDEF"` the stores write their escapes with. -/
def hexUpper (v : UInt8) : UInt8 := if v < 10 then chr '0' + v else chr 'A' + (v - 10)

/-- `hex[ch >> 4]` and `hex[ch & 0x0f]` -/
def hexUpperDigits (c : UInt8) : UInt8 × UInt8 := (hexUpper (c >>> 4), hexUpper (c &&& 15))

/-- `%02x` -/
def hexByte (b : UInt8) : Bytes := [hexDigit (b >>> 4), hexDigit (b &&& 15)]

/-- `sodium_bin2hex` -/
def bin2hex (bytes : Bytes) : Bytes := bytes.flatMap hexByte

theorem bin2hex_length (bytes : Bytes) : (bin2hex bytes).length = 2 * bytes.length := by
  induction bytes with
  | nil => rfl
  | cons b bytes ih =>
    rw [bin2hex, List.flatMap_cons, List.length_append, ← bin2hex, ih, List.length_cons]
    show 2 + 2 * bytes.length = _
    omega

/-- A digit shows its value. -/
theorem hexDigit_injective : ∀ v < 16, ∀ w < 16,
    hexDigit (UInt8.ofNat v) = hexDigit (UInt8.ofNat w) → v = w := by
  decide

theorem hexByte_injective {a b : UInt8} (h : hexByte a = hexByte b) : a = b := by
  have hhalves : ∀ b : UInt8,
      (b >>> 4) = UInt8.ofNat (b.toNat / 16) ∧ (b &&& 15) = UInt8.ofNat (b.toNat % 16) := by
    intro b
    have hb := b.toNat_lt
    constructor
    · apply UInt8.toNat_inj.mp
      rw [UInt8.toNat_shiftRight, UInt8.toNat_ofNat_of_lt' (show b.toNat / 16 < 256 by omega)]
      exact Nat.shiftRight_eq_div_pow _ 4
    · apply UInt8.toNat_inj.mp
      rw [UInt8.toNat_and, UInt8.toNat_ofNat_of_lt' (show b.toNat % 16 < 256 by omega)]
      exact Nat.and_two_pow_sub_one_eq_mod b.toNat 4
  obtain ⟨hhigh, hrest⟩ := List.cons.inj h
  have hlow := (List.cons.inj hrest).1
  rw [(hhalves a).1, (hhalves b).1] at hhigh
  rw [(hhalves a).2, (hhalves b).2] at hlow
  have ha := a.toNat_lt
  have hb := b.toNat_lt
  have h16 := hexDigit_injective _ (by omega) _ (by omega) hhigh
  have h1 := hexDigit_injective _ (by omega) _ (by omega) hlow
  exact UInt8.toNat_inj.mp (by omega)

/-- **Hexadecimal text shows its bytes.** -/
theorem bin2hex_injective {bytes bytes' : Bytes} (h : bin2hex bytes = bin2hex bytes') : bytes = bytes' := by
  induction bytes generalizing bytes' with
  | nil =>
    have hlen := congrArg List.length h
    rw [bin2hex_length, bin2hex_length, List.length_nil] at hlen
    exact (List.length_eq_zero_iff.mp (by omega)).symm
  | cons b bytes ih =>
    cases bytes' with
    | nil =>
      have hlen := congrArg List.length h
      rw [bin2hex_length, bin2hex_length, List.length_cons, List.length_nil] at hlen
      omega
    | cons b' bytes' =>
      rw [bin2hex, bin2hex, List.flatMap_cons, List.flatMap_cons] at h
      obtain ⟨hfirst, hrest⟩ := List.append_inj h rfl
      rw [hexByte_injective hfirst, ih hrest]

/-! ## Identifiers -/

/-- `sc_uuid_v4`, from the 16 bytes `sc_random_bytes` delivers: version and variant bits are set, and
    the bytes are printed in groups of 4, 2, 2, 2 and 6. -/
def uuidV4 (random : Vector UInt8 16) : Bytes :=
  let bytes := (random.set 6 ((random[6] &&& 0x0F) ||| 0x40)).set 8 ((random[8] &&& 0x3F) ||| 0x80)
  let group (from' count : Nat) : Bytes := ((bytes.toList.drop from').take count).flatMap hexByte
  group 0 4 ++ chr '-' :: (group 4 2 ++ chr '-' :: (group 6 2 ++ chr '-' ::
    (group 8 2 ++ chr '-' :: group 10 6)))

/-- The bytes an identifier is made of. -/
def isUuidByte (c : UInt8) : Bool :=
  (chr '0' ≤ c && c ≤ chr '9') || (chr 'a' ≤ c && c ≤ chr 'f') || c == chr '-'

theorem isUuidByte_hexByte (b : UInt8) : ∀ c ∈ hexByte b, isUuidByte c = true :=
  byte_forall_mem (by decide +kernel) b

theorem uuidV4_isUuidByte (random : Vector UInt8 16) : ∀ c ∈ uuidV4 random, isUuidByte c = true := by
  have hgroup : ∀ (bs : Bytes), ∀ c ∈ bs.flatMap hexByte, isUuidByte c = true := by
    intro bs c hc
    obtain ⟨b, -, hb⟩ := List.mem_flatMap.mp hc
    exact isUuidByte_hexByte b c hb
  have hdash : isUuidByte (chr '-') = true := by decide
  intro c hc
  simp only [uuidV4, List.mem_append, List.mem_cons] at hc
  rcases hc with h | rfl | h | rfl | h | rfl | h | rfl | h
  · exact hgroup _ c h
  · exact hdash
  · exact hgroup _ c h
  · exact hdash
  · exact hgroup _ c h
  · exact hdash
  · exact hgroup _ c h
  · exact hdash
  · exact hgroup _ c h

theorem uuidV4_ne_nil (random : Vector UInt8 16) : uuidV4 random ≠ [] := by
  unfold uuidV4
  exact fun h => List.cons_ne_nil _ _ (List.append_eq_nil_iff.mp h).2

/-- Identifiers are ASCII. -/
theorem uuidV4_utf8 (random : Vector UInt8 16) : strIsValidUtf8 (uuidV4 random) = true := by
  have hascii : ∀ c, isUuidByte c = true → c ≤ 0x7F := by
    intro c hc
    simp only [isUuidByte, Bool.or_eq_true, Bool.and_eq_true, decide_eq_true_eq, beq_iff_eq] at hc
    rcases hc with (⟨-, hle⟩ | ⟨-, hle⟩) | rfl
    · exact UInt8.le_trans hle (by decide)
    · exact UInt8.le_trans hle (by decide)
    · decide
  exact utf8_ascii fun c hc => hascii c (uuidV4_isUuidByte random c hc)

end SmolClaw
