/-
  Characters as the standard writes them, and as the program does.

  1. **The encoder** — `append_utf8_codepoint` (`src/json/json.c`) writes the UTF-8 form of a character
     (`utf8Codepoint_char`), which the check takes (`utf8Codepoint_valid`).

  2. **The check** — a text that `sc_str_is_valid_utf8` (`src/core/string.c`) takes is made of such forms
     (`utf8_wellFormed`): lead byte and continuations give the code point, and the tests on it leave one form
     for each.
-/
import SmolClaw.Json.Serialize

namespace SmolClaw

/-- **Well-formed UTF-8**: the forms of characters, one after another. -/
def WellFormed (s : Bytes) : Prop := ∃ cs : List Char, s = cs.flatMap String.utf8EncodeChar

/-! ## Bits -/

/-- Bits above and bits below, as a number. -/
theorem shiftLeft_or_toNat {high low : UInt32} {k : Nat} (hk : k < 32) (hhigh : high.toNat * 2 ^ k < 2 ^ 32)
    (hlow : low.toNat < 2 ^ k) :
    ((high <<< UInt32.ofNat k) ||| low).toNat = high.toNat * 2 ^ k + low.toNat := by
  have hshift : (high <<< UInt32.ofNat k).toNat = high.toNat <<< k := by
    have hamount : (UInt32.ofNat k).toNat = k := UInt32.toNat_ofNat_of_lt' (by show k < 2 ^ 32; omega)
    rw [UInt32.toNat_shiftLeft, hamount, Nat.mod_eq_of_lt hk, Nat.shiftLeft_eq]
    exact Nat.mod_eq_of_lt hhigh
  rw [UInt32.toNat_or, hshift, ← Nat.shiftLeft_add_eq_or_of_lt hlow, Nat.shiftLeft_eq]

/-- Six more bits, as a number. -/
theorem utf8Shift_toNat {codepoint : UInt32} {b : UInt8} (h : codepoint.toNat < 2 ^ 26) :
    (utf8Shift codepoint b).toNat = codepoint.toNat * 64 + b.toNat % 64 := by
  have hlow : (b &&& 0x3F).toUInt32.toNat = b.toNat % 64 := by
    rw [UInt8.toNat_toUInt32, UInt8.toNat_and]
    exact Nat.and_two_pow_sub_one_eq_mod b.toNat 6
  rw [← hlow]
  apply shiftLeft_or_toNat (k := 6) (by decide) (by omega)
  rw [hlow]
  exact Nat.mod_lt _ (by decide)

/-- A predicate that is checked on all numbers below `n` holds of every small word. -/
theorem word_forall {n : Nat} {p : UInt32 → Prop} (h : ∀ y : Fin n, p (UInt32.ofNat y.val)) {x : UInt32}
    (hx : x.toNat < n) : p x := by
  have hy := h ⟨x.toNat, hx⟩
  rwa [UInt32.ofNat_toNat] at hy

/-! ## The encoder -/

/-- A marked byte, as a number. -/
theorem lead_toNat {x : UInt32} {n : Nat} (hx : x.toNat = n) :
    (n < 32 → ((0xC0 : UInt32) ||| x).toUInt8 = UInt8.ofNat (n + 0xC0)) ∧
    (n < 16 → ((0xE0 : UInt32) ||| x).toUInt8 = UInt8.ofNat (n + 0xE0)) ∧
    (n < 8 → ((0xF0 : UInt32) ||| x).toUInt8 = UInt8.ofNat (n + 0xF0)) := by
  subst hx
  refine ⟨?_, ?_, ?_⟩
  · apply word_forall
    decide
  · apply word_forall
    decide
  · apply word_forall
    decide

/-- A continuation, as a number. -/
theorem tail_toNat {x : UInt32} {n : Nat} (hx : x.toNat % 64 = n % 64) :
    ((0x80 : UInt32) ||| (x &&& 0x3F)).toUInt8 = UInt8.ofNat (n % 64 + 0x80) := by
  have hmask : (x &&& 0x3F).toNat = n % 64 := by
    rw [UInt32.toNat_and, ← hx]
    exact Nat.and_two_pow_sub_one_eq_mod x.toNat 6
  have hsmall : (x &&& 0x3F).toNat < 64 := by omega
  rw [← hmask]
  revert hsmall
  apply word_forall (p := fun y => ((0x80 : UInt32) ||| y).toUInt8 = UInt8.ofNat (y.toNat + 0x80))
  decide

/-- No character is a surrogate. -/
theorem char_range (c : Char) :
    c.val.toNat < 0xD800 ∨ (0xDFFF < c.val.toNat ∧ c.val.toNat < 0x110000) :=
  c.valid

/-- **`append_utf8_codepoint` writes characters.** -/
theorem utf8Codepoint_char (c : Char) : utf8Codepoint c.val = some (String.utf8EncodeChar c) := by
  have hright : ∀ k : UInt32, ∀ n : Nat, k.toNat < 32 → 2 ^ k.toNat = n →
      (c.val >>> k).toNat = c.val.toNat / n := by
    intro k n hk hn
    rw [UInt32.toNat_shiftRight, Nat.mod_eq_of_lt hk, Nat.shiftRight_eq_div_pow, hn]
  have h6 : (c.val >>> 6).toNat = c.val.toNat / 64 := hright 6 64 (by decide) (by decide)
  have h12 : (c.val >>> 12).toNat = c.val.toNat / 4096 := hright 12 4096 (by decide) (by decide)
  have h18 : (c.val >>> 18).toNat = c.val.toNat / 262144 := hright 18 262144 (by decide) (by decide)
  have hmax : c.val.toNat ≤ 0x10FFFF := by
    have hvalid := char_range c
    omega
  unfold utf8Codepoint String.utf8EncodeChar
  simp only [UInt32.le_iff_toNat_le]
  change (if c.val.toNat ≤ 0x7F then _ else if c.val.toNat ≤ 0x7FF then _ else
    if c.val.toNat ≤ 0xFFFF then _ else if c.val.toNat ≤ 0x10FFFF then _ else _) = _
  by_cases hone : c.val.toNat ≤ 0x7F
  · rw [if_pos hone, if_pos hone]
    congr 2
  · rw [if_neg hone, if_neg hone]
    by_cases htwo : c.val.toNat ≤ 0x7FF
    · rw [if_pos htwo, if_pos htwo, tail_toNat (n := c.val.toNat) rfl, (lead_toNat h6).1 (by omega),
        Nat.mod_eq_of_lt (a := c.val.toNat / 64) (by omega)]
    · rw [if_neg htwo, if_neg htwo]
      by_cases hthree : c.val.toNat ≤ 0xFFFF
      · rw [if_pos hthree, if_pos hthree, tail_toNat (n := c.val.toNat) rfl,
          tail_toNat (n := c.val.toNat / 64) (by rw [h6]), (lead_toNat h12).2.1 (by omega),
          Nat.mod_eq_of_lt (a := c.val.toNat / 4096) (by omega)]
      · rw [if_neg hthree, if_neg hthree, if_pos hmax, tail_toNat (n := c.val.toNat) rfl,
          tail_toNat (n := c.val.toNat / 4096) (by rw [h12]), tail_toNat (n := c.val.toNat / 64) (by rw [h6]),
          (lead_toNat h18).2.2 (by omega), Nat.mod_eq_of_lt (a := c.val.toNat / 262144) (by omega)]

/-- A number that is no surrogate is a character, and `append_utf8_codepoint` writes its form. -/
theorem utf8Codepoint_scalar {cp : UInt32} {text : Bytes} (htext : utf8Codepoint cp = some text)
    (hscalar : cp.toNat < 0xD800 ∨ (0xDFFF < cp.toNat ∧ cp.toNat < 0x110000)) :
    ∃ c : Char, c.val.toNat = cp.toNat ∧ text = String.utf8EncodeChar c := by
  have hchar := utf8Codepoint_char ⟨cp, hscalar⟩
  exact ⟨⟨cp, hscalar⟩, rfl, Option.some.inj (htext.symm.trans hchar)⟩

/-! ## The check -/

/-- A code point that `parse_unicode_escape` returns: in range, and no surrogate. -/
def IsScalar (cp : UInt32) : Prop := cp.toNat ≤ 0x10FFFF ∧ ¬ (0xD800 ≤ cp.toNat ∧ cp.toNat ≤ 0xDFFF)

/-- The last test on a code point of so many bytes: a character, that needs them all. -/
theorem codepointOk_iff {needed : Nat} {cp : UInt32} : codepointOk needed cp = true ↔ IsScalar cp ∧
    (needed = 2 → 0x80 ≤ cp.toNat) ∧ (needed = 3 → 0x800 ≤ cp.toNat) ∧ (needed = 4 → 0x10000 ≤ cp.toNat) := by
  simp only [codepointOk, Bool.not_eq_true', Bool.or_eq_false_iff, Bool.and_eq_false_iff, beq_eq_false_iff_ne,
    decide_eq_false_iff_not, UInt32.lt_iff_toNat_lt, UInt32.le_iff_toNat_le, gt_iff_lt, ge_iff_le]
  change ((((needed ≠ 2 ∨ ¬cp.toNat < 0x80) ∧ (needed ≠ 3 ∨ ¬cp.toNat < 0x800)) ∧
    (needed ≠ 4 ∨ ¬cp.toNat < 0x10000)) ∧ ¬0x10FFFF < cp.toNat) ∧
      (¬0xD800 ≤ cp.toNat ∨ ¬cp.toNat ≤ 0xDFFF) ↔ _
  unfold IsScalar
  omega

theorem IsScalar.char {cp : UInt32} (h : IsScalar cp) : ∃ c : Char, cp = c.val := by
  unfold IsScalar at h
  exact ⟨⟨cp, show cp.toNat < 0xD800 ∨ (0xDFFF < cp.toNat ∧ cp.toNat < 0x110000) by omega⟩, rfl⟩

/-- A continuation, written and read. -/
theorem tail_read (n : Nat) : isContinuation (UInt8.ofNat (n % 64 + 0x80)) = true ∧
    (UInt8.ofNat (n % 64 + 0x80)).toNat % 64 = n % 64 := by
  have hall : ∀ k : Fin 64, isContinuation (UInt8.ofNat (k.val + 0x80)) = true ∧
      (UInt8.ofNat (k.val + 0x80)).toNat % 64 = k.val := by
    decide
  exact hall ⟨n % 64, Nat.mod_lt n (by decide)⟩

/-- The six low bits, put back behind the others. -/
theorem utf8Shift_tail {x : UInt32} {n : Nat} (hn : n < 2 ^ 32) (h : x.toNat = n / 64) :
    (utf8Shift x (UInt8.ofNat (n % 64 + 0x80))).toNat = n := by
  rw [utf8Shift_toNat (by omega), (tail_read n).2]
  omega

/-- The first of several bytes, written and read. -/
theorem lead_two (k : Fin 32) :
    ¬UInt8.ofNat (k.val + 0xC0) ≤ 0x7F ∧ UInt8.ofNat (k.val + 0xC0) &&& 0xE0 = 0xC0 ∧
      (UInt8.ofNat (k.val + 0xC0) &&& 0x1F).toUInt32.toNat = k.val := by
  decide +revert

theorem lead_three (k : Fin 16) :
    ¬UInt8.ofNat (k.val + 0xE0) ≤ 0x7F ∧ UInt8.ofNat (k.val + 0xE0) &&& 0xE0 ≠ 0xC0 ∧
      UInt8.ofNat (k.val + 0xE0) &&& 0xF0 = 0xE0 ∧
        (UInt8.ofNat (k.val + 0xE0) &&& 0x0F).toUInt32.toNat = k.val := by
  decide +revert

theorem lead_four (k : Fin 8) :
    ¬UInt8.ofNat (k.val + 0xF0) ≤ 0x7F ∧ UInt8.ofNat (k.val + 0xF0) &&& 0xE0 ≠ 0xC0 ∧
      UInt8.ofNat (k.val + 0xF0) &&& 0xF0 ≠ 0xE0 ∧ UInt8.ofNat (k.val + 0xF0) &&& 0xF8 = 0xF0 ∧
        (UInt8.ofNat (k.val + 0xF0) &&& 0x07).toUInt32.toNat = k.val := by
  decide +revert

/-- The form of a character is taken. -/
theorem utf8_encodeChar (c : Char) : strIsValidUtf8 (String.utf8EncodeChar c) = true := by
  have hvalid := char_range c
  have hscalar : IsScalar c.val := by unfold IsScalar; omega
  have hcp : ∀ {cp : UInt32}, cp.toNat = c.val.toNat → cp = c.val := UInt32.toNat_inj.mp
  unfold String.utf8EncodeChar
  dsimp only
  split
  · next hone =>
    apply utf8_one []
    rw [UInt8.le_iff_toNat_le, UInt8.toNat_ofNat']
    exact (Nat.mod_le _ _).trans hone
  split
  · obtain ⟨ha, hmask, hbits⟩ := lead_two ⟨c.val.toNat / 64 % 32, Nat.mod_lt _ (by decide)⟩
    have hlast := hcp (utf8Shift_tail (n := c.val.toNat) (by omega) (hbits.trans (Nat.mod_eq_of_lt (by omega))))
    have hok : codepointOk 2 c.val = true := codepointOk_iff.mpr ⟨hscalar, by omega⟩
    rw [strIsValidUtf8.eq_def]
    refine (if_neg ha).trans ((if_pos hmask).trans ?_)
    simp only [(tail_read _).1, hlast, hok, strIsValidUtf8, Bool.and_self]
  split
  · obtain ⟨ha, hno, hmask, hbits⟩ := lead_three ⟨c.val.toNat / 4096 % 16, Nat.mod_lt _ (by decide)⟩
    have hmiddle := utf8Shift_tail (n := c.val.toNat / 64) (by omega) (hbits.trans (by dsimp only; omega))
    have hlast := hcp (utf8Shift_tail (by omega) hmiddle)
    have hok : codepointOk 3 c.val = true := codepointOk_iff.mpr ⟨hscalar, by omega⟩
    rw [strIsValidUtf8.eq_def]
    refine (if_neg ha).trans ((if_neg hno).trans ((if_pos hmask).trans ?_))
    simp only [(tail_read _).1, hlast, hok, strIsValidUtf8, Bool.and_self]
  · obtain ⟨ha, hno, hno', hmask, hbits⟩ := lead_four ⟨c.val.toNat / 262144 % 8, Nat.mod_lt _ (by decide)⟩
    have hfirst := utf8Shift_tail (n := c.val.toNat / 4096) (by omega) (hbits.trans (by dsimp only; omega))
    have hmiddle := utf8Shift_tail (n := c.val.toNat / 64) (by omega) (hfirst.trans (by omega))
    have hlast := hcp (utf8Shift_tail (by omega) hmiddle)
    have hok : codepointOk 4 c.val = true := codepointOk_iff.mpr ⟨hscalar, by omega⟩
    rw [strIsValidUtf8.eq_def]
    refine (if_neg ha).trans ((if_neg hno).trans ((if_neg hno').trans ((if_pos hmask).trans ?_)))
    simp only [(tail_read _).1, hlast, hok, strIsValidUtf8, Bool.and_self]

/-- **The bytes of a code point are one character**: what is appended is valid. -/
theorem utf8Codepoint_valid {cp : UInt32} {text : Bytes} (hcp : IsScalar cp)
    (h : utf8Codepoint cp = some text) : strIsValidUtf8 text = true := by
  obtain ⟨c, rfl⟩ := hcp.char
  rw [utf8Codepoint_char] at h
  cases h
  exact utf8_encodeChar c

/-- The marks of a byte, as numbers. -/
theorem marks_toNat (a : UInt8) :
    (a &&& 0xE0 = 0xC0 → a.toNat = (a &&& 0x1F).toNat + 0xC0 ∧ (a &&& 0x1F).toNat < 32) ∧
    (a &&& 0xF0 = 0xE0 → a.toNat = (a &&& 0x0F).toNat + 0xE0 ∧ (a &&& 0x0F).toNat < 16) ∧
    (a &&& 0xF8 = 0xF0 → a.toNat = (a &&& 0x07).toNat + 0xF0 ∧ (a &&& 0x07).toNat < 8) ∧
    (isContinuation a = true → a.toNat = a.toNat % 64 + 0x80) := by
  revert a
  apply byte_forall
  decide +kernel

theorem wellFormed_cons {c : Char} {s : Bytes} (h : WellFormed s) : WellFormed (String.utf8EncodeChar c ++ s) := by
  obtain ⟨cs, rfl⟩ := h
  exact ⟨c :: cs, by rw [List.flatMap_cons]⟩

theorem eq_ofNat {b : UInt8} {n : Nat} (h : n = b.toNat) : b = UInt8.ofNat n := by
  rw [h, UInt8.ofNat_toNat]

/-- The last of several bytes is the one that the code point has. -/
theorem tail_of_shift {x : UInt32} {b : UInt8} {n : Nat} (hb : isContinuation b = true) (hx : x.toNat < 2 ^ 26)
    (h : (utf8Shift x b).toNat = n) : x.toNat = n / 64 ∧ b = UInt8.ofNat (n % 64 + 0x80) := by
  have htail := (marks_toNat b).2.2.2 hb
  rw [utf8Shift_toNat hx] at h
  exact ⟨by omega, eq_ofNat (by omega)⟩

/-- Characters of two, three and four bytes. -/
theorem char_two {a b : UInt8} (ha : a &&& 0xE0 = 0xC0) (hb : isContinuation b = true)
    (hok : codepointOk 2 (utf8Shift (a &&& 0x1F).toUInt32 b) = true) :
    ∃ c : Char, [a, b] = String.utf8EncodeChar c := by
  obtain ⟨hscalar, hleast, -⟩ := codepointOk_iff.mp hok
  obtain ⟨c, hc⟩ := hscalar.char
  obtain ⟨hlead, hbits⟩ := (marks_toNat a).1 ha
  have hwide := UInt8.toNat_toUInt32 (a &&& 0x1F)
  obtain ⟨hfirst, hsecond⟩ := tail_of_shift hb (by omega) (congrArg UInt32.toNat hc)
  rw [hc] at hleast
  have ha : a = UInt8.ofNat (c.val.toNat / 64 % 32 + 0xC0) := eq_ofNat (by omega)
  refine ⟨c, ?_⟩
  unfold String.utf8EncodeChar
  dsimp only
  rw [if_neg (by omega), if_pos (by omega), ← ha, ← hsecond]

theorem char_three {a b d : UInt8} (ha : a &&& 0xF0 = 0xE0) (hb : isContinuation b = true)
    (hd : isContinuation d = true)
    (hok : codepointOk 3 (utf8Shift (utf8Shift (a &&& 0x0F).toUInt32 b) d) = true) :
    ∃ c : Char, [a, b, d] = String.utf8EncodeChar c := by
  obtain ⟨hscalar, -, hleast, -⟩ := codepointOk_iff.mp hok
  obtain ⟨c, hc⟩ := hscalar.char
  obtain ⟨hlead, hbits⟩ := (marks_toNat a).2.1 ha
  have hwide := UInt8.toNat_toUInt32 (a &&& 0x0F)
  obtain ⟨hmiddle, hthird⟩ := tail_of_shift hd (by rw [utf8Shift_toNat (by omega)]; omega)
    (congrArg UInt32.toNat hc)
  obtain ⟨hfirst, hsecond⟩ := tail_of_shift hb (by omega) hmiddle
  rw [hc] at hleast
  have ha : a = UInt8.ofNat (c.val.toNat / 4096 % 16 + 0xE0) := eq_ofNat (by omega)
  refine ⟨c, ?_⟩
  unfold String.utf8EncodeChar
  dsimp only
  rw [if_neg (by omega), if_neg (by omega), if_pos (by omega), ← ha, ← hsecond, ← hthird]

theorem char_four {a b d e : UInt8} (ha : a &&& 0xF8 = 0xF0) (hb : isContinuation b = true)
    (hd : isContinuation d = true) (he : isContinuation e = true)
    (hok : codepointOk 4 (utf8Shift (utf8Shift (utf8Shift (a &&& 0x07).toUInt32 b) d) e) = true) :
    ∃ c : Char, [a, b, d, e] = String.utf8EncodeChar c := by
  obtain ⟨hscalar, -, -, hleast⟩ := codepointOk_iff.mp hok
  obtain ⟨c, hc⟩ := hscalar.char
  obtain ⟨hlead, hbits⟩ := (marks_toNat a).2.2.1 ha
  have hwide := UInt8.toNat_toUInt32 (a &&& 0x07)
  have hinner : (utf8Shift (a &&& 0x07).toUInt32 b).toNat < 512 := by
    rw [utf8Shift_toNat (by omega)]
    omega
  obtain ⟨hmiddle, hfourth⟩ := tail_of_shift he (by rw [utf8Shift_toNat (by omega)]; omega)
    (congrArg UInt32.toNat hc)
  obtain ⟨hthis, hthird⟩ := tail_of_shift hd (by omega) hmiddle
  rw [Nat.div_div_eq_div_mul] at hthis
  obtain ⟨hfirst, hsecond⟩ := tail_of_shift hb (by omega) hthis
  rw [hc] at hleast
  have ha : a = UInt8.ofNat (c.val.toNat / 262144 % 8 + 0xF0) := eq_ofNat (by omega)
  refine ⟨c, ?_⟩
  unfold String.utf8EncodeChar
  dsimp only
  rw [if_neg (by omega), if_neg (by omega), if_neg (by omega), ← ha, ← hsecond, ← hthird, ← hfourth]

theorem char_one {a : UInt8} (ha : a ≤ 0x7F) : ∃ c : Char, [a] = String.utf8EncodeChar c := by
  have hsmall : a.toNat ≤ 0x7F := UInt8.le_iff_toNat_le.mp ha
  have hval : a.toUInt32.toNat = a.toNat := UInt8.toNat_toUInt32 a
  refine ⟨⟨a.toUInt32, show a.toUInt32.toNat < 0xD800 ∨ _ from Or.inl (by omega)⟩, ?_⟩
  unfold String.utf8EncodeChar
  dsimp only
  rw [hval, if_pos hsmall, UInt8.ofNat_toNat]

/-- **What the check takes is well-formed**, character by character. -/
theorem utf8_wellFormed {s : Bytes} (hs : strIsValidUtf8 s = true) : WellFormed s := by
  have hstep : ∀ {form t : Bytes}, (∃ c : Char, form = String.utf8EncodeChar c) → WellFormed t →
      WellFormed (form ++ t) := by
    rintro form t ⟨c, rfl⟩ ht
    exact wellFormed_cons ht
  fun_induction strIsValidUtf8 s with
  | case1 => exact ⟨[], rfl⟩
  | case2 a s ha ih => exact hstep (char_one ha) (ih hs)
  | case3 a ha h2 b s ih =>
    obtain ⟨⟨hb, hcp⟩, hs⟩ := by simpa only [Bool.and_eq_true] using hs
    exact hstep (char_two h2 hb hcp) (ih hs)
  | case5 a ha h2 h3 b c s ih =>
    obtain ⟨⟨⟨hb, hc⟩, hcp⟩, hs⟩ := by simpa only [Bool.and_eq_true] using hs
    exact hstep (char_three h3 hb hc hcp) (ih hs)
  | case7 a ha h2 h3 h4 b c d s ih =>
    obtain ⟨⟨⟨⟨hb, hc⟩, hd⟩, hcp⟩, hs⟩ := by simpa only [Bool.and_eq_true] using hs
    exact hstep (char_four h4 hb hc hd hcp) (ih hs)
  | case4 | case6 | case8 | case9 => exact absurd hs Bool.false_ne_true

end SmolClaw
