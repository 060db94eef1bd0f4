/-
  UTF-8 validation (`sc_str_is_valid_utf8`, `src/core/string.c`).

  The check walks the bytes character by character: an ASCII byte is a character, a lead byte of two,
  three or four wants that many bytes, all continuations, and the code point they spell may be
  neither overlong, nor a surrogate, nor above `0x10FFFF`.

  What the rest of the development needs of it are two closure facts: valid texts concatenate
  (`utf8_append`), and a valid text stays valid when its ASCII bytes are replaced by ASCII texts
  (`utf8_flatMap`), which is what every escaping function of the program does.  Both have a converse:
  valid texts may be cut at ASCII bytes (`utf8_cut`), and escaping hides no fault (`utf8_of_flatMap`).
  A valid text cut after any number of bytes is valid exactly if the next byte begins a character
  (`utf8_take_iff`).
-/
import SmolClaw.Core.Status

namespace SmolClaw

/-- `(continuation & 0xC0) == 0x80` -/
def isContinuation (b : UInt8) : Bool := b &&& 0xC0 == 0x80

/-- `codepoint = (codepoint << 6) | (continuation & 0x3F)` -/
def utf8Shift (codepoint : UInt32) (b : UInt8) : UInt32 :=
  (codepoint <<< 6) ||| (b &&& 0x3F).toUInt32

/-- The last test on a character of `needed` bytes: not overlong, in range, no surrogate. -/
def codepointOk (needed : Nat) (codepoint : UInt32) : Bool :=
  !((needed == 2 && codepoint < 0x80) || (needed == 3 && codepoint < 0x800) ||
    (needed == 4 && codepoint < 0x10000) || codepoint > 0x10FFFF ||
    (codepoint ≥ 0xD800 && codepoint ≤ 0xDFFF))

/-- `sc_str_is_valid_utf8`; a text that ends inside a character is invalid. -/
def strIsValidUtf8 : Bytes → Bool
  | [] => true
  | a :: t =>
      if a ≤ 0x7F then strIsValidUtf8 t
      else if a &&& 0xE0 = 0xC0 then
        match t with
        | b :: t =>
            isContinuation b && codepointOk 2 (utf8Shift (a &&& 0x1F).toUInt32 b) &&
              strIsValidUtf8 t
        | _ => false
      else if a &&& 0xF0 = 0xE0 then
        match t with
        | b :: c :: t =>
            isContinuation b && isContinuation c &&
              codepointOk 3 (utf8Shift (utf8Shift (a &&& 0x0F).toUInt32 b) c) && strIsValidUtf8 t
        | _ => false
      else if a &&& 0xF8 = 0xF0 then
        match t with
        | b :: c :: d :: t =>
            isContinuation b && isContinuation c && isContinuation d &&
              codepointOk 4 (utf8Shift (utf8Shift (utf8Shift (a &&& 0x07).toUInt32 b) c) d) &&
              strIsValidUtf8 t
        | _ => false
      else false

/-- A predicate that is checked on all 256 bytes holds of every byte. -/
theorem byte_forall {p : UInt8 → Prop} (h : ∀ n : Fin 256, p (UInt8.ofNat n.val)) (b : UInt8) :
    p b := by
  have hb := h ⟨b.toNat, b.toNat_lt⟩
  rwa [UInt8.ofNat_toNat] at hb

/-- A property of every byte a function writes, checked byte by byte. -/
theorem byte_forall_mem {f : UInt8 → Bytes} {p : UInt8 → Bool}
    (h : ∀ n : Fin 256, (f (UInt8.ofNat n.val)).all p = true) (b : UInt8) :
    ∀ c ∈ f b, p c = true :=
  List.all_eq_true.mp (byte_forall (p := fun b => (f b).all p = true) h b)

/-- A continuation byte is no ASCII byte. -/
theorem not_ascii_of_continuation {b : UInt8} (h : isContinuation b = true) : ¬ b ≤ 0x7F := by
  revert h
  apply byte_forall (p := fun b => isContinuation b = true → ¬ b ≤ 0x7F)
  decide +kernel

theorem utf8_one {a : UInt8} (t : Bytes) (ha : a ≤ 0x7F) : strIsValidUtf8 (a :: t) = strIsValidUtf8 t := by
  rw [strIsValidUtf8.eq_def]
  exact if_pos ha

/-- A character of a valid text: an ASCII byte, or bytes of which none is; all but the first continue it,
    and what follows it is read as if it stood alone. -/
structure IsCharacter (c : Bytes) : Prop where
  bytes : (∃ a ≤ 0x7F, c = [a]) ∨ (c ≠ [] ∧ ∀ b ∈ c, ¬ b ≤ 0x7F)
  tail : ∀ b ∈ c.tail, isContinuation b = true
  valid : ∀ t, strIsValidUtf8 (c ++ t) = strIsValidUtf8 t

/-- **Induction over the characters** of a valid text. -/
theorem utf8_induction {P : Bytes → Prop} (nil : P [])
    (char : ∀ c t, IsCharacter c → strIsValidUtf8 t = true → P t → P (c ++ t)) {s : Bytes}
    (hs : strIsValidUtf8 s = true) : P s := by
  have hlong : ∀ {a : UInt8} {bs : Bytes}, ¬ a ≤ 0x7F → (∀ b ∈ bs, isContinuation b = true) →
      (∀ t, strIsValidUtf8 (a :: bs ++ t) = strIsValidUtf8 t) → IsCharacter (a :: bs) := by
    intro a bs ha hbs hvalid
    refine ⟨.inr ⟨List.cons_ne_nil a bs, List.forall_mem_cons.mpr ⟨ha, fun b hb => ?_⟩⟩, hbs, hvalid⟩
    exact not_ascii_of_continuation (hbs b hb)
  fun_induction strIsValidUtf8 s with
  | case1 => exact nil
  | case2 a s ha ih => exact char [a] s ⟨.inl ⟨a, ha, rfl⟩, by simp, fun t => utf8_one t ha⟩ hs (ih hs)
  | case3 a ha h2 b s ih =>
    obtain ⟨⟨hb, hcp⟩, hs⟩ := by simpa only [Bool.and_eq_true] using hs
    refine char [a, b] s (hlong ha (by simpa using hb) fun t => ?_) hs (ih hs)
    show strIsValidUtf8 (a :: b :: t) = _
    rw [strIsValidUtf8.eq_def]
    refine ((if_neg ha).trans (if_pos h2)).trans ?_
    show (isContinuation b && codepointOk 2 _ && strIsValidUtf8 t) = _
    rw [hb, hcp]
    rfl
  | case5 a ha h2 h3 b c s ih =>
    obtain ⟨⟨⟨hb, hc⟩, hcp⟩, hs⟩ := by simpa only [Bool.and_eq_true] using hs
    refine char [a, b, c] s (hlong ha (by simpa using ⟨hb, hc⟩) fun t => ?_) hs (ih hs)
    show strIsValidUtf8 (a :: b :: c :: t) = _
    rw [strIsValidUtf8.eq_def]
    refine ((if_neg ha).trans ((if_neg h2).trans (if_pos h3))).trans ?_
    show (isContinuation b && isContinuation c && codepointOk 3 _ && strIsValidUtf8 t) = _
    rw [hb, hc, hcp]
    rfl
  | case7 a ha h2 h3 h4 b c d s ih =>
    obtain ⟨⟨⟨⟨hb, hc⟩, hd⟩, hcp⟩, hs⟩ := by simpa only [Bool.and_eq_true] using hs
    refine char [a, b, c, d] s (hlong ha (by simpa using ⟨hb, hc, hd⟩) fun t => ?_) hs (ih hs)
    show strIsValidUtf8 (a :: b :: c :: d :: t) = _
    rw [strIsValidUtf8.eq_def]
    refine ((if_neg ha).trans ((if_neg h2).trans ((if_neg h3).trans (if_pos h4)))).trans ?_
    show (isContinuation b && isContinuation c && isContinuation d && codepointOk 4 _ &&
      strIsValidUtf8 t) = _
    rw [hb, hc, hd, hcp]
    rfl
  | case4 | case6 | case8 | case9 => exact absurd hs Bool.false_ne_true

/-- **Valid texts concatenate**: after a valid text, only what follows decides. -/
theorem utf8_append {s : Bytes} (hs : strIsValidUtf8 s = true) (t : Bytes) :
    strIsValidUtf8 (s ++ t) = strIsValidUtf8 t := by
  refine utf8_induction (P := fun s => strIsValidUtf8 (s ++ t) = strIsValidUtf8 t) rfl ?_ hs
  intro c s hc _ ih
  rw [List.append_assoc, hc.valid, ih]

theorem utf8_append_of {s t : Bytes} (hs : strIsValidUtf8 s = true) (ht : strIsValidUtf8 t = true) :
    strIsValidUtf8 (s ++ t) = true := by
  rw [utf8_append hs, ht]

/-- An ASCII text is valid. -/
theorem utf8_ascii {s : Bytes} (h : ∀ b ∈ s, b ≤ 0x7F) : strIsValidUtf8 s = true := by
  induction s with
  | nil => rfl
  | cons b s ih =>
    rw [utf8_one s (h b List.mem_cons_self)]
    exact ih fun c hc => h c (List.mem_cons_of_mem b hc)

/-- **Escaping keeps validity**: a map that replaces ASCII bytes by valid texts and leaves every
    other byte alone sends valid texts to valid texts. -/
theorem utf8_flatMap {f : UInt8 → Bytes} (hascii : ∀ b ≤ 0x7F, strIsValidUtf8 (f b) = true)
    (hother : ∀ b, ¬ b ≤ 0x7F → f b = [b]) {s : Bytes} (hs : strIsValidUtf8 s = true) :
    strIsValidUtf8 (s.flatMap f) = true := by
  refine utf8_induction (P := fun s => strIsValidUtf8 (s.flatMap f) = true) rfl ?_ hs
  intro c s hc _ ih
  rw [List.flatMap_append]
  rcases hc.bytes with ⟨a, ha, rfl⟩ | ⟨-, hlong⟩
  · rw [List.flatMap_singleton]
    exact utf8_append_of (hascii a ha) ih
  · -- a longer character passes unchanged
    have hsame : c.flatMap f = c := by
      rw [List.flatMap_congr (fun b hb => hother b (hlong b hb)), List.flatMap_singleton']
    rw [hsame, hc.valid]
    exact ih

/-- What stands in front of a character is valid by itself: a character that is begun there wants
    continuation bytes, and `b` is none. -/
theorem utf8_front {p : Bytes} {b : UInt8} {t : Bytes} (h : strIsValidUtf8 (p ++ b :: t) = true)
    (hb : isContinuation b = false) : strIsValidUtf8 p = true := by
  refine utf8_induction (P := fun text => ∀ p, p ++ b :: t = text → strIsValidUtf8 p = true) ?_ ?_ h p rfl
  · intro p htext
    exact absurd htext (List.append_ne_nil_of_right_ne_nil p (List.cons_ne_nil b t))
  · intro c rest hc _ ih p htext
    rcases List.append_eq_append_iff.mp htext with ⟨l, rfl, hcut⟩ | ⟨l, rfl, hl⟩
    · rcases p with _ | ⟨a, p⟩
      · rfl
      rcases l with _ | ⟨d, l⟩
      · have hs := hc.valid []
        rwa [List.append_nil, List.append_nil] at hs
      · -- `b` would stand inside the character
        obtain ⟨rfl, -⟩ := List.cons.inj hcut
        have htail := hc.tail b (List.mem_append_right p List.mem_cons_self)
        exact absurd (hb.symm.trans htail) Bool.false_ne_true
    · rw [hc.valid]
      exact ih l hl.symm

/-- A byte that begins a character continues none. -/
theorem not_continuation_of_lead {a : UInt8}
    (h : a ≤ 0x7F ∨ a &&& 0xE0 = 0xC0 ∨ a &&& 0xF0 = 0xE0 ∨ a &&& 0xF8 = 0xF0) :
    isContinuation a = false := by
  revert h
  apply byte_forall (p := fun a => (a ≤ 0x7F ∨ a &&& 0xE0 = 0xC0 ∨ a &&& 0xF0 = 0xE0 ∨
    a &&& 0xF8 = 0xF0) → isContinuation a = false)
  decide +kernel

/-- **A valid text may be cut at an ASCII byte**: none stands inside a longer character. -/
theorem utf8_cut {a : UInt8} (ha : a ≤ 0x7F) {s t : Bytes} (h : strIsValidUtf8 (s ++ a :: t) = true) :
    strIsValidUtf8 s = true ∧ strIsValidUtf8 t = true := by
  have hs := utf8_front h (not_continuation_of_lead (.inl ha))
  rw [utf8_append hs, utf8_one t ha] at h
  exact ⟨hs, h⟩

/-- **Escaping hides no fault**: a map that replaces some ASCII bytes by ASCII texts and leaves every
    other byte alone sends only valid texts to valid texts. -/
theorem utf8_of_flatMap {f : UInt8 → Bytes}
    (hf : ∀ b, f b = [b] ∨ (b ≤ 0x7F ∧ f b ≠ [] ∧ ∀ c ∈ f b, c ≤ 0x7F)) :
    ∀ (s front : Bytes), strIsValidUtf8 (front ++ s.flatMap f) = true →
      strIsValidUtf8 (front ++ s) = true := by
  intro s
  induction s with
  | nil => intro front h; exact h
  | cons b s ih =>
    intro front h
    rw [List.flatMap_cons] at h
    rcases hf b with hb | ⟨hb, hne, hascii⟩
    · rw [hb, ← List.append_assoc] at h
      have hrest := ih (front ++ [b]) h
      rwa [List.append_assoc] at hrest
    · -- cut in front of the replacement, which is valid itself
      obtain ⟨c, cs, hc⟩ := List.exists_cons_of_ne_nil hne
      rw [hc, List.cons_append] at h
      rw [hc] at hascii
      obtain ⟨hfront, htail⟩ := utf8_cut (hascii c List.mem_cons_self) h
      have hcs : strIsValidUtf8 cs = true := utf8_ascii fun d hd => hascii d (List.mem_cons_of_mem c hd)
      have hs := ih [] (by rwa [utf8_append hcs] at htail)
      exact utf8_append_of hfront (by rwa [utf8_one s hb])

/-- A cut after `n` bytes falls inside a character: the first byte that is dropped continues one. -/
def cutsInside (s : Bytes) (n : Nat) : Bool :=
  match s[n]? with
  | some b => isContinuation b
  | none => false

/-- A valid text begins with a character. -/
theorem utf8_head {b : UInt8} {t : Bytes} (h : strIsValidUtf8 (b :: t) = true) :
    isContinuation b = false := by
  rw [strIsValidUtf8.eq_def] at h
  simp only at h
  by_cases h1 : b ≤ 0x7F
  · exact not_continuation_of_lead (.inl h1)
  rw [if_neg h1] at h
  by_cases h2 : b &&& 0xE0 = 0xC0
  · exact not_continuation_of_lead (.inr (.inl h2))
  rw [if_neg h2] at h
  by_cases h3 : b &&& 0xF0 = 0xE0
  · exact not_continuation_of_lead (.inr (.inr (.inl h3)))
  rw [if_neg h3] at h
  by_cases h4 : b &&& 0xF8 = 0xF0
  · exact not_continuation_of_lead (.inr (.inr (.inr h4)))
  · rw [if_neg h4] at h
    exact absurd h Bool.false_ne_true

/-- **Where a valid text may be cut**: the part in front is valid exactly if the cut falls between two
    characters. -/
theorem utf8_take_iff {s : Bytes} (hs : strIsValidUtf8 s = true) (n : Nat) :
    strIsValidUtf8 (s.take n) = true ↔ cutsInside s n = false := by
  rcases Nat.lt_or_ge n s.length with hlt | hge
  · have hsplit : s.take n ++ s[n] :: s.drop (n + 1) = s := by
      rw [← List.drop_eq_getElem_cons hlt, List.take_append_drop]
    have hcut : cutsInside s n = isContinuation s[n] := by
      rw [cutsInside, List.getElem?_eq_getElem hlt]
    rw [hcut]
    constructor
    · intro htake
      rw [← hsplit, utf8_append htake] at hs
      exact utf8_head hs
    · intro hb
      exact utf8_front (by rwa [hsplit]) hb
  · rw [List.take_of_length_le hge, cutsInside, List.getElem?_eq_none hge]
    exact iff_of_true hs rfl

/-- What stands in front of an ASCII byte and a valid text decides about the whole. -/
theorem utf8_before {a : UInt8} (ha : a ≤ 0x7F) (s : Bytes) {t : Bytes} (ht : strIsValidUtf8 t = true) :
    strIsValidUtf8 (s ++ a :: t) = true ↔ strIsValidUtf8 s = true := by
  constructor
  · intro h
    exact (utf8_cut ha h).1
  · intro hs
    exact utf8_append_of hs ((utf8_one t ha).trans ht)

example : strIsValidUtf8 [0xE2, 0x82, 0xAC] = true ∧ strIsValidUtf8 [0xC0, 0x80] = false := by decide

end SmolClaw
