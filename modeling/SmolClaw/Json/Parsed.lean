/-
  What the reader returns (`sc_json_parse`, `src/json/json.c`).

  1. **Strings** — the loop of `parse_string` appends byte by byte, so in the middle of a character
     neither half is valid; what it keeps is that the text so far with the text left is
     (`parseStringLoop_valid`).

  2. **Trees** — every node the reader returns is one it may return (`Json.readNode`): its texts are
     valid, its numbers finite, and no more than `JSON_MAX_DEPTH` containers stand around it.

  3. **Round trips** — a tree is read back from what is written of it exactly when the reader may return it
     (`serialize_exact_iff`), so a document survives any number of rewritings (`jsonParse_rewritten`).
-/
import SmolClaw.Json.Characters
import SmolClaw.Json.Serialize
import SmolClaw.Json.Weight

namespace SmolClaw

/-! ## Escapes -/

theorem jsonHexValue_some {c : UInt8} {value : UInt32} (h : jsonHexValue c = some value) :
    c ≤ 0x7F ∧ value.toNat < 16 := by
  have hall : ∀ c : UInt8, (jsonHexValue c).all (fun v => c ≤ 0x7F ∧ v.toNat < 16) = true := by
    apply byte_forall
    decide +kernel
  have hc := hall c
  rw [h] at hc
  exact of_decide_eq_true hc

/-- Digits are read off the front of a valid text, and add four bits each. -/
theorem parseHex_valid : ∀ (n k : Nat) (codepoint : UInt32) (left : Bytes) {value : UInt32} {rest : Bytes},
    strIsValidUtf8 left = true → codepoint.toNat < 16 ^ k → k + n ≤ 7 →
    parseHex n codepoint left = .ok (value, rest) →
      strIsValidUtf8 rest = true ∧ value.toNat < 16 ^ (k + n) := by
  intro n
  induction n with
  | zero =>
    intro k codepoint left value rest hleft hcp _ h
    cases h
    exact ⟨hleft, hcp⟩
  | succ n ih =>
    intro k codepoint left value rest hleft hcp hk h
    cases left with
    | nil => cases h
    | cons c left =>
      rw [parseHex] at h
      split at h
      · next digit hdigit =>
        obtain ⟨hascii, hsmall⟩ := jsonHexValue_some hdigit
        rw [utf8_one left hascii] at hleft
        have hroom : 16 ^ (k + 1) ≤ 16 ^ 7 := Nat.pow_le_pow_right (by decide) (by omega)
        rw [Nat.pow_succ] at hroom
        have hnext : ((codepoint <<< 4) ||| digit).toNat = codepoint.toNat * 2 ^ 4 + digit.toNat :=
          shiftLeft_or_toNat (k := 4) (by decide) (by omega) hsmall
        have hbound : ((codepoint <<< 4) ||| digit).toNat < 16 ^ (k + 1) := by
          rw [hnext, Nat.pow_succ]
          omega
        have hrest := ih (k + 1) _ left hleft hbound (by omega) h
        rwa [Nat.add_right_comm] at hrest
      · cases h

/-- The code point of a pair, as a number. -/
theorem surrogatePair_toNat {high low : UInt32} (hhigh : 0xD800 ≤ high.toNat ∧ high.toNat ≤ 0xDBFF)
    (hlow : 0xDC00 ≤ low.toNat ∧ low.toNat ≤ 0xDFFF) :
    ((0x10000 : UInt32) + (((high - 0xD800) <<< 10) ||| (low - 0xDC00))).toNat =
      0x10000 + ((high.toNat - 0xD800) * 1024 + (low.toNat - 0xDC00)) := by
  have hupper : (high - 0xD800).toNat = high.toNat - 0xD800 :=
    UInt32.toNat_sub_of_le _ _ (UInt32.le_iff_toNat_le.mpr hhigh.1)
  have hlower : (low - 0xDC00).toNat = low.toNat - 0xDC00 :=
    UInt32.toNat_sub_of_le _ _ (UInt32.le_iff_toNat_le.mpr hlow.1)
  have hbits : (((high - 0xD800) <<< 10) ||| (low - 0xDC00)).toNat =
      (high - 0xD800).toNat * 2 ^ 10 + (low - 0xDC00).toNat :=
    shiftLeft_or_toNat (k := 10) (by decide) (by omega) (by omega)
  have hbase : (0x10000 : UInt32).toNat = 0x10000 := rfl
  rw [UInt32.toNat_add, hbits, hupper, hlower, hbase]
  omega

/-- The second half of a pair makes a code point above `0xFFFF`. -/
theorem parseLowSurrogate_valid {high value : UInt32} {left rest : Bytes}
    (hhigh : 0xD800 ≤ high.toNat ∧ high.toNat ≤ 0xDBFF) (hleft : strIsValidUtf8 left = true)
    (h : parseLowSurrogate high left = .ok (value, rest)) :
    strIsValidUtf8 rest = true ∧ IsScalar value := by
  unfold parseLowSurrogate at h
  split at h
  · next backslash u after =>
    split at h
    · cases h
    · next hmark =>
      simp only [not_or, not_not, ne_eq] at hmark
      obtain ⟨-, rfl, rfl⟩ := hmark
      rw [utf8_one _ (by decide), utf8_one _ (by decide)] at hleft
      split at h
      · next low tail hlow =>
        split at h
        · cases h
        · next hrange =>
          cases h
          obtain ⟨hrest, -⟩ := parseHex_valid 4 0 0 after hleft (by decide) (by decide) hlow
          refine ⟨hrest, ?_⟩
          simp only [not_or, gt_iff_lt, UInt32.lt_iff_toNat_lt] at hrange
          change ¬ low.toNat < 0xDC00 ∧ ¬ 0xDFFF < low.toNat at hrange
          have hlowRange : 0xDC00 ≤ low.toNat ∧ low.toNat ≤ 0xDFFF := by omega
          have hpair := surrogatePair_toNat hhigh hlowRange
          constructor <;> rw [hpair] <;> omega
      · cases h
  · cases h

/-- **An escape is a code point**, and the text behind it is valid again. -/
theorem parseUnicodeEscape_valid {value : UInt32} {left rest : Bytes} (hleft : strIsValidUtf8 left = true)
    (h : parseUnicodeEscape left = .ok (value, rest)) : strIsValidUtf8 rest = true ∧ IsScalar value := by
  unfold parseUnicodeEscape at h
  split at h
  · cases h
  · split at h
    · next codepoint tail hhex =>
      obtain ⟨htail, hbound⟩ := parseHex_valid 4 0 0 left hleft (by decide) (by decide) hhex
      simp only [UInt32.le_iff_toNat_le] at h
      split at h
      · next hhigh => exact parseLowSurrogate_valid hhigh htail h
      · next hhigh =>
        change ¬ (0xD800 ≤ codepoint.toNat ∧ codepoint.toNat ≤ 0xDBFF) at hhigh
        split at h
        · cases h
        · next hlow =>
          change ¬ (0xDC00 ≤ codepoint.toNat ∧ codepoint.toNat ≤ 0xDFFF) at hlow
          cases h
          exact ⟨htail, by omega, by omega⟩
    · cases h

/-! ## Strings -/

theorem simpleEscape_ascii {e c : UInt8} (h : simpleEscape e = some c) : e ≤ 0x7F ∧ c ≤ 0x7F :=
  of_decide_eq_true (simpleEscape_forall (p := fun e c => decide (e ≤ 0x7F ∧ c ≤ 0x7F)) (by decide) h)

/-- The loop of `parse_string`: the text so far and the text left are valid together. -/
theorem parseStringLoop_valid : ∀ (turns : Nat) (builder left : Bytes) {s rest : Bytes},
    strIsValidUtf8 (builder ++ left) = true → parseStringLoop turns builder left = .ok (s, rest) →
      strIsValidUtf8 s = true ∧ strIsValidUtf8 rest = true := by
  intro turns
  induction turns with
  | zero => intro builder left s rest _ h; cases h
  | succ turns ih =>
    intro builder left s rest hvalid h
    cases left with
    | nil => cases h
    | cons ch left =>
      rw [parseStringLoop.eq_def] at h
      dsimp only at h
      split at h
      · next hquote =>
        cases h
        rw [hquote] at hvalid
        exact utf8_cut (by decide) hvalid
      · split at h
        · cases h
        · split at h
          · next hslash =>
            rw [hslash] at hvalid
            obtain ⟨hbuilder, hleft⟩ := utf8_cut (by decide) hvalid
            split at h
            · cases h
            · next e after =>
              split at h
              · next c hc =>
                obtain ⟨he, hascii⟩ := simpleEscape_ascii hc
                rw [utf8_one after he] at hleft
                refine ih _ _ (utf8_append_of (utf8_append_of hbuilder ?_) hleft) h
                exact utf8_one [] hascii
              · split at h
                · next hu =>
                  rw [hu, utf8_one after (by decide)] at hleft
                  split at h
                  · next codepoint tail hescape =>
                    obtain ⟨htail, hscalar⟩ := parseUnicodeEscape_valid hleft hescape
                    split at h
                    · next text htext =>
                      have hcp := utf8Codepoint_valid hscalar htext
                      exact ih _ _ (utf8_append_of (utf8_append_of hbuilder hcp) htail) h
                    · cases h
                  · cases h
                · cases h
          · -- a byte of its own: it only changes sides
            refine ih _ _ ?_ h
            rwa [List.append_assoc, List.singleton_append]

/-- **The reader's strings are valid.** -/
theorem parseString_valid {left s rest : Bytes} (hleft : strIsValidUtf8 left = true)
    (h : parseString left = .ok (s, rest)) : strIsValidUtf8 s = true ∧ strIsValidUtf8 rest = true := by
  unfold parseString at h
  split at h
  · next after hquote =>
    rw [consume_some hquote, utf8_one after (by decide)] at hleft
    exact parseStringLoop_valid _ [] after hleft h
  · cases h

/-! ## Trees -/

section Reader

variable {p : Bytes → Parsed Json} {ok : Json → Prop}

/-- From a valid text, `p` reads values that satisfy `ok` and leaves a valid text. -/
def ReadsValid (p : Bytes → Parsed Json) (ok : Json → Prop) : Prop :=
  ∀ left v rest, strIsValidUtf8 left = true → p left = .ok (v, rest) → ok v ∧ strIsValidUtf8 rest = true

theorem skipWs_valid {left : Bytes} (h : strIsValidUtf8 left = true) : strIsValidUtf8 (skipWs left) = true := by
  have hblank : ∀ c : UInt8, isWs c = true → c ≤ 0x7F := by
    intro c hc
    simp only [isWs, Bool.or_eq_true, beq_iff_eq] at hc
    rcases hc with ((rfl | rfl) | rfl) | rfl <;> decide
  induction left with
  | nil => exact h
  | cons c left ih =>
    by_cases hc : isWs c = true
    · rw [utf8_one left (hblank c hc)] at h
      rw [skipWs, List.dropWhile_cons_of_pos hc]
      exact ih h
    · rw [skipWs, List.dropWhile_cons_of_neg hc]
      exact h

/-- A separator is taken off a valid text. -/
theorem consume_valid {c : UInt8} {left rest : Bytes} (hc : c ≤ 0x7F) (hleft : strIsValidUtf8 left = true)
    (h : consume c (skipWs left) = some rest) : strIsValidUtf8 rest = true := by
  have hskip := skipWs_valid hleft
  rwa [consume_some h, utf8_one rest hc] at hskip

theorem parseMember_valid (hp : ReadsValid p ok) {left rest : Bytes} {m : Bytes × Json}
    (hleft : strIsValidUtf8 left = true) (h : parseMember p left = .ok (m, rest)) :
    (strIsValidUtf8 m.1 = true ∧ ok m.2) ∧ strIsValidUtf8 rest = true := by
  obtain ⟨after, t, hkey, hcolon, hvalue⟩ := parseMember_read h
  obtain ⟨hvalid, hafter⟩ := parseString_valid hleft hkey
  obtain ⟨hv, hrest⟩ := hp _ _ _ (consume_valid (by decide) hafter hcolon) hvalue
  exact ⟨⟨hvalid, hv⟩, hrest⟩

/-- The members the loop of `parse_object` adds. -/
theorem MembersRead.valid (hp : ReadsValid p ok) {acc : List (Bytes × Json)} {left rest : Bytes} {v : Json}
    (h : MembersRead p acc left v rest) (hacc : ∀ m ∈ acc, strIsValidUtf8 m.1 = true ∧ ok m.2)
    (hleft : strIsValidUtf8 left = true) :
    (∃ ms, v = .object ms ∧ ∀ m ∈ ms, strIsValidUtf8 m.1 = true ∧ ok m.2) ∧ strIsValidUtf8 rest = true := by
  induction h with
  | close member closed =>
    obtain ⟨hm, hafter⟩ := parseMember_valid hp hleft member
    exact ⟨⟨_, rfl, forall_mem_concat hacc hm⟩, consume_valid (by decide) hafter closed⟩
  | comma member more _ ih =>
    obtain ⟨hm, hafter⟩ := parseMember_valid hp hleft member
    exact ih (forall_mem_concat hacc hm) (skipWs_valid (consume_valid (by decide) hafter more))

/-- The items the loop of `parse_array` adds. -/
theorem ItemsRead.valid (hp : ReadsValid p ok) {acc : List Json} {left rest : Bytes} {v : Json}
    (h : ItemsRead p acc left v rest) (hacc : ∀ a ∈ acc, ok a) (hleft : strIsValidUtf8 left = true) :
    (∃ items, v = .array items ∧ ∀ a ∈ items, ok a) ∧ strIsValidUtf8 rest = true := by
  induction h with
  | close _ value closed =>
    obtain ⟨hv, hafter⟩ := hp _ _ _ hleft value
    exact ⟨⟨_, rfl, forall_mem_concat hacc hv⟩, consume_valid (by decide) hafter closed⟩
  | comma _ value more _ ih =>
    obtain ⟨hv, hafter⟩ := hp _ _ _ hleft value
    exact ih (forall_mem_concat hacc hv) (skipWs_valid (consume_valid (by decide) hafter more))

end Reader

theorem utf8_ascii_append {s t : Bytes} (hs : ∀ b ∈ s, b ≤ 0x7F) (h : strIsValidUtf8 (s ++ t) = true) :
    strIsValidUtf8 t = true := by
  rwa [utf8_append (utf8_ascii hs)] at h

theorem parseNumber_valid {left rest : Bytes} {v : Json} (hleft : strIsValidUtf8 left = true)
    (h : parseNumber left = .ok (v, rest)) :
    (∃ d : Double, v = .number d ∧ d.isFinite = true) ∧ strIsValidUtf8 rest = true := by
  obtain ⟨n, d, ⟨⟨-, hfinite⟩, -⟩, hd, rfl, rfl⟩ := parseNumber_sound h
  exact ⟨⟨d, rfl, hfinite d hd⟩, utf8_ascii_append (numeral_ascii n) hleft⟩

/-- **Every node the reader returns is one it may return**, by induction on the levels still open. -/
theorem parseValue_valid : ∀ (levels d : Nat), d + levels = jsonMaxDepth + 1 →
    ReadsValid (parseValue levels) fun v => v.all Json.readNode d = true := by
  intro levels
  induction levels with
  | zero => intro d _ left v rest _ h; cases h
  | succ levels ih =>
    intro d hd left v rest hleft h
    have hdepth : d ≤ jsonMaxDepth := by omega
    have hin := ih (d + 1) (by omega)
    have hleaf : ∀ u : Json, (u.all Json.readNode d = Json.readNode d u) → u.textsOk = true →
        u.finiteOk = true → u.all Json.readNode d = true := by
      intro u hu htexts hfinite
      rw [hu, Json.readNode, decide_eq_true hdepth, htexts, hfinite]
      rfl
    have hskip := skipWs_valid hleft
    have hread := parseValue_read h
    generalize skipWs left = s at hskip hread
    cases hread with
    | object hmembers =>
      rw [utf8_one _ (by decide)] at hskip
      have hobject : ∀ ms : List (Bytes × Json),
          (∀ m ∈ ms, strIsValidUtf8 m.1 = true ∧ m.2.all Json.readNode (d + 1) = true) →
            (Json.object ms).all Json.readNode d = true := by
        intro ms hms
        have hkeys : (Json.object ms).textsOk = true := List.all_eq_true.mpr fun m hm => (hms m hm).1
        refine Json.all_object.mpr ⟨?_, fun m hm => (hms m hm).2⟩
        rw [Json.readNode, decide_eq_true hdepth, hkeys]
        rfl
      rcases parseObject_read hmembers with ⟨hclose, rfl⟩ | hmembers
      · exact ⟨hobject [] (fun m hm => absurd hm List.not_mem_nil), consume_valid (by decide) hskip hclose⟩
      · obtain ⟨⟨ms, rfl, hms⟩, hrest⟩ := hmembers.valid hin (fun m hm => absurd hm List.not_mem_nil)
          (skipWs_valid hskip)
        exact ⟨hobject ms hms, hrest⟩
    | array hitems =>
      rw [utf8_one _ (by decide)] at hskip
      have harray : ∀ items : List Json, (∀ a ∈ items, a.all Json.readNode (d + 1) = true) →
          (Json.array items).all Json.readNode d = true := by
        intro items hitems
        refine Json.all_array.mpr ⟨?_, hitems⟩
        rw [Json.readNode, decide_eq_true hdepth]
        rfl
      rcases parseArray_read hitems with ⟨hclose, rfl⟩ | hitems
      · exact ⟨harray [] (fun a ha => absurd ha List.not_mem_nil), consume_valid (by decide) hskip hclose⟩
      · obtain ⟨⟨items, rfl, hall⟩, hrest⟩ := hitems.valid hin (fun a ha => absurd ha List.not_mem_nil)
          (skipWs_valid hskip)
        exact ⟨harray items hall, hrest⟩
    | string htext =>
      obtain ⟨htext, hrest⟩ := parseString_valid hskip htext
      exact ⟨hleaf _ rfl htext rfl, hrest⟩
    | literal hknown =>
      rcases hknown with ⟨rfl, rfl⟩ | ⟨rfl, rfl⟩ | ⟨rfl, rfl⟩ <;>
        exact ⟨hleaf _ rfl rfl rfl, utf8_ascii_append (bytes_forall (by decide)) hskip⟩
    | number _ hdigits =>
      obtain ⟨⟨number, rfl, hfinite⟩, hrest⟩ := parseNumber_valid hskip hdigits
      exact ⟨hleaf _ rfl rfl hfinite, hrest⟩

/-- **What a document is read as**: nodes the reader may return, and no oversized array. -/
theorem jsonParse_valid {input : Bytes} {v : Json} (h : jsonParse input = .ok v) :
    v.all Json.readNode 0 = true ∧ v.bounded = true := by
  obtain ⟨rest, hparse⟩ := jsonParse_eq_ok h
  have hutf8 := skipWs_valid (jsonParse_utf8 h)
  exact ⟨(parseValue_valid _ 0 (Nat.zero_add _) _ _ _ hutf8 hparse).1, parseValue_bounded _ _ _ _ hparse⟩

/-- **A tree is read back from its text as itself exactly when the reader can return it at all**: its
    numbers are finite, its strings and keys valid UTF-8, no node is too deep and no array too long. -/
theorem serialize_exact_iff (v : Json) (text : Bytes) (h : jsonSerialize v = .ok text) :
    jsonParse text = .ok v ↔ v.all Json.readNode 0 = true ∧ v.bounded = true := by
  rw [(jsonSerialize_eq_ok h).1]
  constructor
  · exact fun hparse => jsonParse_valid hparse
  · exact fun hkept => jsonParse_exact ⟨hkept.1, hkept.2⟩

/-- 0.1, whose 17 digits are not those of a tenth, and the negative zero. -/
def awkwardNumbers : Json := .array [.number ⟨0x3FB999999999999A⟩, .number ⟨0x8000000000000000⟩]

example : jsonText awkwardNumbers = str "[0.10000000000000001,-0]" := by decide +kernel

/-- These numbers come back. -/
theorem serialize_exact_numbers : jsonParse (jsonText awkwardNumbers) = .ok awkwardNumbers :=
  (serialize_exact_iff awkwardNumbers (jsonText awkwardNumbers) (jsonSerialize_eq (by decide +kernel))).mpr
    ⟨by decide +kernel, by decide +kernel⟩

/-- **What was read from a document is read again from what is written of it.** -/
theorem jsonParse_rewritten {input text : Bytes} {v : Json} (h : jsonParse input = .ok v)
    (hwritten : jsonSerialize v = .ok text) : jsonParse text = .ok v := by
  rw [(jsonSerialize_eq_ok hwritten).1]
  exact jsonParse_exact ⟨(jsonParse_valid h).1, (jsonParse_valid h).2⟩

end SmolClaw
