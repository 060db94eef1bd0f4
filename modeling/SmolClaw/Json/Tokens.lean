/-
  The words of the JSON reader against the grammar (`src/json/json.c`).

  Every scanner is followed in both directions: what it takes off the front of a text is a word of the
  grammar, and a word of the grammar is taken whole when nothing behind it goes on with it.

  1. **Whitespace** — `skip_ws` takes all there is.

  2. **Strings** — `parse_unicode_escape` takes four hexadecimal digits, and a high surrogate only with a
     low one behind it, so what the loop of `parse_string` takes are pieces whose surrogates are paired, and
     what it builds is what they stand for (`parseString_sound`, `parseString_complete`).
-/
import SmolClaw.Json.Parsed

namespace SmolClaw

open Lib.JsonGrammar

/-! ## Whitespace -/

theorem isWs_iff {c : UInt8} : isWs c = true ↔ c = 0x20 ∨ c = 0x09 ∨ c = 0x0A ∨ c = 0x0D := by
  simp only [isWs, Bool.or_eq_true, beq_iff_eq]
  constructor
  · rintro (((rfl | rfl) | rfl) | rfl) <;> decide
  · rintro (rfl | rfl | rfl | rfl) <;> decide

/-- What `skip_ws` takes is whitespace. -/
theorem skipWs_split (left : Bytes) : ∃ w, Ws w ∧ left = w ++ skipWs left :=
  ⟨left.takeWhile isWs, fun _ hc => isWs_iff.mp (List.mem_takeWhile_imp hc), List.takeWhile_append_dropWhile.symm⟩

/-- `skip_ws` takes all whitespace in front. -/
theorem skipWs_append {w : Bytes} (hw : Ws w) (t : Bytes) : skipWs (w ++ t) = skipWs t :=
  List.dropWhile_append_of_pos fun c hc => isWs_iff.mpr (hw c hc)

/-! ## Escapes -/

/-- `json_hex_value`, byte by byte. -/
theorem jsonHexValue_byte : ∀ c : UInt8, (jsonHexValue c).isSome = decide (HexDigit c) ∧
    (jsonHexValue c).all (fun value => value.toNat = hexValue c) = true := by
  apply byte_forall
  decide +kernel

/-- `json_hex_value` knows the hexadecimal digits and what they stand for. -/
theorem jsonHexValue_spec (c : UInt8) :
    ∀ value, jsonHexValue c = some value ↔ HexDigit c ∧ value.toNat = hexValue c := by
  obtain ⟨hsome, hvalue⟩ := jsonHexValue_byte c
  intro value
  constructor
  · intro h
    rw [h] at hsome hvalue
    exact ⟨of_decide_eq_true hsome.symm, of_decide_eq_true hvalue⟩
  · rintro ⟨hdigit, hnat⟩
    rw [decide_eq_true hdigit] at hsome
    obtain ⟨v, hv⟩ := Option.isSome_iff_exists.mp hsome
    rw [hv] at hvalue
    have hsame : v.toNat = hexValue c := of_decide_eq_true hvalue
    rw [hv, UInt32.toNat_inj.mp (hsame.trans hnat.symm)]

/-- One more digit, as a number. -/
theorem hexShift_toNat {codepoint digit : UInt32} {c : UInt8} {k : Nat} (hk : k < 7)
    (hcp : codepoint.toNat < 16 ^ k) (hdigit : jsonHexValue c = some digit) :
    ((codepoint <<< 4) ||| digit).toNat = 16 * codepoint.toNat + hexValue c ∧
      ((codepoint <<< 4) ||| digit).toNat < 16 ^ (k + 1) := by
  have hsmall := (jsonHexValue_some hdigit).2
  have hroom : 16 ^ (k + 1) ≤ 16 ^ 7 := Nat.pow_le_pow_right (by decide) (by omega)
  rw [Nat.pow_succ] at hroom
  have hnext : ((codepoint <<< 4) ||| digit).toNat = codepoint.toNat * 2 ^ 4 + digit.toNat :=
    shiftLeft_or_toNat (k := 4) (by decide) (by omega) hsmall
  rw [hnext, ← ((jsonHexValue_spec c digit).mp hdigit).2, Nat.pow_succ]
  omega

/-- The number that digits behind `n` stand for. -/
def hexFold (n : Nat) (digits : Bytes) : Nat := digits.foldl (fun n d => 16 * n + hexValue d) n

/-- What the digit loop takes are digits. -/
theorem parseHex_sound : ∀ (n k : Nat) (codepoint : UInt32) (left : Bytes) {value : UInt32} {rest : Bytes},
    codepoint.toNat < 16 ^ k → k + n ≤ 7 → parseHex n codepoint left = .ok (value, rest) →
      ∃ digits : Bytes, digits.length = n ∧ (∀ d ∈ digits, HexDigit d) ∧ left = digits ++ rest ∧
        value.toNat = hexFold codepoint.toNat digits := by
  intro n
  induction n with
  | zero =>
    intro k codepoint left value rest _ _ h
    cases h
    exact ⟨[], rfl, fun d hd => absurd hd List.not_mem_nil, rfl, rfl⟩
  | succ n ih =>
    intro k codepoint left value rest hcp hk h
    cases left with
    | nil => cases h
    | cons c left =>
      rw [parseHex] at h
      split at h
      next digit hdigit =>
        obtain ⟨hnext, hbound⟩ := hexShift_toNat (by omega) hcp hdigit
        obtain ⟨digits, hlen, hhex, rfl, hvalue⟩ := ih (k + 1) _ left hbound (by omega) h
        refine ⟨c :: digits, by rw [List.length_cons, hlen], ?_, rfl, ?_⟩
        · intro d hd
          rcases List.mem_cons.mp hd with rfl | hd
          · exact ((jsonHexValue_spec _ _).mp hdigit).1
          · exact hhex d hd
        · rw [hvalue, hnext]
          rfl
      next => cases h

/-- The digit loop takes digits. -/
theorem parseHex_complete : ∀ (digits : Bytes) (k : Nat) (codepoint : UInt32) (rest : Bytes),
    codepoint.toNat < 16 ^ k → k + digits.length ≤ 7 → (∀ d ∈ digits, HexDigit d) →
      ∃ value : UInt32, parseHex digits.length codepoint (digits ++ rest) = .ok (value, rest) ∧
        value.toNat = hexFold codepoint.toNat digits := by
  intro digits
  induction digits with
  | nil => intro k codepoint rest _ _ _; exact ⟨codepoint, rfl, rfl⟩
  | cons d digits ih =>
    intro k codepoint rest hcp hk hhex
    rw [List.length_cons] at hk
    have hsome : (jsonHexValue d).isSome = true :=
      (jsonHexValue_byte d).1.trans (decide_eq_true (hhex d List.mem_cons_self))
    obtain ⟨digit, hdigit⟩ := Option.isSome_iff_exists.mp hsome
    obtain ⟨hnext, hbound⟩ := hexShift_toNat (by omega) hcp hdigit
    obtain ⟨value, hparse, hvalue⟩ := ih (k + 1) _ rest hbound (by omega) fun c hc =>
      hhex c (List.mem_cons_of_mem d hc)
    refine ⟨value, ?_, ?_⟩
    · rw [List.length_cons, List.cons_append, parseHex, hdigit]
      exact hparse
    · rw [hvalue, hnext]
      rfl

/-- Four digits are one code unit. -/
theorem parseHex_four {left rest : Bytes} {value : UInt32} (h : parseHex 4 0 left = .ok (value, rest)) :
    ∃ u : CodeUnit, left = u.digits ++ rest ∧ value.toNat = u.value := by
  obtain ⟨digits, hlen, hhex, hleft, hvalue⟩ := parseHex_sound 4 0 0 left (by decide) (by decide) h
  exact ⟨⟨digits, hlen, hhex⟩, hleft, hvalue⟩

theorem parseHex_codeUnit (u : CodeUnit) (rest : Bytes) :
    ∃ value : UInt32, parseHex 4 0 (u.digits ++ rest) = .ok (value, rest) ∧ value.toNat = u.value := by
  have h := parseHex_complete u.digits 0 0 rest (by decide) (by rw [u.length_digits]; decide) u.hex
  rwa [u.length_digits] at h

/-- The second escape of a pair is a low surrogate. -/
theorem parseLowSurrogate_sound {high cp : UInt32} {left rest : Bytes} {u : CodeUnit} (hu : u.High)
    (hvalue : high.toNat = u.value) (h : parseLowSurrogate high left = .ok (cp, rest)) :
    ∃ v : CodeUnit, v.Low ∧ left = (Piece.unicode v).bytes ++ rest ∧ cp.toNat = pairValue u v := by
  unfold parseLowSurrogate at h
  split at h
  next backslash x after =>
    split at h
    next => cases h
    next hmark =>
      simp only [not_or, not_not, ne_eq] at hmark
      obtain ⟨-, rfl, rfl⟩ := hmark
      split at h
      next low tail hlow =>
        split at h
        next => cases h
        next hrange =>
          cases h
          obtain ⟨v, rfl, hv⟩ := parseHex_four hlow
          simp only [not_or, gt_iff_lt, UInt32.lt_iff_toNat_lt, hv] at hrange
          change ¬ v.value < 0xDC00 ∧ ¬ 0xDFFF < v.value at hrange
          have hlowRange : 0xDC00 ≤ low.toNat ∧ low.toNat ≤ 0xDFFF := by omega
          have hhighRange : 0xD800 ≤ high.toNat ∧ high.toNat ≤ 0xDBFF := by rwa [hvalue]
          have hpair := surrogatePair_toNat hhighRange hlowRange
          rw [hvalue, hv, ← Nat.add_assoc] at hpair
          exact ⟨v, ⟨by omega, by omega⟩, rfl, hpair⟩
      next => cases h
  next => cases h

/-- **An escape is no surrogate, or a high one with a low one behind it.** -/
theorem parseUnicodeEscape_sound {cp : UInt32} {left rest : Bytes}
    (h : parseUnicodeEscape left = .ok (cp, rest)) :
    (∃ u : CodeUnit, ¬ (Piece.unicode u).Surrogate ∧ left = u.digits ++ rest ∧ cp.toNat = u.value) ∨
      ∃ u v : CodeUnit, u.High ∧ v.Low ∧ left = u.digits ++ ((Piece.unicode v).bytes ++ rest) ∧
        cp.toNat = pairValue u v := by
  unfold parseUnicodeEscape at h
  split at h
  next => cases h
  next =>
    split at h
    next codepoint tail hhex =>
      obtain ⟨u, rfl, hu⟩ := parseHex_four hhex
      simp only [UInt32.le_iff_toNat_le, hu] at h
      split at h
      next hhigh =>
        obtain ⟨v, hv, rfl, hvalue⟩ := parseLowSurrogate_sound hhigh hu h
        exact Or.inr ⟨u, v, hhigh, hv, rfl, hvalue⟩
      next hhigh =>
        split at h
        next => cases h
        next hlow =>
          cases h
          exact Or.inl ⟨u, not_or.mpr ⟨hhigh, hlow⟩, rfl, hu⟩
    next => cases h

/-- A code point that has a UTF-8 form. -/
theorem utf8Codepoint_of_le {cp : UInt32} (h : cp.toNat ≤ 0x10FFFF) : ∃ text, utf8Codepoint cp = some text := by
  unfold utf8Codepoint
  dsimp only
  have hmax : cp ≤ 0x10FFFF := UInt32.le_iff_toNat_le.mpr h
  split_ifs
  · exact ⟨_, rfl⟩
  · exact ⟨_, rfl⟩
  · exact ⟨_, rfl⟩
  · exact ⟨_, rfl⟩

/-- An escape that is no surrogate is taken. -/
theorem parseUnicodeEscape_single {u : CodeUnit} (hu : ¬ (Piece.unicode u).Surrogate) (rest : Bytes) :
    ∃ cp text, parseUnicodeEscape (u.digits ++ rest) = .ok (cp, rest) ∧ utf8Codepoint cp = some text := by
  obtain ⟨hhigh, hlow⟩ := not_or.mp hu
  obtain ⟨cp, hhex, hcp⟩ := parseHex_codeUnit u rest
  have hlong : ¬ (u.digits ++ rest).length < 4 := by
    rw [List.length_append, u.length_digits]
    omega
  have hle : cp.toNat ≤ 0x10FFFF := by
    have hlt := u.value_lt
    omega
  obtain ⟨text, htext⟩ := utf8Codepoint_of_le hle
  refine ⟨cp, text, ?_, htext⟩
  rw [parseUnicodeEscape, if_neg hlong, hhex]
  simp only [UInt32.le_iff_toNat_le, hcp]
  exact (if_neg hhigh).trans (if_neg hlow)

/-- A pair of escapes is taken. -/
theorem parseUnicodeEscape_pair {u v : CodeUnit} (hu : u.High) (hv : v.Low) (rest : Bytes) :
    ∃ cp text, parseUnicodeEscape (u.digits ++ ((Piece.unicode v).bytes ++ rest)) = .ok (cp, rest) ∧
      utf8Codepoint cp = some text := by
  obtain ⟨high, hhigh, hhighNat⟩ := parseHex_codeUnit u ((Piece.unicode v).bytes ++ rest)
  obtain ⟨low, hlow, hlowNat⟩ := parseHex_codeUnit v rest
  have hlong : ¬ (u.digits ++ ((Piece.unicode v).bytes ++ rest)).length < 4 := by
    rw [List.length_append, u.length_digits]
    omega
  have hhighRange : 0xD800 ≤ high.toNat ∧ high.toNat ≤ 0xDBFF := by rwa [hhighNat]
  have hlowRange : 0xDC00 ≤ low.toNat ∧ low.toNat ≤ 0xDFFF := by rwa [hlowNat]
  have hpair := surrogatePair_toNat hhighRange hlowRange
  have hle : ((0x10000 : UInt32) + (((high - 0xD800) <<< 10) ||| (low - 0xDC00))).toNat ≤ 0x10FFFF := by omega
  obtain ⟨text, htext⟩ := utf8Codepoint_of_le hle
  refine ⟨_, text, ?_, htext⟩
  have hsecond : parseLowSurrogate high ((Piece.unicode v).bytes ++ rest) =
      .ok ((0x10000 : UInt32) + (((high - 0xD800) <<< 10) ||| (low - 0xDC00)), rest) := by
    have hlength : ¬ ((Piece.unicode v).bytes ++ rest).length < 6 := by
      rw [Piece.bytes, List.length_append, List.length_cons, List.length_cons, v.length_digits]
      omega
    have hrange : ¬ (low < 0xDC00 ∨ low > 0xDFFF) := by
      simp only [gt_iff_lt, UInt32.lt_iff_toNat_lt, hlowNat]
      exact not_or.mpr ⟨Nat.not_lt.mpr hv.1, Nat.not_lt.mpr hv.2⟩
    rw [Piece.bytes, List.cons_append, List.cons_append] at hlength ⊢
    rw [parseLowSurrogate, if_neg (by simp only [hlength, chr, ne_eq, false_or]; decide), hlow]
    exact if_neg hrange
  rw [parseUnicodeEscape, if_neg hlong, hhigh]
  simp only [UInt32.le_iff_toNat_le, hhighNat]
  exact (if_pos hu).trans hsecond

/-! ## Strings -/

/-- The short escapes are those of the grammar. -/
theorem simpleEscape_isSome (e : UInt8) : (simpleEscape e).isSome = true ↔ e ∈ shortEscapes := by
  constructor
  · intro h
    obtain ⟨c, hc⟩ := Option.isSome_iff_exists.mp h
    exact of_decide_eq_true (simpleEscape_forall (p := fun e _ => decide (e ∈ shortEscapes)) (by decide) hc)
  · intro h
    have hall : shortEscapes.all (fun e => (simpleEscape e).isSome) = true := by decide
    exact List.all_eq_true.mp hall e h

/-- What the short escapes stand for. -/
theorem simpleEscape_value {e c : UInt8} (h : simpleEscape e = some c) : shortValue e = c :=
  of_decide_eq_true (simpleEscape_forall (p := fun e c => decide (shortValue e = c)) (by decide) h)

/-- What the loop of `parse_string` takes, up to the closing quote, and what it makes of it. -/
theorem parseStringLoop_sound : ∀ (turns : Nat) (builder left : Bytes) {s rest : Bytes},
    parseStringLoop turns builder left = .ok (s, rest) →
      ∃ (ps : List Piece) (decoded : Bytes), Decodes ps decoded ∧ s = builder ++ decoded ∧
        left = ps.flatMap Piece.bytes ++ chr '"' :: rest := by
  intro turns
  induction turns with
  | zero => intro builder left s rest h; cases h
  | succ turns ih =>
    intro builder left s rest h
    cases left with
    | nil => cases h
    | cons ch left =>
      rw [parseStringLoop.eq_def] at h
      dsimp only at h
      split at h
      next hquote =>
        cases h
        exact ⟨[], [], .nil, (List.append_nil _).symm, by rw [hquote]; rfl⟩
      next hquote =>
        split at h
        next => cases h
        next hcontrol =>
          split at h
          next hslash =>
            subst hslash
            split at h
            next => cases h
            next e after =>
              split at h
              next c hc =>
                obtain ⟨ps, decoded, hps, rfl, rfl⟩ := ih _ _ h
                have he : e ∈ shortEscapes := (simpleEscape_isSome e).mp (by rw [hc]; rfl)
                refine ⟨.short e he :: ps, shortValue e :: decoded, .short hps, ?_, rfl⟩
                rw [simpleEscape_value hc, List.append_assoc, List.singleton_append]
              next =>
                split at h
                next hu =>
                  subst hu
                  split at h
                  next codepoint tail hescape =>
                    split at h
                    next text htext =>
                      obtain ⟨ps, decoded, hps, rfl, rfl⟩ := ih _ _ h
                      rcases parseUnicodeEscape_sound hescape with
                        ⟨u, hu, rfl, hvalue⟩ | ⟨u, v, hu, hv, rfl, hvalue⟩
                      · have hlt := u.value_lt
                        obtain ⟨hhigh, hlow⟩ := not_or.mp hu
                        rw [CodeUnit.High] at hhigh
                        rw [CodeUnit.Low] at hlow
                        obtain ⟨c, hc, rfl⟩ := utf8Codepoint_scalar htext (by omega)
                        refine ⟨.unicode u :: ps, _, .unicode (hc.trans hvalue) hps, ?_, ?_⟩
                        · rw [List.append_assoc]
                        · rw [List.flatMap_cons, List.append_assoc]
                          rfl
                      · have hhigh : 0xD800 ≤ u.value ∧ u.value ≤ 0xDBFF := hu
                        have hlow : 0xDC00 ≤ v.value ∧ v.value ≤ 0xDFFF := hv
                        have hbeyond := pairValue_range hu hv
                        obtain ⟨c, hc, rfl⟩ := utf8Codepoint_scalar htext (by rw [hvalue]; exact Or.inr hbeyond)
                        refine ⟨.unicode u :: .unicode v :: ps, _, .pair hu hv (hc.trans hvalue) hps, ?_, ?_⟩
                        · rw [List.append_assoc]
                        · rw [List.flatMap_cons, List.flatMap_cons, List.append_assoc, List.append_assoc]
                          rfl
                    next => cases h
                  next => cases h
                next => cases h
          next hslash =>
            -- a byte that stands for itself
            obtain ⟨ps, decoded, hps, rfl, rfl⟩ := ih _ _ h
            have hplain : 0x20 ≤ ch ∧ ch ≠ 0x22 ∧ ch ≠ 0x5C :=
              ⟨UInt8.not_lt.mp hcontrol, hquote, hslash⟩
            refine ⟨.unescaped ch hplain :: ps, ch :: decoded, .unescaped hps, ?_, rfl⟩
            rw [List.append_assoc, List.singleton_append]

/-- A turn of the loop at a numeric escape. -/
theorem parseStringLoop_unicode {turns : Nat} {builder left rest text : Bytes} {cp : UInt32}
    (hescape : parseUnicodeEscape left = .ok (cp, rest)) (htext : utf8Codepoint cp = some text) :
    parseStringLoop (turns + 1) builder (0x5C :: 0x75 :: left) = parseStringLoop turns (builder ++ text) rest := by
  rw [parseStringLoop.eq_def]
  refine (if_neg (by decide)).trans ((if_neg (by decide)).trans ((if_pos rfl).trans ?_))
  simp only [show simpleEscape 0x75 = none by decide, hescape, htext]
  rfl

/-- The loop of `parse_string` takes paired pieces. -/
theorem parseStringLoop_complete {ps : List Piece} (hps : Paired ps) :
    ∀ (turns : Nat) (builder rest : Bytes), (ps.flatMap Piece.bytes).length < turns →
      ∃ s, parseStringLoop turns builder (ps.flatMap Piece.bytes ++ chr '"' :: rest) = .ok (s, rest) := by
  induction hps with
  | nil =>
    intro turns builder rest hturns
    obtain ⟨turns, rfl⟩ := Nat.exists_eq_succ_of_ne_zero (Nat.ne_zero_of_lt hturns)
    exact ⟨builder, rfl⟩
  | @cons p ps hp _ ih =>
    intro turns builder rest hturns
    obtain ⟨turns, rfl⟩ := Nat.exists_eq_succ_of_ne_zero (Nat.ne_zero_of_lt hturns)
    rw [List.flatMap_cons, List.length_append] at hturns
    rw [List.flatMap_cons, List.append_assoc]
    cases p with
    | unescaped b hb =>
      obtain ⟨hcontrol, hquote, hslash⟩ := hb
      obtain ⟨s, hs⟩ := ih turns (builder ++ [b]) rest (by
        rw [Piece.bytes, List.length_singleton] at hturns
        omega)
      refine ⟨s, ?_⟩
      rw [Piece.bytes, List.singleton_append, parseStringLoop.eq_def]
      exact (if_neg hquote).trans ((if_neg (UInt8.not_lt.mpr hcontrol)).trans ((if_neg hslash).trans hs))
    | short e he =>
      obtain ⟨c, hc⟩ := Option.isSome_iff_exists.mp ((simpleEscape_isSome e).mpr he)
      obtain ⟨s, hs⟩ := ih turns (builder ++ [c]) rest (by
        rw [Piece.bytes, List.length_cons, List.length_singleton] at hturns
        omega)
      refine ⟨s, ?_⟩
      rw [Piece.bytes, List.cons_append, List.singleton_append, parseStringLoop.eq_def]
      refine (if_neg (by decide)).trans ((if_neg (by decide)).trans ((if_pos rfl).trans ?_))
      simp only [hc, hs]
    | unicode u =>
      obtain ⟨cp, text, hescape, htext⟩ := parseUnicodeEscape_single hp (ps.flatMap Piece.bytes ++ chr '"' :: rest)
      rw [Piece.bytes, List.length_cons, List.length_cons] at hturns
      obtain ⟨s, hs⟩ := ih turns (builder ++ text) rest (by omega)
      exact ⟨s, (parseStringLoop_unicode hescape htext).trans hs⟩
  | @pair u v ps hu hv _ ih =>
    intro turns builder rest hturns
    obtain ⟨turns, rfl⟩ := Nat.exists_eq_succ_of_ne_zero (Nat.ne_zero_of_lt hturns)
    rw [List.flatMap_cons, List.flatMap_cons, List.length_append, List.length_append] at hturns
    obtain ⟨cp, text, hescape, htext⟩ := parseUnicodeEscape_pair hu hv (ps.flatMap Piece.bytes ++ chr '"' :: rest)
    rw [Piece.bytes, List.length_cons, List.length_cons] at hturns
    obtain ⟨s, hs⟩ := ih turns (builder ++ text) rest (by omega)
    rw [List.flatMap_cons, List.flatMap_cons, List.append_assoc, List.append_assoc]
    exact ⟨s, (parseStringLoop_unicode hescape htext).trans hs⟩

/-- **What `parse_string` takes is a string** whose surrogates are paired, and what it returns is what the
    string stands for. -/
theorem parseString_sound {left s rest : Bytes} (h : parseString left = .ok (s, rest)) :
    ∃ ps : List Piece, Decodes ps s ∧ left = stringText ps ++ rest := by
  unfold parseString at h
  split at h
  next after hquote =>
    obtain ⟨ps, decoded, hps, rfl, rfl⟩ := parseStringLoop_sound _ _ _ h
    refine ⟨ps, hps, ?_⟩
    rw [consume_some hquote, stringText, List.cons_append, List.append_assoc]
    rfl
  next => cases h

/-- **A string whose surrogates are paired is taken.** -/
theorem parseString_complete {ps : List Piece} (hps : Paired ps) (rest : Bytes) :
    ∃ s, parseString (stringText ps ++ rest) = .ok (s, rest) := by
  obtain ⟨s, hs⟩ := parseStringLoop_complete hps ((ps.flatMap Piece.bytes ++ chr '"' :: rest).length + 1) [] rest (by
    rw [List.length_append]
    omega)
  refine ⟨s, ?_⟩
  rw [stringText, List.cons_append, List.append_assoc, parseString,
    show consume (chr '"') (0x22 :: (ps.flatMap Piece.bytes ++ ([0x22] ++ rest))) =
      some (ps.flatMap Piece.bytes ++ chr '"' :: rest) from consume_self _ _]
  exact hs

end SmolClaw
