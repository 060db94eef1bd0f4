/-
  Hand-written JSON strings: several files of the program have an escaper of their own.

  1. **Tables** — an escaper writes `"` and `\` behind a backslash, some control bytes as a backslash and a
     letter, and perhaps the other ones as code points (`EscapeTable`).  A control byte that it knows nothing
     about is left as it is (`Raw`).

  2. **Reading back** — `sc_json_parse` reads a string without such a byte as what was written, and refuses
     one with such a byte (`parseString_quoted`, `parseString_raw`).

  3. **Flat objects** — `flat_iff`: an object of strings is read back exactly if none has such a byte.

  4. **Lines** — an escaper that knows the newline writes none (`newline_not_mem_quoted`).
-/
import SmolClaw.Json.Parsed

namespace SmolClaw

/-! ## Tables -/

/-- What an escaper knows: the letters for control bytes, and whether it writes code points for the others.
    The letters are the reader's. -/
structure EscapeTable where
  letters : List (UInt8 × UInt8)
  codes : Bool
  reads : (letters.all fun p => simpleEscape p.2 == some p.1) = true

/-- Printable ASCII. -/
def printable (s : Bytes) : Bool := s.all fun b => decide (0x20 ≤ b ∧ b ≤ 0x7F)

theorem printable_bytes {s : Bytes} (h : printable s = true) : ∀ b ∈ s, 0x20 ≤ b ∧ b ≤ 0x7F :=
  fun b hb => of_decide_eq_true (List.all_eq_true.mp h b hb)

theorem printable_utf8 {s : Bytes} (h : printable s = true) : strIsValidUtf8 s = true :=
  utf8_ascii fun b hb => (printable_bytes h b hb).2

theorem ReadsTo.bool (b : Bool) (levels : Nat) :
    ReadsTo (parseValue (levels + 1)) (jsonText (.bool b)) (.bool b) where
  head := by
    cases b with
    | true => exact ⟨_, _, rfl, by decide, by decide⟩
    | false => exact ⟨_, _, rfl, by decide, by decide⟩
  reads c rest _ := parseValue_scalar levels (c :: rest) (Or.inr ⟨b, rfl⟩)

/-- An object is read back, also one without members. -/
theorem parseValue_members {esc : UInt8 → Bytes} {levels : Nat} {ms : List MemberText}
    (hms : ∀ m ∈ ms, m.Reads esc (parseValue levels)) (rest : Bytes) :
    parseValue (levels + 1) (objectText esc ms ++ rest) =
      .ok (.object (ms.map fun m => (m.key, m.value)), rest) := by
  cases ms with
  | nil => exact parseValue_emptyObject levels rest
  | cons m ms => exact parseValue_object (List.cons_ne_nil m ms) hms rest

theorem ReadsTo.members {esc : UInt8 → Bytes} {levels : Nat} {ms : List MemberText}
    (hms : ∀ m ∈ ms, m.Reads esc (parseValue levels)) :
    ReadsTo (parseValue (levels + 1)) (objectText esc ms) (.object (ms.map fun m => (m.key, m.value))) where
  head := ⟨chr '\x7b', _, rfl, by decide, by decide⟩
  reads c rest _ := parseValue_members hms (c :: rest)

/-- **An object in front of blanks** is a document. -/
theorem jsonParse_members {esc : UInt8 → Bytes} {ms : List MemberText}
    (hms : ∀ m ∈ ms, m.Reads esc (parseValue jsonMaxDepth)) {w : Bytes} (hw : skipWs w = [])
    (hutf8 : strIsValidUtf8 (objectText esc ms ++ w) = true) :
    jsonParse (objectText esc ms ++ w) = .ok (.object (ms.map fun m => (m.key, m.value))) := by
  have hread : parseValue (jsonMaxDepth + 1) _ = _ := parseValue_members hms w
  have hskip : skipWs (objectText esc ms ++ w) = objectText esc ms ++ w := skipWs_cons (by decide) _
  rw [jsonParse, hutf8, hskip, hread]
  exact if_pos hw

namespace EscapeTable

variable (table : EscapeTable)

/-- What is written for one byte. -/
def byte (b : UInt8) : Bytes :=
  if b = chr '"' ∨ b = chr '\\' then [chr '\\', b]
  else
    match table.letters.find? fun p => p.1 == b with
    | some p => [chr '\\', p.2]
    | none =>
        if table.codes ∧ b < 0x20 then chr '\\' :: chr 'u' :: chr '0' :: chr '0' :: hexByte b
        else [b]

/-- A control byte that is written as it is. -/
def Raw (b : UInt8) : Prop := b < 0x20 ∧ table.codes = false ∧ ∀ p ∈ table.letters, p.1 ≠ b

/-- A text in which every control byte is known. -/
def Clean (s : Bytes) : Prop := ∀ b ∈ s, ¬ table.Raw b

/-- A string member. -/
def member (key s : Bytes) : MemberText := { key := key, text := quoted table.byte s, value := .string s }

/-- An object of strings. -/
def flatText (members : List (Bytes × Bytes)) : Bytes :=
  objectText table.byte (members.map fun m => table.member m.1 m.2)

/-- The tree of an object of strings. -/
def flatTree (members : List (Bytes × Bytes)) : Json := .object (members.map fun m => (m.1, .string m.2))

variable {table}

theorem reads_letter {p : UInt8 × UInt8} (h : p ∈ table.letters) : simpleEscape p.2 = some p.1 :=
  eq_of_beq (List.all_eq_true.mp table.reads p h)

theorem find_none {b : UInt8} :
    (table.letters.find? fun p => p.1 == b) = none ↔ ∀ p ∈ table.letters, p.1 ≠ b := by
  rw [List.find?_eq_none]
  constructor
  · intro h p hp he
    exact h p hp (beq_iff_eq.mpr he)
  · intro h p hp he
    exact h p hp (eq_of_beq he)

/-- A byte that is not raw is read back. -/
theorem byte_escapes {b : UInt8} (h : ¬ table.Raw b) : EscapesTo table.byte b := by
  by_cases hquote : b = chr '"' ∨ b = chr '\\'
  · refine EscapesTo.simple (c := b) (if_pos hquote) ?_
    rcases hquote with rfl | rfl
    · decide
    · decide
  · cases hfind : table.letters.find? fun p => p.1 == b with
    | some p =>
      have hp : p.1 = b := eq_of_beq (List.find?_some (p := fun p : UInt8 × UInt8 => p.1 == b) hfind)
      refine EscapesTo.simple (c := p.2) ?_ (hp ▸ reads_letter (List.mem_of_find?_eq_some hfind))
      rw [byte, if_neg hquote, hfind]
    | none =>
      have hbyte : table.byte b = if table.codes ∧ b < 0x20 then
          chr '\\' :: chr 'u' :: chr '0' :: chr '0' :: hexByte b else [b] := by
        rw [byte, if_neg hquote, hfind]
      by_cases hcontrol : b < 0x20
      · cases hcodes : table.codes with
        | true => exact EscapesTo.control hcontrol (by rw [hbyte, if_pos ⟨hcodes, hcontrol⟩])
        | false => exact absurd ⟨hcontrol, hcodes, find_none.mp hfind⟩ h
      · rw [not_or] at hquote
        exact EscapesTo.plain (by rw [hbyte, if_neg fun hcase => hcontrol hcase.2]) hquote.1 hcontrol hquote.2

theorem Raw.byte {b : UInt8} (h : table.Raw b) : table.byte b = [b] := by
  have hquote : ¬ (b = chr '"' ∨ b = chr '\\') := by
    have hcontrol := h.1
    rintro (rfl | rfl)
    · exact absurd hcontrol (by decide)
    · exact absurd hcontrol (by decide)
  rw [EscapeTable.byte, if_neg hquote, find_none.mpr h.2.2]
  exact if_neg fun hcase => absurd (h.2.1.symm.trans hcase.1) Bool.false_ne_true

/-- The loop of `parse_string` stops at a raw byte. -/
theorem parseStringLoop_raw (rest : Bytes) : ∀ (s : Bytes) (turns : Nat) (builder : Bytes), ¬ table.Clean s →
    ∃ e, parseStringLoop turns builder (s.flatMap table.byte ++ chr '"' :: rest) = .error e := by
  intro s
  induction s with
  | nil => exact fun _ _ h => absurd (fun b hb => absurd hb List.not_mem_nil) h
  | cons b s ih =>
    intro turns builder hraw
    cases turns with
    | zero => exact ⟨_, rfl⟩
    | succ turns =>
      rw [List.flatMap_cons, List.append_assoc]
      by_cases hb : table.Raw b
      · have hcontrol : b < 0x20 := hb.1
        have hquote : b ≠ chr '"' := by
          rintro rfl
          exact absurd hcontrol (by decide)
        rw [hb.byte, List.singleton_append, parseStringLoop.eq_def]
        exact ⟨_, (if_neg hquote).trans (if_pos hcontrol)⟩
      · rw [(byte_escapes hb).reads]
        exact ih turns _ fun hclean => hraw (List.forall_mem_cons.mpr ⟨hb, hclean⟩)

/-- **A raw byte is refused.** -/
theorem parseString_raw {s : Bytes} (h : ¬ table.Clean s) (rest : Bytes) :
    ∃ e, parseString (quoted table.byte s ++ rest) = .error e := by
  have happ : quoted table.byte s ++ rest = chr '"' :: (s.flatMap table.byte ++ chr '"' :: rest) := by
    rw [quoted, List.cons_append, List.append_assoc, List.singleton_append]
  rw [happ, parseString, consume_self]
  exact parseStringLoop_raw rest s _ [] h

variable (table) in
/-- Texts without control bytes. -/
theorem clean_of_printable {s : Bytes} (h : ∀ b ∈ s, 0x20 ≤ b) : table.Clean s :=
  fun b hb hraw => absurd hraw.1 (UInt8.not_lt.mpr (h b hb))

variable (table) in
/-- Keys of the writers. -/
theorem key_clean {key : Bytes} (h : printable key = true) :
    table.Clean key ∧ strIsValidUtf8 key = true :=
  ⟨clean_of_printable table fun b hb => (printable_bytes h b hb).1, printable_utf8 h⟩

/-! ## Members and objects -/

theorem member_reads {key s : Bytes} (hkey : table.Clean key) (hs : table.Clean s) (levels : Nat) :
    (table.member key s).Reads table.byte (parseValue (levels + 1)) :=
  ⟨fun b hb => byte_escapes (hkey b hb), ReadsTo.quoted (fun b hb => byte_escapes (hs b hb)) levels⟩

/-- A member whose string has a raw byte. -/
theorem parseMember_raw {key s : Bytes} (hkey : table.Clean key) (hs : ¬ table.Clean s) (levels : Nat)
    (rest : Bytes) :
    ∃ e, parseMember (parseValue (levels + 1)) ((table.member key s).render table.byte ++ rest) =
      .error e := by
  have happ : (table.member key s).render table.byte ++ rest =
      quoted table.byte key ++ chr ':' :: (quoted table.byte s ++ rest) := by
    rw [MemberText.render, List.append_assoc, List.cons_append]
    rfl
  obtain ⟨e, he⟩ := parseString_raw hs rest
  have hvalue : parseValue (levels + 1) (quoted table.byte s ++ rest) = .error e := by
    have hopen : quoted table.byte s ++ rest = chr '"' :: (s.flatMap table.byte ++ [chr '"'] ++ rest) := rfl
    rw [hopen] at he ⊢
    rw [parseValue, skipWs_cons (by decide)]
    refine (if_neg (by decide)).trans ((if_neg (by decide)).trans ((if_pos rfl).trans ?_))
    simp only [he]
  have hcolon : consume (chr ':') (skipWs (chr ':' :: (quoted table.byte s ++ rest))) =
      some (quoted table.byte s ++ rest) := by
    rw [skipWs_cons (by decide), consume_self]
  refine ⟨e, ?_⟩
  simp only [happ, parseMember, parseString_quoted fun b hb => byte_escapes (hkey b hb), hcolon, hvalue]

variable (table) in
/-- The members of an object of strings. -/
def rendered (members : List (Bytes × Bytes)) : Bytes :=
  commaSeparated (members.map fun m => (table.member m.1 m.2).render table.byte)

theorem rendered_cons (m n : Bytes × Bytes) (members : List (Bytes × Bytes)) (after : Bytes) :
    table.rendered (m :: n :: members) ++ after =
      (table.member m.1 m.2).render table.byte ++ chr ',' :: (table.rendered (n :: members) ++ after) := by
  rw [rendered, List.map_cons, List.map_cons, commaSeparated, List.append_assoc, List.cons_append]
  rfl

variable (table) in
/-- The members begin with the quote of a key. -/
theorem rendered_head (m : Bytes × Bytes) (members : List (Bytes × Bytes)) :
    ∃ t, table.rendered (m :: members) = chr '"' :: t := by
  cases members with
  | nil => exact ⟨_, rfl⟩
  | cons n members => exact ⟨_, rfl⟩

/-- The loop of `parse_object` stops at such a member, by induction on the members in front of it. -/
theorem parseMembers_raw (levels : Nat) (rest : Bytes) :
    ∀ (members : List (Bytes × Bytes)) (turns : Nat) (acc : List (Bytes × Json)),
      (∀ m ∈ members, table.Clean m.1) → (∃ m ∈ members, ¬ table.Clean m.2) →
      ∃ e, parseMembers (parseValue (levels + 1)) turns acc (table.rendered members ++ chr '}' :: rest) =
        .error e := by
  intro members
  induction members with
  | nil =>
    rintro _ _ _ ⟨m, hm, -⟩
    exact absurd hm List.not_mem_nil
  | cons m members ih =>
    intro turns acc hkeys hraw
    rw [List.forall_mem_cons] at hkeys
    have hstop : ∀ after, ¬ table.Clean m.2 →
        ∃ e, parseMembers (parseValue (levels + 1)) turns acc
          ((table.member m.1 m.2).render table.byte ++ after) = .error e := by
      intro after hm
      cases turns with
      | zero => exact ⟨_, rfl⟩
      | succ turns =>
        obtain ⟨e, he⟩ := parseMember_raw hkeys.1 hm levels after
        obtain ⟨t, ht⟩ : ∃ t, (table.member m.1 m.2).render table.byte ++ after = chr '"' :: t := ⟨_, rfl⟩
        rw [ht] at he ⊢
        rw [parseMembers.eq_def]
        refine ⟨e, (if_neg (not_not_intro rfl)).trans ?_⟩
        simp only [he]
    cases members with
    | nil =>
      obtain ⟨n, hn, hbad⟩ := hraw
      rw [List.mem_singleton] at hn
      exact hstop _ (hn ▸ hbad)
    | cons n members =>
      rw [rendered_cons]
      by_cases hm : table.Clean m.2
      · have hrest : ∃ k ∈ n :: members, ¬ table.Clean k.2 := by
          obtain ⟨k, hk, hbad⟩ := hraw
          rcases List.mem_cons.mp hk with rfl | hk
          · exact absurd hm hbad
          · exact ⟨k, hk, hbad⟩
        cases turns with
        | zero => exact ⟨_, rfl⟩
        | succ turns =>
          have hread := parseMember_render (c := chr ',') (member_reads hkeys.1 hm levels) (by decide)
            (table.rendered (n :: members) ++ chr '}' :: rest)
          have hquote : ∃ t, (table.member m.1 m.2).render table.byte ++
              chr ',' :: (table.rendered (n :: members) ++ chr '}' :: rest) = chr '"' :: t := ⟨_, rfl⟩
          rw [parseMembers_comma hquote hread (skipWs_cons (by decide) _)]
          obtain ⟨t, ht⟩ := rendered_head table n members
          have hskip : skipWs (table.rendered (n :: members) ++ chr '}' :: rest) =
              table.rendered (n :: members) ++ chr '}' :: rest := by
            rw [ht]
            exact skipWs_cons (by decide) _
          rw [hskip]
          exact ih turns _ hkeys.2 hrest
      · exact hstop _ hm

/-! ## Valid texts -/

theorem byte_ascii : ∀ b ≤ 0x7F, strIsValidUtf8 (table.byte b) = true := by
  intro b hb
  have hword : ∀ c ∈ hexByte b, c ≤ 0x7F := by
    intro c hc
    have hdigit := isUuidByte_hexByte b c hc
    rw [isUuidByte, Bool.or_eq_true, Bool.or_eq_true, Bool.and_eq_true, Bool.and_eq_true, decide_eq_true_eq,
      decide_eq_true_eq, decide_eq_true_eq, decide_eq_true_eq, beq_iff_eq] at hdigit
    rcases hdigit with (⟨-, hhigh⟩ | ⟨-, hhigh⟩) | rfl
    · exact UInt8.le_trans hhigh (by decide)
    · exact UInt8.le_trans hhigh (by decide)
    · decide
  refine utf8_ascii fun c hc => ?_
  unfold byte at hc
  split at hc
  · rw [List.mem_cons, List.mem_singleton] at hc
    rcases hc with rfl | rfl
    · decide
    · exact hb
  · split at hc
    · next p hfind =>
      rw [List.mem_cons, List.mem_singleton] at hc
      rcases hc with rfl | rfl
      · decide
      · exact (simpleEscape_ascii (reads_letter (List.mem_of_find?_eq_some hfind))).1
    · split at hc
      · rw [List.mem_cons, List.mem_cons, List.mem_cons, List.mem_cons] at hc
        rcases hc with rfl | rfl | rfl | rfl | hc
        · decide
        · decide
        · decide
        · decide
        · exact hword c hc
      · rw [List.mem_singleton] at hc
        exact hc ▸ hb

theorem byte_other : ∀ b : UInt8, ¬ b ≤ 0x7F → table.byte b = [b] := by
  intro b hb
  have hquote : ¬ (b = chr '"' ∨ b = chr '\\') := by
    rintro (rfl | rfl)
    · exact hb (by decide)
    · exact hb (by decide)
  have hnone : ∀ p ∈ table.letters, p.1 ≠ b := by
    rintro p hp rfl
    exact hb (simpleEscape_ascii (reads_letter hp)).2
  have hcontrol : ¬ b < 0x20 := by
    intro hlow
    exact hb (UInt8.le_trans (UInt8.le_of_lt hlow) (by decide))
  rw [byte, if_neg hquote, find_none.mpr hnone]
  exact if_neg fun hcase => hcontrol hcase.2

theorem quoted_utf8 {s : Bytes} (hs : strIsValidUtf8 s = true) :
    strIsValidUtf8 (quoted table.byte s) = true :=
  utf8_quoted byte_ascii byte_other hs

/-- **An object of strings is read back** exactly if no string has a raw byte; blanks may stand behind it. -/
theorem flat_iff {members : List (Bytes × Bytes)} (hne : members ≠ [])
    (hkeys : ∀ m ∈ members, table.Clean m.1)
    (hutf8 : ∀ m ∈ members, strIsValidUtf8 m.1 = true ∧ strIsValidUtf8 m.2 = true) {w : Bytes}
    (hw : skipWs w = []) (hwvalid : strIsValidUtf8 w = true) :
    jsonParse (table.flatText members ++ w) = .ok (flatTree members) ↔ ∀ m ∈ members, table.Clean m.2 := by
  have hvalid : strIsValidUtf8 (table.flatText members ++ w) = true := by
    refine utf8_append_of (utf8_objectText fun m hm => ?_) hwvalid
    obtain ⟨n, hn, rfl⟩ := List.mem_map.mp hm
    exact ⟨quoted_utf8 (hutf8 n hn).1, quoted_utf8 (hutf8 n hn).2⟩
  have hopen : ∀ v, table.flatText members ++ v = chr '\x7b' :: (table.rendered members ++ chr '}' :: v) := by
    intro v
    rw [flatText, objectText, List.map_map, List.cons_append, List.append_assoc]
    rfl
  have hskip : skipWs (table.flatText members ++ w) = table.flatText members ++ w := by
    rw [hopen]
    exact skipWs_cons (by decide) _
  constructor
  · intro hparse
    by_contra hraw
    obtain ⟨m, hm, hbad⟩ : ∃ m ∈ members, ¬ table.Clean m.2 := by
      simpa only [not_forall, exists_prop] using hraw
    obtain ⟨rest, hvalue⟩ := jsonParse_eq_ok hparse
    rw [hskip, hopen] at hvalue
    obtain ⟨k, ks, rfl⟩ := List.exists_cons_of_ne_nil hne
    obtain ⟨t, ht⟩ := rendered_head table k ks
    have hobject : parseValue (jsonMaxDepth + 1) (chr '\x7b' :: (table.rendered (k :: ks) ++ chr '}' :: w)) =
        parseMembers (parseValue jsonMaxDepth) ((table.rendered (k :: ks) ++ chr '}' :: w).length + 1) []
          (table.rendered (k :: ks) ++ chr '}' :: w) := by
      rw [parseValue, skipWs_cons (by decide)]
      refine (if_pos rfl).trans ?_
      rw [ht, List.cons_append, parseObject, skipWs_cons (by decide), consume_ne (by decide)]
    obtain ⟨e, he⟩ := parseMembers_raw 63 w (k :: ks)
      ((table.rendered (k :: ks) ++ chr '}' :: w).length + 1) [] hkeys ⟨m, hm, hbad⟩
    rw [hobject] at hvalue
    exact absurd (he.symm.trans hvalue) (by simp)
  · intro hclean
    have hreads : ∀ m ∈ members.map (fun m => table.member m.1 m.2),
        m.Reads table.byte (parseValue jsonMaxDepth) := by
      intro m hm
      obtain ⟨n, hn, rfl⟩ := List.mem_map.mp hm
      exact member_reads (hkeys n hn) (hclean n hn) 63
    have hread := parseValue_object (fun h => hne (List.map_eq_nil_iff.mp h)) hreads w
    have htree : (members.map (fun m => table.member m.1 m.2)).map (fun m => (m.key, m.value)) =
        members.map fun m => (m.1, Json.string m.2) := by
      rw [List.map_map]
      rfl
    rw [htree] at hread
    rw [jsonParse, hvalid, hskip]
    change parseValue (jsonMaxDepth + 1) (table.flatText members ++ w) = _ at hread
    rw [hread]
    exact if_pos hw

/-! ## Lines -/

/-- **An escaper that knows the newline** writes none. -/
theorem newline_not_mem_byte (h : ¬ table.Raw (chr '\n')) (b : UInt8) : chr '\n' ∉ table.byte b := by
  intro hmem
  unfold byte at hmem
  split at hmem
  · next hquote =>
    rw [List.mem_cons, List.mem_singleton] at hmem
    rcases hmem with hmem | rfl
    · exact absurd hmem (by decide)
    · exact absurd hquote (by decide)
  · split at hmem
    · next p hfind =>
      rw [List.mem_cons, List.mem_singleton] at hmem
      rcases hmem with hmem | hmem
      · exact absurd hmem (by decide)
      · have hread := reads_letter (List.mem_of_find?_eq_some hfind)
        rw [← hmem, show simpleEscape (chr '\n') = none by decide] at hread
        cases hread
    · next hfind =>
      split at hmem
      · rw [List.mem_cons, List.mem_cons, List.mem_cons, List.mem_cons] at hmem
        rcases hmem with hmem | hmem | hmem | hmem | hmem
        · exact absurd hmem (by decide)
        · exact absurd hmem (by decide)
        · exact absurd hmem (by decide)
        · exact absurd hmem (by decide)
        · exact absurd (isUuidByte_hexByte b _ hmem) (by decide)
      · next hcase =>
        rw [List.mem_singleton] at hmem
        subst hmem
        refine h ⟨by decide, ?_, find_none.mp hfind⟩
        by_contra hcodes
        exact hcase ⟨by rwa [Bool.not_eq_false] at hcodes, by decide⟩

theorem newline_not_mem_quoted (h : ¬ table.Raw (chr '\n')) (s : Bytes) :
    chr '\n' ∉ quoted table.byte s := by
  intro hmem
  rw [quoted, List.mem_cons, List.mem_append, List.mem_singleton] at hmem
  rcases hmem with hmem | hmem | hmem
  · exact absurd hmem (by decide)
  · obtain ⟨b, -, hb⟩ := List.mem_flatMap.mp hmem
    exact newline_not_mem_byte h b hb
  · exact absurd hmem (by decide)

/-- What stands in texts joined by commas stands in one of them, or is a comma. -/
theorem mem_commaSeparated {c : UInt8} {ts : List Bytes} (h : c ∈ commaSeparated ts) :
    c = chr ',' ∨ ∃ t ∈ ts, c ∈ t := by
  induction ts using commaSeparated.induct with
  | case1 => exact absurd h List.not_mem_nil
  | case2 t => exact Or.inr ⟨t, List.mem_cons_self, h⟩
  | case3 t u ts ih =>
    rw [commaSeparated, List.mem_append, List.mem_cons] at h
    rcases h with h | h | h
    · exact Or.inr ⟨t, List.mem_cons_self, h⟩
    · exact Or.inl h
    · rcases ih h with hcomma | ⟨x, hx, hc⟩
      · exact Or.inl hcomma
      · exact Or.inr ⟨x, List.mem_cons_of_mem t hx, hc⟩

theorem newline_not_mem_object (h : ¬ table.Raw (chr '\n')) {ms : List MemberText}
    (hms : ∀ m ∈ ms, chr '\n' ∉ m.text) : chr '\n' ∉ objectText table.byte ms := by
  intro hmem
  rw [objectText, List.mem_cons, List.mem_append, List.mem_singleton] at hmem
  rcases hmem with hmem | hmem | hmem
  · exact absurd hmem (by decide)
  · rcases mem_commaSeparated hmem with hmem | ⟨t, ht, hin⟩
    · exact absurd hmem (by decide)
    · obtain ⟨m, hm, rfl⟩ := List.mem_map.mp ht
      rw [MemberText.render, List.mem_append, List.mem_cons] at hin
      rcases hin with hin | hin | hin
      · exact newline_not_mem_quoted h m.key hin
      · exact absurd hin (by decide)
      · exact hms m hm hin
  · exact absurd hmem (by decide)

theorem newline_not_mem_flat (h : ¬ table.Raw (chr '\n')) (members : List (Bytes × Bytes)) :
    chr '\n' ∉ table.flatText members := by
  refine newline_not_mem_object h fun m hm => ?_
  obtain ⟨n, -, rfl⟩ := List.mem_map.mp hm
  exact newline_not_mem_quoted h n.2

end EscapeTable

/-- A line: one newline, at its end. -/
def SingleLine (text : Bytes) : Prop := ∃ body, text = body ++ [chr '\n'] ∧ chr '\n' ∉ body

end SmolClaw
