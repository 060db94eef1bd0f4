/-
  Reading back JSON text the program writes.

  Several modules of the program write JSON by hand, string by string; this module says once what
  the reader of `Json.Parse` makes of such text.

  1. **Strings** — an escaping function `esc` is judged byte by byte: `EscapesTo esc b` says that the
     string loop, fed `esc b`, appends exactly `b`.  A quoted text whose bytes all escape so reads
     back as that text (`parseString_quoted`), whatever follows it.

  2. **Containers** — `ReadsTo p text value`: the parser `p` reads `text` as `value` when a
     DELIMITER follows (a number's end is only seen by what comes next).  Objects and arrays of such
     texts read back member by member (`parseObject_text`, `parseArray_text`).
-/
import Mathlib.Data.List.Nodup
import SmolClaw.Core.WholeNumber
import SmolClaw.Lib.Infix
import SmolClaw.Json.Parse

namespace SmolClaw

/-! ## Strings -/

/-- Fed what `esc` writes for `b`, the string loop appends `b`. -/
structure EscapesTo (esc : UInt8 → Bytes) (b : UInt8) : Prop where
  ne_nil : esc b ≠ []
  reads : ∀ (turns : Nat) (builder rest : Bytes),
    parseStringLoop (turns + 1) builder (esc b ++ rest) = parseStringLoop turns (builder ++ [b]) rest

/-- A byte that needs no escape stands for itself. -/
theorem EscapesTo.plain {esc : UInt8 → Bytes} {b : UInt8} (hesc : esc b = [b]) (hq : b ≠ chr '"')
    (hc : ¬ b < 0x20) (hs : b ≠ chr '\\') : EscapesTo esc b where
  ne_nil := by rw [hesc]; exact List.cons_ne_nil b []
  reads turns builder rest := by
    rw [hesc, List.singleton_append, parseStringLoop.eq_def]
    exact (if_neg hq).trans ((if_neg hc).trans (if_neg hs))

/-- A byte written as a backslash and one letter. -/
theorem EscapesTo.simple {esc : UInt8 → Bytes} {b c : UInt8} (hesc : esc b = [chr '\\', c])
    (hc : simpleEscape c = some b) : EscapesTo esc b where
  ne_nil := by rw [hesc]; exact List.cons_ne_nil _ _
  reads turns builder rest := by
    rw [hesc, List.cons_append, List.singleton_append, parseStringLoop.eq_def]
    refine (if_neg (by decide)).trans ((if_neg (by decide)).trans ((if_pos rfl).trans ?_))
    simp only [hc]

/-- The two hexadecimal digits of a control byte, behind two zeros, are its code point. -/
theorem parseUnicodeEscape_control {b : UInt8} (hb : b < 0x20) (rest : Bytes) :
    parseUnicodeEscape (chr '0' :: chr '0' :: (hexByte b ++ rest)) = .ok (b.toUInt32, rest) := by
  have hbyte : jsonHexValue (hexDigit (b >>> 4)) = some (b >>> 4).toUInt32 ∧
      jsonHexValue (hexDigit (b &&& 15)) = some (b &&& 15).toUInt32 ∧
      ((b >>> 4).toUInt32 <<< 4) ||| (b &&& 15).toUInt32 = b.toUInt32 ∧ ¬ 0xD800 ≤ b.toUInt32 ∧
      ¬ 0xDC00 ≤ b.toUInt32 := by
    revert hb
    apply byte_forall (p := fun b => b < 0x20 →
      jsonHexValue (hexDigit (b >>> 4)) = some (b >>> 4).toUInt32 ∧
      jsonHexValue (hexDigit (b &&& 15)) = some (b &&& 15).toUInt32 ∧
      ((b >>> 4).toUInt32 <<< 4) ||| (b &&& 15).toUInt32 = b.toUInt32 ∧ ¬ 0xD800 ≤ b.toUInt32 ∧
      ¬ 0xDC00 ≤ b.toUInt32)
    decide +kernel
  obtain ⟨hhigh, hlow, hsum, hd8, hdc⟩ := hbyte
  have hzero : jsonHexValue (chr '0') = some 0 := by decide
  have hhex : parseHex 4 0 (chr '0' :: chr '0' :: (hexByte b ++ rest)) = .ok (b.toUInt32, rest) := by
    simp only [hexByte, List.cons_append, List.nil_append, parseHex, hzero, hhigh, hlow]
    -- the two zeros shift in nothing, and the two digits are the halves of the byte
    rw [← hsum]
    simp
  have hlen : ¬ (chr '0' :: chr '0' :: (hexByte b ++ rest)).length < 4 := by
    simp only [hexByte, List.length_cons, List.length_append]
    omega
  rw [parseUnicodeEscape, if_neg hlen]
  simp only [hhex]
  -- a control byte is no surrogate
  rw [if_neg fun h => hd8 h.1, if_neg fun h => hdc h.1]

/-- A control byte written as `\u` and four hexadecimal digits. -/
theorem EscapesTo.control {esc : UInt8 → Bytes} {b : UInt8} (hb : b < 0x20)
    (hesc : esc b = chr '\\' :: chr 'u' :: chr '0' :: chr '0' :: hexByte b) : EscapesTo esc b where
  ne_nil := by rw [hesc]; exact List.cons_ne_nil _ _
  reads turns builder rest := by
    have hcp : utf8Codepoint b.toUInt32 = some [b] := by
      revert hb
      apply byte_forall (p := fun b => b < 0x20 → utf8Codepoint b.toUInt32 = some [b])
      decide +kernel
    rw [hesc]
    simp only [List.cons_append]
    rw [parseStringLoop.eq_def]
    refine (if_neg (by decide)).trans ((if_neg (by decide)).trans ((if_pos rfl).trans ?_))
    have hu : simpleEscape (chr 'u') = none := by decide
    simp only [hu, if_true, parseUnicodeEscape_control hb, hcp]

/-- The loop of `parse_string` reads an escaped text up to the closing quote, one turn a byte. -/
theorem parseStringLoop_flatMap {esc : UInt8 → Bytes} (rest : Bytes) :
    ∀ (s : Bytes) (turns : Nat) (builder : Bytes), (∀ b ∈ s, EscapesTo esc b) → s.length < turns →
      parseStringLoop turns builder (s.flatMap esc ++ chr '"' :: rest)
        = .ok (builder ++ s, rest) := by
  intro s
  induction s with
  | nil =>
    intro turns builder _ ht
    obtain ⟨left, rfl⟩ : ∃ left, turns = left + 1 := ⟨turns - 1, by simp at ht; omega⟩
    rw [List.flatMap_nil, List.nil_append, List.append_nil, parseStringLoop.eq_def]
    exact if_pos rfl
  | cons b s ih =>
    intro turns builder hs ht
    rw [List.length_cons] at ht
    obtain ⟨left, rfl⟩ : ∃ left, turns = left + 1 := ⟨turns - 1, by omega⟩
    rw [List.flatMap_cons, List.append_assoc, (hs b List.mem_cons_self).reads,
      ih left (builder ++ [b]) (fun c hc => hs c (List.mem_cons_of_mem b hc)) (by omega),
      List.append_assoc, List.singleton_append]

/-- Escaping shortens nothing, so the text left is always enough turns. -/
theorem length_le_flatMap {esc : UInt8 → Bytes} {s : Bytes} (hs : ∀ b ∈ s, EscapesTo esc b) :
    s.length ≤ (s.flatMap esc).length := by
  induction s with
  | nil => exact Nat.zero_le _
  | cons b s ih =>
    have hb := List.length_pos_iff.mpr (hs b List.mem_cons_self).ne_nil
    have hrest := ih fun c hc => hs c (List.mem_cons_of_mem b hc)
    rw [List.flatMap_cons, List.length_append, List.length_cons]
    omega

/-- A text between quotes, escaped by `esc`. -/
def quoted (esc : UInt8 → Bytes) (s : Bytes) : Bytes := chr '"' :: (s.flatMap esc ++ [chr '"'])

/-- **Quoted text reads back**, whatever follows the closing quote. -/
theorem parseString_quoted {esc : UInt8 → Bytes} {s : Bytes} (hs : ∀ b ∈ s, EscapesTo esc b)
    (rest : Bytes) : parseString (quoted esc s ++ rest) = .ok (s, rest) := by
  have hlen := length_le_flatMap hs
  have happ : quoted esc s ++ rest = chr '"' :: (s.flatMap esc ++ chr '"' :: rest) := by
    rw [quoted, List.cons_append, List.append_assoc, List.singleton_append]
  rw [happ, parseString, consume, if_pos rfl]
  show parseStringLoop _ [] _ = _
  rw [parseStringLoop_flatMap rest s _ [] hs
    (by rw [List.length_append, List.length_cons]; omega), List.nil_append]

/-! ## Delimited values -/

/-- The bytes that may follow a value inside a container. -/
def isDelimiter (c : UInt8) : Bool := c == chr ',' || c == chr '}' || c == chr ']'

theorem skipWs_cons {c : UInt8} (h : isWs c = false) (rest : Bytes) :
    skipWs (c :: rest) = c :: rest := by
  rw [skipWs, List.dropWhile_cons_of_neg (by rw [h]; exact Bool.false_ne_true)]

/-- A byte that is there is consumed, any other byte is not. -/
theorem consume_self (c : UInt8) (rest : Bytes) : consume c (c :: rest) = some rest := if_pos rfl

theorem consume_ne {c d : UInt8} (h : d ≠ c) (rest : Bytes) : consume c (d :: rest) = none := if_neg h

/-- The parser `p` reads `text` as `value` when a delimiter follows; the text starts neither with a
    blank nor with the bracket that would close an array. -/
structure ReadsTo (p : Bytes → Parsed Json) (text : Bytes) (value : Json) : Prop where
  head : ∃ c t, text = c :: t ∧ isWs c = false ∧ c ≠ chr ']'
  reads : ∀ c rest, isDelimiter c = true → p (text ++ c :: rest) = .ok (value, c :: rest)

/-- A quoted text is a string value. -/
theorem ReadsTo.quoted {esc : UInt8 → Bytes} {s : Bytes} (hs : ∀ b ∈ s, EscapesTo esc b)
    (levels : Nat) : ReadsTo (parseValue (levels + 1)) (quoted esc s) (.string s) where
  head := ⟨chr '"', _, rfl, by decide, by decide⟩
  reads c rest _ := by
    have hstr : parseString (chr '"' :: (s.flatMap esc ++ [chr '"'] ++ c :: rest))
        = .ok (s, c :: rest) := parseString_quoted hs (c :: rest)
    show parseValue (levels + 1) (chr '"' :: (s.flatMap esc ++ [chr '"'] ++ c :: rest)) = _
    rw [parseValue, skipWs_cons (by decide)]
    refine (if_neg (by decide)).trans ((if_neg (by decide)).trans ((if_pos rfl).trans ?_))
    simp only [hstr]

/-- A digit starts a number and nothing else. -/
theorem digit_dispatch {k : UInt8} (hk : isDigit k = true) :
    k ≠ chr '-' ∧ isWs k = false ∧ k ≠ chr ']' ∧ k ≠ chr '\x7b' ∧ k ≠ chr '[' ∧ k ≠ chr '"' ∧
      k ≠ chr 't' ∧ k ≠ chr 'f' ∧ k ≠ chr 'n' := by
  revert hk
  apply byte_forall (p := fun k => isDigit k = true → k ≠ chr '-' ∧ isWs k = false ∧ k ≠ chr ']' ∧
    k ≠ chr '\x7b' ∧ k ≠ chr '[' ∧ k ≠ chr '"' ∧ k ≠ chr 't' ∧ k ≠ chr 'f' ∧ k ≠ chr 'n')
  decide +kernel

/-! ## Containers -/

/-- Texts joined by commas: the loops that write a comma before every text but the first. -/
def commaSeparated : List Bytes → Bytes
  | [] => []
  | [t] => t
  | t :: u :: ts => t ++ chr ',' :: commaSeparated (u :: ts)

/-- Joined texts start as the first one does. -/
theorem commaSeparated_head (c : UInt8) (t : Bytes) (ts : List Bytes) :
    ∃ w, commaSeparated ((c :: t) :: ts) = c :: w := by
  cases ts <;> exact ⟨_, rfl⟩

/-- One member of an object: its key, the text of its value, and the value that text stands for. -/
structure MemberText where
  key : Bytes
  text : Bytes
  value : Json

/-- `"key":value` -/
def MemberText.render (esc : UInt8 → Bytes) (m : MemberText) : Bytes :=
  quoted esc m.key ++ chr ':' :: m.text

/-- A member whose key escapes and whose text reads to its value. -/
structure MemberText.Reads (esc : UInt8 → Bytes) (p : Bytes → Parsed Json) (m : MemberText) :
    Prop where
  key : ∀ b ∈ m.key, EscapesTo esc b
  value : ReadsTo p m.text m.value

theorem parseMember_render {esc : UInt8 → Bytes} {p : Bytes → Parsed Json} {m : MemberText}
    (hm : m.Reads esc p) {c : UInt8} (hc : isDelimiter c = true) (rest : Bytes) :
    parseMember p (m.render esc ++ c :: rest) = .ok ((m.key, m.value), c :: rest) := by
  have happ : m.render esc ++ c :: rest
      = quoted esc m.key ++ chr ':' :: (m.text ++ c :: rest) := by
    rw [MemberText.render, List.append_assoc, List.cons_append]
  have hcolon : consume (chr ':') (skipWs (chr ':' :: (m.text ++ c :: rest)))
      = some (m.text ++ c :: rest) := by
    rw [skipWs_cons (by decide), consume_self]
  simp only [happ, parseMember, parseString_quoted hm.key, hcolon, hm.value.reads c rest hc]

section Loops

variable {p : Bytes → Parsed Json} {left after rest : Bytes} {turns : Nat}

/-- The loop of `parse_object` at a member that the closing brace follows. -/
theorem parseMembers_close {acc : List (Bytes × Json)} {m : Bytes × Json}
    (hq : ∃ t, left = chr '"' :: t) (hm : parseMember p left = .ok (m, after))
    (hafter : skipWs after = chr '}' :: rest) :
    parseMembers p (turns + 1) acc left = .ok (.object (acc ++ [m]), rest) := by
  obtain ⟨t, rfl⟩ := hq
  rw [parseMembers.eq_def]
  refine (if_neg (not_not_intro rfl)).trans ?_
  simp only [hm, hafter, consume_self]

/-- The loop of `parse_object` at a member that a comma follows. -/
theorem parseMembers_comma {acc : List (Bytes × Json)} {m : Bytes × Json}
    (hq : ∃ t, left = chr '"' :: t) (hm : parseMember p left = .ok (m, after))
    (hafter : skipWs after = chr ',' :: rest) :
    parseMembers p (turns + 1) acc left = parseMembers p turns (acc ++ [m]) (skipWs rest) := by
  obtain ⟨t, rfl⟩ := hq
  rw [parseMembers.eq_def]
  refine (if_neg (not_not_intro rfl)).trans ?_
  simp only [hm, hafter, consume_self, consume_ne (show chr ',' ≠ chr '}' by decide)]

/-- The loop of `parse_array` at an item that the closing bracket follows. -/
theorem parseItems_close {acc : List Json} {v : Json} (hne : left ≠ [])
    (hlen : acc.length < jsonMaxArrayItems) (hv : p left = .ok (v, after))
    (hafter : skipWs after = chr ']' :: rest) :
    parseItems p (turns + 1) acc left = .ok (.array (acc ++ [v]), rest) := by
  obtain ⟨c, t, rfl⟩ := List.exists_cons_of_ne_nil hne
  rw [parseItems.eq_def]
  refine (if_neg (Nat.not_le.mpr hlen)).trans ?_
  simp only [hv, hafter, consume_self]

/-- The loop of `parse_array` at an item that a comma follows. -/
theorem parseItems_comma {acc : List Json} {v : Json} (hne : left ≠ [])
    (hlen : acc.length < jsonMaxArrayItems) (hv : p left = .ok (v, after))
    (hafter : skipWs after = chr ',' :: rest) :
    parseItems p (turns + 1) acc left = parseItems p turns (acc ++ [v]) (skipWs rest) := by
  obtain ⟨c, t, rfl⟩ := List.exists_cons_of_ne_nil hne
  rw [parseItems.eq_def]
  refine (if_neg (Nat.not_le.mpr hlen)).trans ?_
  simp only [hv, hafter, consume_self, consume_ne (show chr ',' ≠ chr ']' by decide)]

end Loops

/-- The members of an object and its closing brace, read by the loop. -/
theorem parseMembers_text {esc : UInt8 → Bytes} {p : Bytes → Parsed Json} (rest : Bytes) :
    ∀ (ms : List MemberText) (turns : Nat) (acc : List (Bytes × Json)), ms ≠ [] →
      (∀ m ∈ ms, m.Reads esc p) → ms.length ≤ turns →
      parseMembers p turns acc
          (commaSeparated (ms.map (·.render esc)) ++ chr '}' :: rest)
        = .ok (.object (acc ++ ms.map fun m => (m.key, m.value)), rest) := by
  intro ms
  induction ms with
  | nil => intro turns acc hne; exact absurd rfl hne
  | cons m ms ih =>
    intro turns acc _ hms ht
    rw [List.length_cons] at ht
    obtain ⟨left, rfl⟩ : ∃ left, turns = left + 1 := ⟨turns - 1, by omega⟩
    cases ms with
    | nil =>
      exact parseMembers_close ⟨_, rfl⟩
        (parseMember_render (hms m List.mem_cons_self) (by decide) rest) (skipWs_cons (by decide) rest)
    | cons n ms =>
      have happ : commaSeparated ((m :: n :: ms).map (·.render esc)) ++ chr '}' :: rest
          = m.render esc ++ chr ',' ::
            (commaSeparated ((n :: ms).map (·.render esc)) ++ chr '}' :: rest) := by
        simp only [List.map_cons, commaSeparated, List.append_assoc, List.cons_append]
      -- the next member starts with its key's quote, so no blank is skipped after the comma
      have hskip : skipWs (commaSeparated ((n :: ms).map (·.render esc)) ++ chr '}' :: rest)
          = commaSeparated ((n :: ms).map (·.render esc)) ++ chr '}' :: rest := by
        cases ms <;> exact skipWs_cons (by decide) _
      have hquote : ∃ t, m.render esc ++ chr ',' ::
          (commaSeparated ((n :: ms).map (·.render esc)) ++ chr '}' :: rest) = chr '"' :: t := ⟨_, rfl⟩
      rw [happ, parseMembers_comma hquote
          (parseMember_render (hms m List.mem_cons_self) (by decide) _) (skipWs_cons (by decide) _), hskip,
        ih left _ (List.cons_ne_nil n ms) (fun k hk => hms k (List.mem_cons_of_mem m hk)) (by omega),
        List.append_assoc]
      rfl

/-- An object as the program writes it. -/
def objectText (esc : UInt8 → Bytes) (ms : List MemberText) : Bytes :=
  chr '\x7b' :: (commaSeparated (ms.map (·.render esc)) ++ [chr '}'])

theorem length_le_commaSeparated {ts : List Bytes} (h : ∀ t ∈ ts, t ≠ []) :
    ts.length ≤ (commaSeparated ts).length := by
  induction ts using commaSeparated.induct with
  | case1 => exact Nat.le_refl _
  | case2 t => exact List.length_pos_iff.mpr (h t List.mem_cons_self)
  | case3 t u ts ih =>
    have hrest := ih fun x hx => h x (List.mem_cons_of_mem t hx)
    simp only [commaSeparated, List.length_append, List.length_cons] at hrest ⊢
    omega

/-- **Objects read back**, whatever follows the closing brace. -/
theorem parseValue_object {esc : UInt8 → Bytes} {levels : Nat} {ms : List MemberText}
    (hne : ms ≠ []) (hms : ∀ m ∈ ms, m.Reads esc (parseValue levels)) (rest : Bytes) :
    parseValue (levels + 1) (objectText esc ms ++ rest)
      = .ok (.object (ms.map fun m => (m.key, m.value)), rest) := by
  obtain ⟨t, ht⟩ : ∃ t, commaSeparated (ms.map (·.render esc)) ++ chr '}' :: rest
      = chr '"' :: t := by
    obtain ⟨m, ms, rfl⟩ := List.exists_cons_of_ne_nil hne
    cases ms <;> exact ⟨_, rfl⟩
  have happ : objectText esc ms ++ rest
      = chr '\x7b' :: (commaSeparated (ms.map (·.render esc)) ++ chr '}' :: rest) := by
    simp only [objectText, List.cons_append, List.append_assoc, List.nil_append]
  have hlen : (ms.map (·.render esc)).length ≤ (commaSeparated (ms.map (·.render esc))).length :=
    length_le_commaSeparated (by simp [MemberText.render, quoted])
  -- the loop has one turn for each byte left, and every member takes several
  have hloop := parseMembers_text (p := parseValue levels) rest ms
    ((chr '"' :: t).length + 1) [] hne hms (by
      have hmap : (ms.map (·.render esc)).length = ms.length := List.length_map _
      rw [← ht, List.length_append]
      omega)
  rw [happ, parseValue, skipWs_cons (by decide)]
  refine (if_pos rfl).trans ?_
  rw [parseObject, ht, skipWs_cons (by decide), consume_ne (show chr '"' ≠ chr '}' by decide)]
  rw [ht] at hloop
  exact hloop

theorem ReadsTo.object {esc : UInt8 → Bytes} {levels : Nat} {ms : List MemberText}
    (hne : ms ≠ []) (hms : ∀ m ∈ ms, m.Reads esc (parseValue levels)) :
    ReadsTo (parseValue (levels + 1)) (objectText esc ms)
      (.object (ms.map fun m => (m.key, m.value))) where
  head := ⟨chr '\x7b', _, rfl, by decide, by decide⟩
  reads c rest _ := parseValue_object hne hms (c :: rest)

/-- An array as the program writes it. -/
def arrayText (ts : List Bytes) : Bytes := chr '[' :: (commaSeparated ts ++ [chr ']'])

/-- The items of an array and its closing bracket, read by the loop. -/
theorem parseItems_text {p : Bytes → Parsed Json} (rest : Bytes) :
    ∀ (ts : List (Bytes × Json)) (turns : Nat) (acc : List Json), ts ≠ [] →
      (∀ t ∈ ts, ReadsTo p t.1 t.2) → ts.length ≤ turns →
      acc.length + ts.length ≤ jsonMaxArrayItems →
      parseItems p turns acc (commaSeparated (ts.map Prod.fst) ++ chr ']' :: rest)
        = .ok (.array (acc ++ ts.map Prod.snd), rest) := by
  intro ts
  induction ts with
  | nil => intro turns acc hne; exact absurd rfl hne
  | cons t ts ih =>
    intro turns acc _ hts hturns hacc
    rw [List.length_cons] at hturns hacc
    obtain ⟨left, rfl⟩ : ∃ left, turns = left + 1 := ⟨turns - 1, by omega⟩
    have ht := hts t List.mem_cons_self
    have hlen : acc.length < jsonMaxArrayItems := by omega
    cases ts with
    | nil =>
      have hne : t.1 ++ chr ']' :: rest ≠ [] := by simp
      exact parseItems_close hne hlen (ht.reads _ rest (by decide)) (skipWs_cons (by decide) rest)
    | cons u ts =>
      have happ : commaSeparated ((t :: u :: ts).map Prod.fst) ++ chr ']' :: rest
          = t.1 ++ chr ',' :: (commaSeparated ((u :: ts).map Prod.fst) ++ chr ']' :: rest) := by
        simp only [List.map_cons, commaSeparated, List.append_assoc, List.cons_append]
      -- an item never starts with a blank, so none is skipped after the comma
      have hskip : skipWs (commaSeparated ((u :: ts).map Prod.fst) ++ chr ']' :: rest)
          = commaSeparated ((u :: ts).map Prod.fst) ++ chr ']' :: rest := by
        obtain ⟨c, w, hcw, hc, -⟩ := (hts u (by simp)).head
        obtain ⟨v, hv⟩ := commaSeparated_head c w (ts.map Prod.fst)
        rw [List.map_cons, hcw, hv, List.cons_append, skipWs_cons hc]
      have hne : t.1 ++ chr ',' :: (commaSeparated ((u :: ts).map Prod.fst) ++ chr ']' :: rest)
          ≠ [] := by simp
      have hacc' : (acc ++ [t.2]).length + (u :: ts).length ≤ jsonMaxArrayItems := by
        rw [List.length_append, List.length_singleton]
        omega
      rw [happ, parseItems_comma hne hlen (ht.reads _ _ (by decide)) (skipWs_cons (by decide) _), hskip,
        ih left _ (List.cons_ne_nil u ts) (fun k hk => hts k (List.mem_cons_of_mem t hk)) (by omega)
          hacc',
        List.append_assoc]
      rfl

/-- The parser `p` refuses `text` when a delimiter follows; the text starts as a value does. -/
structure FailsOn (p : Bytes → Parsed Json) (text : Bytes) : Prop where
  head : ∃ c t, text = c :: t ∧ isWs c = false ∧ c ≠ chr ']'
  fails : ∀ c rest, isDelimiter c = true → ∃ e, p (text ++ c :: rest) = .error e

/-- One item that is refused, or one item too many, and the loop of `parse_array` fails. -/
theorem parseItems_error {p : Bytes → Parsed Json} (rest : Bytes) :
    ∀ (ts : List Bytes) (turns : Nat) (acc : List Json),
      (∀ t ∈ ts, (∃ v, ReadsTo p t v) ∨ FailsOn p t) →
      (∃ t ∈ ts, FailsOn p t) ∨ jsonMaxArrayItems < acc.length + ts.length →
      ∃ e, parseItems p turns acc (commaSeparated ts ++ chr ']' :: rest) = .error e := by
  intro ts
  induction ts with
  | nil =>
    intro turns acc _ hbad
    cases turns with
    | zero => exact ⟨_, rfl⟩
    | succ turns =>
      rcases hbad with ⟨t, ht, -⟩ | hlen
      · exact absurd ht List.not_mem_nil
      · exact ⟨_, if_pos (Nat.le_of_lt hlen)⟩
  | cons t ts ih =>
    intro turns acc hts hbad
    cases turns with
    | zero => exact ⟨_, rfl⟩
    | succ turns =>
      -- what stands behind the first item: the bracket, or a comma and the other items
      obtain ⟨d, after, hd, happ⟩ : ∃ d after, isDelimiter d = true ∧
          commaSeparated (t :: ts) ++ chr ']' :: rest = t ++ d :: after := by
        cases ts with
        | nil => exact ⟨chr ']', rest, by decide, rfl⟩
        | cons u ts =>
          exact ⟨chr ',', _, by decide, by rw [commaSeparated, List.append_assoc, List.cons_append]⟩
      obtain ⟨c, w, hcw⟩ : ∃ c w, t = c :: w := by
        rcases hts t List.mem_cons_self with ⟨v, hv⟩ | hfails
        · obtain ⟨c, w, hcw, -⟩ := hv.head
          exact ⟨c, w, hcw⟩
        · obtain ⟨c, w, hcw, -⟩ := hfails.head
          exact ⟨c, w, hcw⟩
      have hne : t ++ d :: after ≠ [] := by simp
      by_cases hlen : jsonMaxArrayItems ≤ acc.length
      · rw [happ, hcw, List.cons_append, parseItems.eq_def]
        exact ⟨_, if_pos hlen⟩
      · rcases hts t List.mem_cons_self with ⟨v, hv⟩ | hfails
        · -- the first item is read, so the fault is further on
          have hbad : (∃ u ∈ ts, FailsOn p u) ∨
              jsonMaxArrayItems < (acc ++ [v]).length + ts.length := by
            rcases hbad with ⟨u, hu, hfails⟩ | hlong
            · rcases List.mem_cons.mp hu with rfl | hu
              · obtain ⟨e, he⟩ := hfails.fails d after hd
                rw [hv.reads d after hd] at he
                exact nomatch he
              · exact Or.inl ⟨u, hu, hfails⟩
            · refine Or.inr ?_
              rw [List.length_append, List.length_singleton]
              rw [List.length_cons] at hlong
              omega
          cases ts with
          | nil =>
            rcases hbad with ⟨u, hu, -⟩ | hlong
            · exact absurd hu List.not_mem_nil
            · rw [List.length_append, List.length_singleton, List.length_nil] at hlong
              omega
          | cons u ts =>
            have hrest : ∀ x ∈ u :: ts, (∃ v, ReadsTo p x v) ∨ FailsOn p x :=
              fun x hx => hts x (List.mem_cons_of_mem t hx)
            have hskip : skipWs (commaSeparated (u :: ts) ++ chr ']' :: rest) =
                commaSeparated (u :: ts) ++ chr ']' :: rest := by
              obtain ⟨c, w, hcw, hc⟩ : ∃ c w, u = c :: w ∧ isWs c = false := by
                rcases hrest u List.mem_cons_self with ⟨v, hv⟩ | hfails
                · obtain ⟨c, w, hcw, hc, -⟩ := hv.head
                  exact ⟨c, w, hcw, hc⟩
                · obtain ⟨c, w, hcw, hc, -⟩ := hfails.head
                  exact ⟨c, w, hcw, hc⟩
              obtain ⟨x, hx⟩ := commaSeparated_head c w ts
              rw [hcw, hx, List.cons_append, skipWs_cons hc]
            have hcomma : commaSeparated (t :: u :: ts) ++ chr ']' :: rest =
                t ++ chr ',' :: (commaSeparated (u :: ts) ++ chr ']' :: rest) := by
              rw [commaSeparated, List.append_assoc, List.cons_append]
            rw [hcomma, parseItems_comma (by simp) (Nat.not_le.mp hlen) (hv.reads _ _ (by decide))
              (skipWs_cons (by decide) _), hskip]
            exact ih turns (acc ++ [v]) hrest hbad
        · obtain ⟨e, he⟩ := hfails.fails d after hd
          rw [happ]
          rw [hcw, List.cons_append] at he ⊢
          rw [parseItems.eq_def]
          refine ⟨e, (if_neg hlen).trans ?_⟩
          simp only [he]

/-- **Arrays read back**, whatever follows the closing bracket. -/
theorem parseValue_array {levels : Nat} {ts : List (Bytes × Json)}
    (hts : ∀ t ∈ ts, ReadsTo (parseValue levels) t.1 t.2) (hlen : ts.length ≤ jsonMaxArrayItems)
    (rest : Bytes) :
    parseValue (levels + 1) (arrayText (ts.map Prod.fst) ++ rest)
      = .ok (.array (ts.map Prod.snd), rest) := by
  have happ : arrayText (ts.map Prod.fst) ++ rest
      = chr '[' :: (commaSeparated (ts.map Prod.fst) ++ chr ']' :: rest) := by
    simp only [arrayText, List.cons_append, List.append_assoc, List.nil_append]
  rw [happ, parseValue, skipWs_cons (by decide)]
  refine (if_neg (by decide)).trans ((if_pos rfl).trans ?_)
  cases ts with
  | nil =>
    show parseArray _ (chr ']' :: rest) = _
    rw [parseArray, skipWs_cons (by decide), consume_self]
    rfl
  | cons t ts =>
    obtain ⟨c, u, hcu, hc, hclose⟩ := (hts t List.mem_cons_self).head
    obtain ⟨w, hw⟩ : ∃ w, commaSeparated ((t :: ts).map Prod.fst) ++ chr ']' :: rest = c :: w := by
      obtain ⟨v, hv⟩ := commaSeparated_head c u (ts.map Prod.fst)
      exact ⟨_, by rw [List.map_cons, hcu, hv, List.cons_append]⟩
    have hbound : ((t :: ts).map Prod.fst).length
        ≤ (commaSeparated ((t :: ts).map Prod.fst)).length := by
      apply length_le_commaSeparated
      intro x hx
      obtain ⟨y, hy, rfl⟩ := List.mem_map.mp hx
      obtain ⟨d, v, hdv, -⟩ := (hts y hy).head
      rw [hdv]
      exact List.cons_ne_nil d v
    have hloop := parseItems_text rest (t :: ts) ((c :: w).length + 1) [] (List.cons_ne_nil t ts) hts
      (by
        have hmap : ((t :: ts).map Prod.fst).length = (t :: ts).length := List.length_map _
        rw [← hw, List.length_append]
        omega)
      (by rw [List.length_nil, Nat.zero_add]; exact hlen)
    rw [parseArray, hw, skipWs_cons hc, consume_ne hclose]
    rw [hw] at hloop
    exact hloop

/-- **Written arrays differ where their items do**: two arrays of the same length with the same text
    have the same items.  (No bound on the length: the texts are compared, not read as a whole.) -/
theorem commaSeparated_inj {p : Bytes → Parsed Json} :
    ∀ (ts us : List (Bytes × Json)), ts.length = us.length → (∀ t ∈ ts, ReadsTo p t.1 t.2) →
      (∀ u ∈ us, ReadsTo p u.1 u.2) →
      commaSeparated (ts.map Prod.fst) ++ [chr ']'] = commaSeparated (us.map Prod.fst) ++ [chr ']'] →
      ts.map Prod.snd = us.map Prod.snd
  | [], [], _, _, _, _ => rfl
  | [t], [u], _, hts, hus, h => by
      have ht := (hts t List.mem_cons_self).reads (chr ']') [] (by decide)
      have hu := (hus u List.mem_cons_self).reads (chr ']') [] (by decide)
      -- both texts are read by the same parser, so what they are read as is the same
      have htext : t.1 ++ [chr ']'] = u.1 ++ [chr ']'] := h
      rw [htext, hu] at ht
      rw [List.map_singleton, List.map_singleton, (Prod.mk.inj (Except.ok.inj ht)).1]
  | t :: t' :: ts, u :: u' :: us, hlen, hts, hus, h => by
      have happ : ∀ (x y : Bytes × Json) (xs : List (Bytes × Json)),
          commaSeparated ((x :: y :: xs).map Prod.fst) ++ [chr ']']
            = x.1 ++ chr ',' :: (commaSeparated ((y :: xs).map Prod.fst) ++ [chr ']']) := by
        intro x y xs
        simp only [List.map_cons, commaSeparated, List.append_assoc, List.cons_append]
      rw [happ, happ] at h
      have ht := (hts t List.mem_cons_self).reads (chr ',')
        (commaSeparated ((t' :: ts).map Prod.fst) ++ [chr ']']) (by decide)
      have hu := (hus u List.mem_cons_self).reads (chr ',')
        (commaSeparated ((u' :: us).map Prod.fst) ++ [chr ']']) (by decide)
      rw [h, hu] at ht
      obtain ⟨hvalue, hrest⟩ := Prod.mk.inj (Except.ok.inj ht)
      have ih := commaSeparated_inj (t' :: ts) (u' :: us) (by simpa using hlen)
        (fun x hx => hts x (List.mem_cons_of_mem t hx)) (fun x hx => hus x (List.mem_cons_of_mem u hx))
        (List.cons.inj hrest).2.symm
      rw [List.map_cons, ih, ← hvalue]
      rfl

theorem arrayText_inj {p : Bytes → Parsed Json} {ts us : List (Bytes × Json)}
    (hlen : ts.length = us.length) (hts : ∀ t ∈ ts, ReadsTo p t.1 t.2)
    (hus : ∀ u ∈ us, ReadsTo p u.1 u.2)
    (h : arrayText (ts.map Prod.fst) = arrayText (us.map Prod.fst)) :
    ts.map Prod.snd = us.map Prod.snd :=
  commaSeparated_inj ts us hlen hts hus (List.cons.inj h).2

/-! ## What was read -/

section Loops

variable {p : Bytes → Parsed Json}

/-- How the loop of `parse_object` gets from the members read so far to what it returns. -/
inductive MembersRead (p : Bytes → Parsed Json) : List (Bytes × Json) → Bytes → Json → Bytes → Prop
  | close {acc : List (Bytes × Json)} {m : Bytes × Json} {left after rest : Bytes}
      (member : parseMember p left = .ok (m, after)) (closed : consume (chr '}') (skipWs after) = some rest) :
      MembersRead p acc left (.object (acc ++ [m])) rest
  | comma {acc : List (Bytes × Json)} {m : Bytes × Json} {left after t rest : Bytes} {v : Json}
      (member : parseMember p left = .ok (m, after)) (more : consume (chr ',') (skipWs after) = some t)
      (next : MembersRead p (acc ++ [m]) (skipWs t) v rest) : MembersRead p acc left v rest

/-- The same for the loop of `parse_array`, which does not go on at a full array. -/
inductive ItemsRead (p : Bytes → Parsed Json) : List Json → Bytes → Json → Bytes → Prop
  | close {acc : List Json} {item : Json} {left after rest : Bytes} (room : acc.length < jsonMaxArrayItems)
      (value : p left = .ok (item, after)) (closed : consume (chr ']') (skipWs after) = some rest) :
      ItemsRead p acc left (.array (acc ++ [item])) rest
  | comma {acc : List Json} {item : Json} {left after t rest : Bytes} {v : Json}
      (room : acc.length < jsonMaxArrayItems) (value : p left = .ok (item, after))
      (more : consume (chr ',') (skipWs after) = some t)
      (next : ItemsRead p (acc ++ [item]) (skipWs t) v rest) : ItemsRead p acc left v rest

theorem parseMembers_read : ∀ (turns : Nat) (acc : List (Bytes × Json)) (left : Bytes) {v : Json} {rest : Bytes},
    parseMembers p turns acc left = .ok (v, rest) → MembersRead p acc left v rest := by
  intro turns
  induction turns with
  | zero => intro acc left v rest h; cases h
  | succ turns ih =>
    intro acc left v rest h
    cases left with
    | nil => cases h
    | cons c left =>
      rw [parseMembers.eq_def] at h
      dsimp only at h
      split at h
      · cases h
      split at h
      · cases h
      next m after hmember =>
      split at h
      · next hclose =>
        obtain ⟨rfl, rfl⟩ := Prod.mk.inj (Except.ok.inj h)
        exact .close hmember hclose
      · split at h
        · next hcomma => exact .comma hmember hcomma (ih _ _ h)
        · cases h

theorem parseItems_read : ∀ (turns : Nat) (acc : List Json) (left : Bytes) {v : Json} {rest : Bytes},
    parseItems p turns acc left = .ok (v, rest) → ItemsRead p acc left v rest := by
  intro turns
  induction turns with
  | zero => intro acc left v rest h; cases h
  | succ turns ih =>
    intro acc left v rest h
    cases left with
    | nil => cases h
    | cons c left =>
      rw [parseItems.eq_def] at h
      dsimp only at h
      split at h
      · cases h
      next hroom =>
      split at h
      · cases h
      next item after hitem =>
      split at h
      · next hclose =>
        obtain ⟨rfl, rfl⟩ := Prod.mk.inj (Except.ok.inj h)
        exact .close (Nat.lt_of_not_le hroom) hitem hclose
      · split at h
        · next hcomma => exact .comma (Nat.lt_of_not_le hroom) hitem hcomma (ih _ _ h)
        · cases h

/-- A member is a key, a colon and a value. -/
theorem parseMember_read {left rest : Bytes} {m : Bytes × Json} (h : parseMember p left = .ok (m, rest)) :
    ∃ after t, parseString left = .ok (m.1, after) ∧ consume (chr ':') (skipWs after) = some t ∧
      p t = .ok (m.2, rest) := by
  unfold parseMember at h
  split at h
  · cases h
  next hkey =>
  split at h
  · cases h
  next hcolon =>
  split at h
  · cases h
  next hvalue =>
  obtain ⟨rfl, rfl⟩ := Prod.mk.inj (Except.ok.inj h)
  exact ⟨_, _, hkey, hcolon, hvalue⟩

theorem parseObject_read {left rest : Bytes} {v : Json} (h : parseObject p left = .ok (v, rest)) :
    (consume (chr '}') (skipWs left) = some rest ∧ v = .object []) ∨ MembersRead p [] (skipWs left) v rest := by
  unfold parseObject at h
  split at h
  · next hclose =>
    obtain ⟨rfl, rfl⟩ := Prod.mk.inj (Except.ok.inj h)
    exact Or.inl ⟨hclose, rfl⟩
  · exact Or.inr (parseMembers_read _ _ _ h)

theorem parseArray_read {left rest : Bytes} {v : Json} (h : parseArray p left = .ok (v, rest)) :
    (consume (chr ']') (skipWs left) = some rest ∧ v = .array []) ∨ ItemsRead p [] (skipWs left) v rest := by
  unfold parseArray at h
  split at h
  · next hclose =>
    obtain ⟨rfl, rfl⟩ := Prod.mk.inj (Except.ok.inj h)
    exact Or.inl ⟨hclose, rfl⟩
  · exact Or.inr (parseItems_read _ _ _ h)

/-- What holds of the values so far and of one more holds of them all. -/
theorem forall_mem_concat {α : Type} {q : α → Prop} {xs : List α} {x : α} (hxs : ∀ y ∈ xs, q y) (hx : q x) :
    ∀ y ∈ xs ++ [x], q y :=
  List.forall_mem_append.mpr ⟨hxs, List.forall_mem_singleton.mpr hx⟩

theorem MembersRead.kind {acc : List (Bytes × Json)} {left rest : Bytes} {v : Json}
    (h : MembersRead p acc left v rest) : ∃ ms, v = .object ms := by
  induction h with
  | close => exact ⟨_, rfl⟩
  | comma _ _ _ ih => exact ih

end Loops

/-- What `parse_literal` takes is the word. -/
theorem parseLiteral_sound {literal left rest : Bytes} {value v : Json}
    (h : parseLiteral literal value left = .ok (v, rest)) : v = value ∧ left = literal ++ rest := by
  unfold parseLiteral at h
  split at h
  next => cases h
  next hsame =>
    cases h
    refine ⟨rfl, ?_⟩
    rw [← not_not.mp (not_or.mp hsame).2, List.length_take_of_le (Nat.not_lt.mp (not_or.mp hsame).1),
      List.take_append_drop]

theorem parseNumber_kind {left rest : Bytes} {v : Json} (h : parseNumber left = .ok (v, rest)) :
    ∃ d, v = .number d := by
  unfold parseNumber at h
  dsimp only at h
  split at h
  · cases h
  split at h
  · split at h
    · exact ⟨_, (Prod.mk.inj (Except.ok.inj h)).1.symm⟩
    · cases h
  · cases h

/-- How `parse_value` reads a value behind the whitespace: the first byte decides. -/
inductive ValueRead (levels : Nat) : Bytes → Json → Bytes → Prop
  | object {left rest : Bytes} {v : Json} (members : parseObject (parseValue levels) left = .ok (v, rest)) :
      ValueRead levels (chr '\x7b' :: left) v rest
  | array {left rest : Bytes} {v : Json} (items : parseArray (parseValue levels) left = .ok (v, rest)) :
      ValueRead levels (chr '[' :: left) v rest
  | string {left rest s : Bytes} (text : parseString left = .ok (s, rest)) : ValueRead levels left (.string s) rest
  | literal {word rest : Bytes} {v : Json}
      (known : word = str "true" ∧ v = .bool true ∨ word = str "false" ∧ v = .bool false ∨
        word = str "null" ∧ v = .null) : ValueRead levels (word ++ rest) v rest
  | number {c : UInt8} {left rest : Bytes} {v : Json} (head : c = chr '-' ∨ isDigit c = true)
      (digits : parseNumber (c :: left) = .ok (v, rest)) : ValueRead levels (c :: left) v rest

theorem parseValue_read {levels : Nat} {left rest : Bytes} {v : Json}
    (h : parseValue (levels + 1) left = .ok (v, rest)) : ValueRead levels (skipWs left) v rest := by
  rw [parseValue] at h
  split at h
  · cases h
  next c t hleft =>
  rw [hleft]
  split at h
  · next hc => exact hc ▸ .object h
  split at h
  · next hc => exact hc ▸ .array h
  split at h
  · split at h
    · next hstring =>
      obtain ⟨rfl, rfl⟩ := Prod.mk.inj (Except.ok.inj h)
      exact .string hstring
    · cases h
  split at h
  · obtain ⟨rfl, hword⟩ := parseLiteral_sound h
    exact hword ▸ .literal (Or.inl ⟨rfl, rfl⟩)
  split at h
  · obtain ⟨rfl, hword⟩ := parseLiteral_sound h
    exact hword ▸ .literal (Or.inr (Or.inl ⟨rfl, rfl⟩))
  split at h
  · obtain ⟨rfl, hword⟩ := parseLiteral_sound h
    exact hword ▸ .literal (Or.inr (Or.inr ⟨rfl, rfl⟩))
  split at h
  · next hhead => exact .number hhead h
  · cases h

/-- Only a bracket starts an array. -/
theorem parseValue_eq_array {levels : Nat} {left rest : Bytes} {items : List Json}
    (h : parseValue (levels + 1) left = .ok (.array items, rest)) :
    ∃ t, skipWs left = chr '[' :: t ∧
      parseArray (parseValue levels) t = .ok (.array items, rest) := by
  generalize hleft : skipWs left = s
  have hread := hleft ▸ parseValue_read h
  cases hread with
  | object hmembers =>
    rcases parseObject_read hmembers with ⟨-, hv⟩ | hread
    · cases hv
    · obtain ⟨ms, hv⟩ := hread.kind
      cases hv
  | array hitems => exact ⟨_, rfl, hitems⟩
  | literal hknown =>
    rcases hknown with ⟨-, hv⟩ | ⟨-, hv⟩ | ⟨-, hv⟩ <;> cases hv
  | number _ hdigits =>
    obtain ⟨d, hv⟩ := parseNumber_kind hdigits
    cases hv

/-- A document is one value. -/
theorem jsonParse_eq_ok {input : Bytes} {v : Json} (h : jsonParse input = .ok v) :
    ∃ rest, parseValue (jsonMaxDepth + 1) (skipWs input) = .ok (v, rest) := by
  unfold jsonParse at h
  split at h
  · exact nomatch h
  · split at h
    · exact nomatch h
    · split at h
      · rename_i hp _
        cases h
        exact ⟨_, hp⟩
      · exact nomatch h

/-- **A written array is a document**: when its text is valid UTF-8, `sc_json_parse` returns it. -/
theorem jsonParse_array {ts : List (Bytes × Json)}
    (hts : ∀ t ∈ ts, ReadsTo (parseValue jsonMaxDepth) t.1 t.2)
    (hlen : ts.length ≤ jsonMaxArrayItems)
    (hutf8 : strIsValidUtf8 (arrayText (ts.map Prod.fst)) = true) :
    jsonParse (arrayText (ts.map Prod.fst)) = .ok (.array (ts.map Prod.snd)) := by
  have hread := parseValue_array hts hlen []
  have hskip : skipWs (arrayText (ts.map Prod.fst)) = arrayText (ts.map Prod.fst) :=
    skipWs_cons (by decide) _
  rw [List.append_nil] at hread
  rw [jsonParse, hutf8, hskip, hread]
  rfl

/-- An array with a refused item, or with too many items, is no document. -/
theorem jsonParse_array_error {ts : List Bytes}
    (hts : ∀ t ∈ ts, (∃ v, ReadsTo (parseValue jsonMaxDepth) t v) ∨ FailsOn (parseValue jsonMaxDepth) t)
    (hbad : (∃ t ∈ ts, FailsOn (parseValue jsonMaxDepth) t) ∨ jsonMaxArrayItems < ts.length) :
    ∃ e, jsonParse (arrayText ts) = .error e := by
  unfold jsonParse
  split
  · exact ⟨_, rfl⟩
  · have hskip : skipWs (arrayText ts) = chr '[' :: (commaSeparated ts ++ [chr ']']) :=
      skipWs_cons (by decide) _
    obtain ⟨t, us, rfl⟩ : ∃ t us, ts = t :: us := by
      rcases hbad with ⟨t, ht, -⟩ | hlen
      · exact List.exists_cons_of_ne_nil (List.ne_nil_of_mem ht)
      · exact List.exists_cons_of_ne_nil (List.ne_nil_of_length_pos (by omega))
    obtain ⟨c, w, hcw, hc, hclose⟩ : ∃ c w, t = c :: w ∧ isWs c = false ∧ c ≠ chr ']' := by
      rcases hts t List.mem_cons_self with ⟨v, hv⟩ | hfails
      · exact hv.head
      · exact hfails.head
    obtain ⟨x, hx⟩ := commaSeparated_head c w us
    have hbad' : (∃ u ∈ t :: us, FailsOn (parseValue jsonMaxDepth) u) ∨
        jsonMaxArrayItems < ([] : List Json).length + (t :: us).length := by
      rw [List.length_nil, Nat.zero_add]
      exact hbad
    obtain ⟨e, he⟩ := parseItems_error [] (t :: us) ((c :: (x ++ [chr ']'])).length + 1) [] hts hbad'
    have hvalue : parseValue (jsonMaxDepth + 1) (skipWs (arrayText (t :: us))) = .error e := by
      rw [hskip, parseValue, skipWs_cons (by decide)]
      refine (if_neg (by decide)).trans ((if_pos rfl).trans ?_)
      rw [hcw, hx, List.cons_append] at he ⊢
      rw [parseArray, skipWs_cons hc, consume_ne hclose]
      exact he
    rw [hvalue]
    exact ⟨_, rfl⟩

/-- **A written object is a document.** -/
theorem jsonParse_object {esc : UInt8 → Bytes} {ms : List MemberText} (hne : ms ≠ [])
    (hms : ∀ m ∈ ms, m.Reads esc (parseValue jsonMaxDepth))
    (hutf8 : strIsValidUtf8 (objectText esc ms) = true) :
    jsonParse (objectText esc ms) = .ok (.object (ms.map fun m => (m.key, m.value))) := by
  have hread := parseValue_object hne hms []
  have hskip : skipWs (objectText esc ms) = objectText esc ms := skipWs_cons (by decide) _
  rw [List.append_nil] at hread
  rw [jsonParse, hutf8, hskip, hread]
  rfl

theorem jsonParse_utf8 {input : Bytes} {v : Json} (h : jsonParse input = .ok v) :
    strIsValidUtf8 input = true := by
  unfold jsonParse at h
  split at h
  · exact nomatch h
  · next hvalid => simpa using hvalid

/-! ## Looking up a member -/

/-- When no key occurs twice, every member is found under its key. -/
theorem objectGet_of_mem {members : List (Bytes × Json)} (hnd : (members.map Prod.fst).Nodup)
    {key : Bytes} {value : Json} (h : (key, value) ∈ members) :
    Json.objectGet (.object members) key = some value := by
  unfold Json.objectGet
  dsimp only
  cases hfind : members.reverse.find? fun m => m.1 == key with
  | none =>
    have hnone := List.find?_eq_none.mp hfind (key, value) (List.mem_reverse.mpr h)
    exact absurd (beq_self_eq_true key) hnone
  | some m =>
    have hkey : m.1 = key := by simpa using List.find?_some hfind
    have hmem : m ∈ members := List.mem_reverse.mp (List.mem_of_find?_eq_some hfind)
    have hm : m = (key, value) := List.inj_on_of_nodup_map hnd hmem h hkey
    rw [hm]
    rfl

/-- What is found under a key is a member. -/
theorem mem_of_objectGet {members : List (Bytes × Json)} {key : Bytes} {value : Json}
    (h : Json.objectGet (.object members) key = some value) : (key, value) ∈ members := by
  obtain ⟨m, hfind, rfl⟩ := Option.map_eq_some_iff.mp h
  have hkey : m.1 = key := by simpa using List.find?_some hfind
  rw [← hkey]
  exact List.mem_reverse.mp (List.mem_of_find?_eq_some hfind)

/-! ## Written text is valid UTF-8 -/

theorem utf8_quoted {esc : UInt8 → Bytes} (hascii : ∀ b ≤ 0x7F, strIsValidUtf8 (esc b) = true)
    (hother : ∀ b, ¬ b ≤ 0x7F → esc b = [b]) {s : Bytes} (hs : strIsValidUtf8 s = true) :
    strIsValidUtf8 (quoted esc s) = true := by
  rw [quoted, utf8_one _ (by decide)]
  exact utf8_append_of (utf8_flatMap hascii hother hs) (by decide)

theorem utf8_commaSeparated {ts : List Bytes} (h : ∀ t ∈ ts, strIsValidUtf8 t = true) :
    strIsValidUtf8 (commaSeparated ts) = true := by
  induction ts using commaSeparated.induct with
  | case1 => decide
  | case2 t => exact h t List.mem_cons_self
  | case3 t u ts ih =>
    rw [commaSeparated]
    refine utf8_append_of (h t List.mem_cons_self) ?_
    rw [utf8_one _ (by decide)]
    exact ih fun x hx => h x (List.mem_cons_of_mem t hx)

theorem utf8_objectText {esc : UInt8 → Bytes} {ms : List MemberText}
    (h : ∀ m ∈ ms, strIsValidUtf8 (quoted esc m.key) = true ∧ strIsValidUtf8 m.text = true) :
    strIsValidUtf8 (objectText esc ms) = true := by
  rw [objectText, utf8_one _ (by decide)]
  refine utf8_append_of (utf8_commaSeparated ?_) (by decide)
  intro t ht
  obtain ⟨m, hm, rfl⟩ := List.mem_map.mp ht
  refine utf8_append_of (h m hm).1 ?_
  rw [utf8_one _ (by decide)]
  exact (h m hm).2

theorem utf8_arrayText {ts : List Bytes} (h : ∀ t ∈ ts, strIsValidUtf8 t = true) :
    strIsValidUtf8 (arrayText ts) = true := by
  rw [arrayText, utf8_one _ (by decide)]
  exact utf8_append_of (utf8_commaSeparated h) (by decide)

/-! ## What written text does not contain -/

section Absence

open Lib.Infix

/-- The bytes the writer puts around strings and values. -/
def jsonPunctuation : Bytes :=
  [chr '"', chr ':', chr ',', chr '\x7b', chr '\x7d', chr '[', chr ']']

variable {needle : Bytes} (hne : needle ≠ []) (hpunct : ∀ c ∈ jsonPunctuation, c ∉ needle)

include hne hpunct

theorem free_quoted {esc : UInt8 → Bytes} {s : Bytes} (hs : Free needle (s.flatMap esc)) :
    Free needle (quoted esc s) := by
  have hquote : chr '"' ∉ needle := hpunct _ (by decide)
  exact Free.cons hne hquote (Free.append_cons hquote hs (Free.nil hne))

theorem free_commaSeparated {ts : List Bytes} (h : ∀ t ∈ ts, Free needle t) :
    Free needle (commaSeparated ts) := by
  induction ts using commaSeparated.induct with
  | case1 => exact Free.nil hne
  | case2 t => exact h t List.mem_cons_self
  | case3 t u ts ih =>
    have hrest : Free needle (commaSeparated (u :: ts)) :=
      ih fun x hx => h x (List.mem_cons_of_mem t hx)
    exact Free.append_cons (hpunct _ (by decide)) (h t List.mem_cons_self) hrest

theorem free_objectText {esc : UInt8 → Bytes} {ms : List MemberText}
    (h : ∀ m ∈ ms, Free needle (m.key.flatMap esc) ∧ Free needle m.text) :
    Free needle (objectText esc ms) := by
  refine Free.cons hne (hpunct _ (by decide)) (Free.append_cons (hpunct _ (by decide)) ?_ (Free.nil hne))
  apply free_commaSeparated hne hpunct
  intro t ht
  obtain ⟨m, hm, rfl⟩ := List.mem_map.mp ht
  exact Free.append_cons (hpunct _ (by decide)) (free_quoted hne hpunct (h m hm).1) (h m hm).2

/-- A written array, even with more text behind its closing bracket. -/
theorem free_arrayText {ts : List Bytes} (h : ∀ t ∈ ts, Free needle t) {rest : Bytes}
    (hrest : Free needle rest) : Free needle (arrayText ts ++ rest) := by
  rw [arrayText, List.cons_append, List.append_assoc, List.singleton_append]
  exact Free.cons hne (hpunct _ (by decide))
    (Free.append_cons (hpunct _ (by decide)) (free_commaSeparated hne hpunct h) hrest)

end Absence

end SmolClaw
