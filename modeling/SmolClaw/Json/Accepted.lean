/-
  What `sc_json_parse` accepts (`src/json/json.c`).

  1. **What is read is derived** — `Spells.derives`: what the reader takes spells a tree.

  2. **What is derived is read** — `parseValue_complete`, by induction on the derivation.  Behind a value
     stands the end of the text, whitespace or a delimiter (`Follows`), so no number goes on there.

  3. **The language** — `jsonParse_accepts`: the reader accepts exactly the documents of `scannedRules`.
     They are the grammar's, save that surrogates have to be paired, and that a number may be spelled in
     ways the grammar does not know: `strtod` is only asked whether a number stands in front, so a missing
     digit behind the point or the `e` and zeros in front are not noticed.
-/
import SmolClaw.Json.Decoded
import SmolClaw.Lib.Separated

namespace SmolClaw

open Lib.JsonGrammar

/-- What the reader takes besides the productions. -/
def scannedRules : Rules := ⟨Paired, NumeralScanned, (· ≤ jsonMaxArrayItems)⟩

/-! ## What is read is derived -/

theorem word_str : str "true" ∈ words ∧ str "false" ∈ words ∧ str "null" ∈ words := by decide

/-- **What spells a tree is derived**, by induction on the spelling. -/
theorem Spells.derives {levels : Nat} {v : Json} {t : Bytes} (h : Spells levels v t) :
    Derives scannedRules levels t := by
  induction h with
  | null => exact .word word_str.2.2
  | «true» => exact .word word_str.1
  | «false» => exact .word word_str.2.1
  | number n hn _ => exact .number n hn
  | string hs => exact .string _ hs.paired
  | emptyArray hw => exact .emptyArray hw
  | array items hne hcount _ ih =>
    have hitems := Derives.array (r := scannedRules) (items.map Prod.fst) (fun h => hne (List.map_eq_nil_iff.mp h))
      (by rw [List.length_map]; exact hcount) fun i hi => by
        obtain ⟨j, hj, rfl⟩ := List.mem_map.mp hi
        exact ih j hj
    rwa [List.map_map] at hitems
  | emptyObject hw => exact .emptyObject hw
  | object members hne hkeys _ ih =>
    have hmembers := Derives.object (r := scannedRules) (members.map Prod.fst)
      (fun h => hne (List.map_eq_nil_iff.mp h))
      (fun m hm => by
        obtain ⟨n, hn, rfl⟩ := List.mem_map.mp hm
        exact (hkeys n hn).paired)
      fun m hm => by
        obtain ⟨n, hn, rfl⟩ := List.mem_map.mp hm
        exact ih n hn
    rwa [List.map_map] at hmembers

/-! ## What is derived is read -/

/-- Behind a value stands the end of the text, whitespace or a delimiter. -/
def Follows (rest : Bytes) : Prop := ∀ c ∈ rest.head?, isWs c = true ∨ isDelimiter c = true

theorem follows_delimiter {w : Bytes} (hw : Ws w) {c : UInt8} (hc : isDelimiter c = true) (rest : Bytes) :
    Follows (w ++ c :: rest) := by
  intro d hd
  cases w with
  | nil => exact Or.inr (Option.some.inj hd ▸ hc)
  | cons e w => exact Or.inl (isWs_iff.mpr (Option.some.inj hd ▸ hw e List.mem_cons_self))

/-- No number goes on there. -/
theorem Follows.stops {rest : Bytes} (h : Follows rest) : Stops goesOn rest := by
  have hall : ∀ c : UInt8, isWs c = true ∨ isDelimiter c = true → goesOn c = false := by
    intro c hc
    simp only [isWs, isDelimiter, Bool.or_eq_true, beq_iff_eq] at hc
    rcases hc with (((rfl | rfl) | rfl) | rfl) | ((rfl | rfl) | rfl) <;> decide
  exact fun c hc => hall c (h c hc)

/-- A text as a value starts: with no blank, and with no bracket that closes an array. -/
def StartsValue (t : Bytes) : Prop := ∃ c u, t = c :: u ∧ isWs c = false ∧ c ≠ chr ']'

/-- A text that is read behind whitespace and in front of what may follow it. -/
def Reads (p : Bytes → Parsed Json) (t : Bytes) : Prop :=
  ∀ w rest, Ws w → Follows rest → ∃ v, p (w ++ t ++ rest) = .ok (v, rest)

theorem derives_starts {levels : Nat} {t : Bytes} (h : Derives scannedRules levels t) : StartsValue t := by
  cases h with
  | word ht =>
    have hwords : ∀ t ∈ words, ∃ c u, t = c :: u ∧ isWs c = false ∧ c ≠ chr ']' := by
      intro t ht
      simp only [words, List.mem_cons, List.not_mem_nil, or_false] at ht
      rcases ht with rfl | rfl | rfl <;> exact ⟨_, _, rfl, by decide, by decide⟩
    exact hwords t ht
  | number n hn =>
    unfold StartsValue Numeral.bytes Numeral.signBytes
    split
    next => exact ⟨_, _, rfl, by decide, by decide⟩
    next hminus =>
      obtain ⟨c, u, hc⟩ := List.exists_cons_of_ne_nil (hn.2.resolve_left hminus)
      obtain ⟨-, hws, hclose, -⟩ :=
        digit_dispatch (isDigit_iff.mpr (n.whole_digit c (by rw [hc]; exact List.mem_cons_self)))
      exact ⟨c, u ++ n.fracBytes ++ n.expBytes, by rw [hc]; rfl, hws, hclose⟩
  | string => exact ⟨_, _, rfl, by decide, by decide⟩
  | emptyArray => exact ⟨_, _, rfl, by decide, by decide⟩
  | array => exact ⟨_, _, rfl, by decide, by decide⟩
  | emptyObject => exact ⟨_, _, rfl, by decide, by decide⟩
  | object => exact ⟨_, _, rfl, by decide, by decide⟩

/-- The blanks in front of a value are skipped. -/
theorem skipWs_value {w t : Bytes} (hw : Ws w) (ht : StartsValue t) (x : Bytes) :
    skipWs (w ++ t ++ x) = t ++ x := by
  obtain ⟨c, u, rfl, hc, -⟩ := ht
  rw [List.append_assoc, skipWs_append hw, List.cons_append, skipWs_cons hc]

/-- The blanks in front of a delimiter are skipped. -/
theorem skipWs_delimiter {w : Bytes} (hw : Ws w) {c : UInt8} (hc : isWs c = false) (rest : Bytes) :
    skipWs (w ++ c :: rest) = c :: rest := by
  rw [skipWs_append hw, skipWs_cons hc]

/-- The first item, without the blanks in front of it. -/
theorem skipWs_items {i : Item} (hi : StartsValue i.text) (is : List Item) (x : Bytes) :
    skipWs (commaJoined ((i :: is).map Item.bytes) ++ x) =
      i.text ++ (commaJoined (i.after :: is.map Item.bytes) ++ x) := by
  rw [List.map_cons, Item.bytes, List.append_assoc, commaJoined_append, commaJoined_append, List.append_assoc,
    List.append_assoc, ← List.append_assoc, skipWs_value i.ws_before hi]

/-- The first member, without the blanks in front of it. -/
theorem skipWs_members (m : Member) (ms : List Member) (x : Bytes) :
    skipWs (commaJoined ((m :: ms).map Member.bytes) ++ x) =
      stringText m.key ++ (commaJoined ((m.colon ++ chr ':' :: m.value.bytes) :: ms.map Member.bytes) ++ x) := by
  rw [List.map_cons, Member.bytes, List.append_assoc, List.append_assoc, commaJoined_append, commaJoined_append,
    List.append_assoc, List.append_assoc, skipWs_append m.ws_before]
  exact skipWs_cons (by decide) _

section Loops

variable {p : Bytes → Parsed Json}

/-- Items with commas between them, and the closing bracket, are read by the loop of `parse_array`. -/
theorem parseItems_complete (rest : Bytes) : ∀ (is : List Item) (turns : Nat) (acc : List Json), is ≠ [] →
    (∀ i ∈ is, Reads p i.text) → (∀ i ∈ is, StartsValue i.text) →
    acc.length + is.length ≤ jsonMaxArrayItems → is.length ≤ turns →
    ∃ v, parseItems p turns acc (skipWs (commaJoined (is.map Item.bytes) ++ chr ']' :: rest)) = .ok (v, rest) := by
  intro is
  induction is with
  | nil => intro turns acc hne; exact absurd rfl hne
  | cons i is ih =>
    intro turns acc _ hreads hstarts hacc hturns
    rw [List.length_cons] at hacc hturns
    obtain ⟨turns, rfl⟩ : ∃ left, turns = left + 1 := ⟨turns - 1, by omega⟩
    have hstart := hstarts i List.mem_cons_self
    have hlen : acc.length < jsonMaxArrayItems := by omega
    have hne : ∀ x, i.text ++ x ≠ [] := by
      intro x
      obtain ⟨c, u, hc, -⟩ := hstart
      rw [hc]
      exact List.cons_ne_nil _ _
    by_cases his : is = []
    case pos =>
      subst his
      have hskip : skipWs (commaJoined ([i].map Item.bytes) ++ chr ']' :: rest) =
          i.text ++ (i.after ++ chr ']' :: rest) := by
        rw [skipWs_items hstart]
        rfl
      obtain ⟨v, hv⟩ := hreads i List.mem_cons_self [] _ (fun c hc => absurd hc List.not_mem_nil)
        (follows_delimiter i.ws_after (show isDelimiter (chr ']') = true by decide) rest)
      rw [hskip]
      exact ⟨_, parseItems_close (hne _) hlen hv (skipWs_delimiter i.ws_after (by decide) rest)⟩
    case neg =>
      have hskip : skipWs (commaJoined ((i :: is).map Item.bytes) ++ chr ']' :: rest) =
          i.text ++ (i.after ++ chr ',' :: (commaJoined (is.map Item.bytes) ++ chr ']' :: rest)) := by
        rw [skipWs_items hstart, commaJoined_cons _ (List.map_eq_nil_iff.not.mpr his), List.append_assoc]
        rfl
      obtain ⟨v, hv⟩ := hreads i List.mem_cons_self [] _ (fun c hc => absurd hc List.not_mem_nil)
        (follows_delimiter i.ws_after (show isDelimiter (chr ',') = true by decide) _)
      have hroom : (acc ++ [v]).length + is.length ≤ jsonMaxArrayItems := by
        rw [List.length_append, List.length_singleton]
        omega
      rw [hskip, parseItems_comma (hne _) hlen hv (skipWs_delimiter i.ws_after (by decide) _)]
      exact ih turns _ his (fun j hj => hreads j (List.mem_cons_of_mem i hj))
        (fun j hj => hstarts j (List.mem_cons_of_mem i hj)) hroom (by omega)

/-- One member is read. -/
theorem parseMember_complete {m : Member} (hkey : Paired m.key) (hvalue : Reads p m.value.text) {c : UInt8}
    (hc : isDelimiter c = true) (rest : Bytes) :
    ∃ v, parseMember p (stringText m.key ++ (m.colon ++ chr ':' :: (m.value.bytes ++ c :: rest))) =
      .ok (v, m.value.after ++ c :: rest) := by
  obtain ⟨k, hk⟩ := parseString_complete hkey (m.colon ++ chr ':' :: (m.value.bytes ++ c :: rest))
  obtain ⟨v, hv⟩ := hvalue m.value.before _ m.value.ws_before (follows_delimiter m.value.ws_after hc rest)
  have hbytes : m.value.bytes ++ c :: rest =
      m.value.before ++ m.value.text ++ (m.value.after ++ c :: rest) := List.append_assoc _ _ _
  refine ⟨(k, v), ?_⟩
  rw [hbytes] at hk ⊢
  simp only [parseMember, hk, skipWs_delimiter m.ws_colon (show isWs (chr ':') = false by decide), consume_self, hv]

/-- Members with commas between them, and the closing brace, are read by the loop of `parse_object`. -/
theorem parseMembers_complete (rest : Bytes) : ∀ (ms : List Member) (turns : Nat) (acc : List (Bytes × Json)),
    ms ≠ [] → (∀ m ∈ ms, Paired m.key) → (∀ m ∈ ms, Reads p m.value.text) → ms.length ≤ turns →
    ∃ v, parseMembers p turns acc (skipWs (commaJoined (ms.map Member.bytes) ++ chr '}' :: rest)) =
      .ok (v, rest) := by
  intro ms
  induction ms with
  | nil => intro turns acc hne; exact absurd rfl hne
  | cons m ms ih =>
    intro turns acc _ hkeys hreads hturns
    rw [List.length_cons] at hturns
    obtain ⟨turns, rfl⟩ : ∃ left, turns = left + 1 := ⟨turns - 1, by omega⟩
    have hquote : ∀ x, ∃ t, stringText m.key ++ x = chr '"' :: t := fun x => ⟨_, rfl⟩
    by_cases hms : ms = []
    case pos =>
      subst hms
      obtain ⟨v, hv⟩ := parseMember_complete (hkeys m List.mem_cons_self) (hreads m List.mem_cons_self)
        (show isDelimiter (chr '}') = true by decide) rest
      have hskip : skipWs (commaJoined ([m].map Member.bytes) ++ chr '}' :: rest) =
          stringText m.key ++ (m.colon ++ chr ':' :: (m.value.bytes ++ chr '}' :: rest)) := by
        rw [skipWs_members]
        exact congrArg (stringText m.key ++ ·) (List.append_assoc _ _ _)
      rw [hskip]
      exact ⟨_, parseMembers_close (hquote _) hv (skipWs_delimiter m.value.ws_after (by decide) rest)⟩
    case neg =>
      have hskip : skipWs (commaJoined ((m :: ms).map Member.bytes) ++ chr '}' :: rest) =
          stringText m.key ++ (m.colon ++ chr ':' :: (m.value.bytes ++ chr ',' ::
            (commaJoined (ms.map Member.bytes) ++ chr '}' :: rest))) := by
        rw [skipWs_members, commaJoined_cons _ (List.map_eq_nil_iff.not.mpr hms)]
        simp only [List.append_assoc, List.cons_append]
        rfl
      obtain ⟨v, hv⟩ := parseMember_complete (hkeys m List.mem_cons_self) (hreads m List.mem_cons_self)
        (show isDelimiter (chr ',') = true by decide) (commaJoined (ms.map Member.bytes) ++ chr '}' :: rest)
      rw [hskip, parseMembers_comma (hquote _) hv (skipWs_delimiter m.value.ws_after (by decide) _)]
      exact ih turns _ hms (fun n hn => hkeys n (List.mem_cons_of_mem m hn))
        (fun n hn => hreads n (List.mem_cons_of_mem m hn)) (by omega)

end Loops

/-- There is a comma between any two texts. -/
theorem length_le_commas (ts : List Bytes) : ts.length ≤ (commaJoined ts).count (chr ',') + 1 := by
  induction ts with
  | nil => exact Nat.zero_le _
  | cons t ts ih =>
    by_cases hts : ts = []
    · rw [hts, List.length_singleton]
      omega
    · have hcomma : (0x2C :: commaJoined ts).count (chr ',') = (commaJoined ts).count (chr ',') + 1 :=
        List.count_cons_self
      rw [commaJoined_cons t hts, List.count_append, hcomma, List.length_cons]
      omega

/-- The loops take as many turns as there are bytes, which are enough for joined texts: no comma is
    skipped in front of them. -/
theorem length_le_skipWs (ts : List Bytes) (x : Bytes) : ts.length ≤ (skipWs (commaJoined ts ++ x)).length + 1 := by
  obtain ⟨w, hw, hsplit⟩ := skipWs_split (commaJoined ts ++ x)
  have hnone : w.count (chr ',') = 0 := by
    refine List.count_eq_zero.mpr fun hc => ?_
    exact absurd (isWs_iff.mpr (hw _ hc)) (by decide)
  have hcount := congrArg (List.count (chr ',')) hsplit
  rw [List.count_append, List.count_append, hnone, Nat.zero_add] at hcount
  have hcommas := length_le_commas ts
  have hle := List.count_le_length (a := chr ',') (l := skipWs (commaJoined ts ++ x))
  omega

/-- What stands between two marks, and what follows. -/
theorem between_append (a c : UInt8) (x rest : Bytes) : a :: (x ++ [c]) ++ rest = a :: (x ++ c :: rest) := by
  rw [List.cons_append, List.append_assoc, List.singleton_append]

/-- **What is derived is read**, by induction on the derivation. -/
theorem parseValue_complete {levels : Nat} {t : Bytes} (h : Derives scannedRules levels t) :
    Reads (parseValue (levels + 1)) t := by
  induction h with
  | @word levels t ht =>
    intro w rest hw _
    have hskip := skipWs_value hw (derives_starts (.word ht : Derives scannedRules levels t)) rest
    rw [parseValue, hskip]
    simp only [words, List.mem_cons, List.not_mem_nil, or_false] at ht
    rcases ht with rfl | rfl | rfl
    · exact ⟨_, parseLiteral_append (str "false") (.bool false) rest⟩
    · exact ⟨_, parseLiteral_append (str "null") .null rest⟩
    · exact ⟨_, parseLiteral_append (str "true") (.bool true) rest⟩
  | @number levels n hn =>
    intro w rest hw hrest
    have hskip := skipWs_value hw (derives_starts (.number n hn : Derives scannedRules levels n.bytes)) rest
    obtain ⟨v, hv⟩ := parseNumber_complete hn.1 hrest.stops
    have hhead : ∃ c u, n.bytes = c :: u ∧ (c = chr '-' ∨ isDigit c = true) := by
      unfold Numeral.bytes Numeral.signBytes
      split
      next => exact ⟨_, _, rfl, Or.inl rfl⟩
      next hminus =>
        obtain ⟨c, u, hc⟩ := List.exists_cons_of_ne_nil (hn.2.resolve_left hminus)
        have hdigit := isDigit_iff.mpr (n.whole_digit c (by rw [hc]; exact List.mem_cons_self))
        exact ⟨c, u ++ n.fracBytes ++ n.expBytes, by rw [hc]; rfl, Or.inr hdigit⟩
    obtain ⟨c, u, hbytes, hc⟩ := hhead
    refine ⟨v, ?_⟩
    rw [hbytes] at hskip hv ⊢
    rw [parseValue_number hskip hc]
    exact hv
  | @string levels ps hps =>
    intro w rest hw _
    have hskip := skipWs_value hw (derives_starts (.string ps hps : Derives scannedRules levels _)) rest
    obtain ⟨s, hs⟩ := parseString_complete hps rest
    have htext : stringText ps ++ rest = chr '"' :: (ps.flatMap Piece.bytes ++ chr '"' :: rest) :=
      between_append _ _ _ _
    refine ⟨.string s, ?_⟩
    rw [htext] at hs hskip
    rw [parseValue, hskip]
    refine (if_neg (by decide)).trans ((if_neg (by decide)).trans ((if_pos rfl).trans ?_))
    rw [hs]
  | @emptyArray levels w' hw' =>
    intro w rest hw _
    have hskip := skipWs_value hw (derives_starts (.emptyArray hw' : Derives scannedRules levels _)) rest
    have htext : 0x5B :: (w' ++ [0x5D]) ++ rest = chr '[' :: (w' ++ chr ']' :: rest) := between_append _ _ _ _
    refine ⟨.array [], ?_⟩
    rw [htext] at hskip
    rw [parseValue, hskip]
    refine (if_neg (by decide)).trans ((if_pos rfl).trans ?_)
    rw [parseArray, skipWs_delimiter hw' (by decide), consume_self]
  | @array levels is hne hcount hitems ih =>
    intro w rest hw _
    have hskip := skipWs_value hw (derives_starts (.array is hne hcount hitems)) rest
    have hstarts : ∀ i ∈ is, StartsValue i.text := fun i hi => derives_starts (hitems i hi)
    have htext : 0x5B :: (commaJoined (is.map Item.bytes) ++ [0x5D]) ++ rest =
      chr '[' :: (commaJoined (is.map Item.bytes) ++ chr ']' :: rest) := between_append _ _ _ _
    have hturns := length_le_skipWs (is.map Item.bytes) (chr ']' :: rest)
    rw [List.length_map] at hturns
    have hopen : consume (chr ']') (skipWs (commaJoined (is.map Item.bytes) ++ chr ']' :: rest)) = none := by
      obtain ⟨i, is, rfl⟩ := List.exists_cons_of_ne_nil hne
      obtain ⟨c, u, hc, -, hclose⟩ := hstarts i List.mem_cons_self
      rw [skipWs_items (hstarts i List.mem_cons_self), hc]
      exact consume_ne hclose _
    obtain ⟨v, hv⟩ := parseItems_complete (p := parseValue (levels + 1)) rest is _ [] hne ih hstarts
      (by rwa [List.length_nil, Nat.zero_add]) hturns
    refine ⟨v, ?_⟩
    rw [htext] at hskip
    rw [parseValue, hskip]
    refine (if_neg (by decide)).trans ((if_pos rfl).trans ?_)
    rw [parseArray, hopen]
    exact hv
  | @emptyObject levels w' hw' =>
    intro w rest hw _
    have hskip := skipWs_value hw (derives_starts (.emptyObject hw' : Derives scannedRules levels _)) rest
    have htext : 0x7B :: (w' ++ [0x7D]) ++ rest = chr '\x7b' :: (w' ++ chr '}' :: rest) := between_append _ _ _ _
    refine ⟨.object [], ?_⟩
    rw [htext] at hskip
    rw [parseValue, hskip]
    refine (if_pos rfl).trans ?_
    rw [parseObject, skipWs_delimiter hw' (by decide), consume_self]
  | @object levels ms hne hkeys hvalues ih =>
    intro w rest hw _
    have hskip := skipWs_value hw (derives_starts (.object ms hne hkeys hvalues)) rest
    have htext : 0x7B :: (commaJoined (ms.map Member.bytes) ++ [0x7D]) ++ rest =
      chr '\x7b' :: (commaJoined (ms.map Member.bytes) ++ chr '}' :: rest) := between_append _ _ _ _
    have hturns := length_le_skipWs (ms.map Member.bytes) (chr '}' :: rest)
    rw [List.length_map] at hturns
    have hopen : consume (chr '}') (skipWs (commaJoined (ms.map Member.bytes) ++ chr '}' :: rest)) = none := by
      obtain ⟨m, ms, rfl⟩ := List.exists_cons_of_ne_nil hne
      rw [skipWs_members]
      exact consume_ne (show chr '"' ≠ chr '}' by decide) _
    obtain ⟨v, hv⟩ := parseMembers_complete (p := parseValue (levels + 1)) rest ms _ [] hne hkeys ih hturns
    refine ⟨v, ?_⟩
    rw [htext] at hskip
    rw [parseValue, hskip]
    refine (if_pos rfl).trans ?_
    rw [parseObject, hopen]
    exact hv

/-! ## The language -/

/-- **The reader accepts exactly these documents**, and every one of them. -/
theorem jsonParse_accepts (input : Bytes) :
    (∃ v, jsonParse input = .ok v) ↔
      strIsValidUtf8 input = true ∧ Document scannedRules jsonMaxDepth input := by
  constructor
  · rintro ⟨v, h⟩
    refine ⟨jsonParse_utf8 h, ?_⟩
    obtain ⟨i, hi, hinput⟩ := jsonParse_spelled h
    exact ⟨i, hi.derives, hinput⟩
  · rintro ⟨hutf8, i, hi, rfl⟩
    have hskip : skipWs i.bytes = i.text ++ i.after := by
      have hvalue := skipWs_value i.ws_before (derives_starts hi) i.after
      exact hvalue
    have hfollows : Follows i.after := by
      intro c hc
      exact Or.inl (isWs_iff.mpr (i.ws_after c (List.mem_of_mem_head? hc)))
    have hend : skipWs i.after = [] := by
      have hall := skipWs_append i.ws_after []
      rwa [List.append_nil] at hall
    obtain ⟨v, hv⟩ := parseValue_complete hi [] i.after (fun c hc => absurd hc List.not_mem_nil) hfollows
    refine ⟨v, ?_⟩
    rw [jsonParse, hutf8, hskip, show parseValue (jsonMaxDepth + 1) (i.text ++ i.after) = .ok (v, i.after) from hv]
    exact if_pos hend

/-- Behind the whitespace in front stands the text of the tree. -/
theorem skipWs_spelled {input : Bytes} {v : Json} (h : jsonParse input = .ok v) :
    ∃ text after, Spells jsonMaxDepth v text ∧ skipWs input = text ++ after := by
  obtain ⟨i, hspells, rfl⟩ := jsonParse_spelled h
  exact ⟨i.text, i.after, hspells, skipWs_value i.ws_before (derives_starts hspells.derives) i.after⟩

theorem Spells.object_head {levels : Nat} {members : List (Bytes × Json)} {t : Bytes}
    (h : Spells levels (.object members) t) : t.head? = some (chr '\x7b') := by
  generalize hv : Json.object members = v at h
  cases h <;> first | rfl | exact Json.noConfusion hv

/-- **A line of an accepted text starts with a token's byte**, as it cannot start within a string. -/
theorem accepted_line {input : Bytes} {v : Json} (h : jsonParse input = .ok v) {c : UInt8} {rest : Bytes}
    (hline : c :: rest ∈ input.splitOn (chr '\n')) : c ∈ tokenBytes := by
  obtain ⟨before, after, hinput, hstart⟩ := Lib.Separated.mem_splitOn_starts hline
  rw [List.append_assoc, List.cons_append] at hinput
  exact ((jsonParse_accepts input).mp ⟨v, h⟩).2.lineStarts before c (rest ++ after) hinput hstart

/-- JSON within the reader's bounds: no number longer than 127 bytes or beyond the range of a `double`, and
    no array of more than 100000 items. -/
def rfcRules : Rules := ⟨fun _ => True, fun n => n.Proper ∧ NumeralFits n, (· ≤ jsonMaxArrayItems)⟩

/-- The same with paired surrogates: an escape has to be a code point. -/
def pairedRules : Rules := ⟨Paired, fun n => n.Proper ∧ NumeralFits n, (· ≤ jsonMaxArrayItems)⟩

theorem pairedRules_le : pairedRules.Le scannedRules where
  string _ h := h
  numeral n h := by
    have hwhole : n.whole ≠ [] := by
      rcases h.1.int with hint | ⟨d, ds, hint, -⟩ <;> rw [hint] <;> exact List.cons_ne_nil _ _
    exact ⟨⟨h.2, strtod_of_whole hwhole⟩, Or.inr hwhole⟩
  items _ h := h

/-- **All JSON whose surrogates are paired is accepted, and nothing else** but what is such a document save
    for the spelling of its numbers, in front of which `strtod` has to find one. -/
theorem jsonParse_paired (input : Bytes) :
    (strIsValidUtf8 input = true ∧ Document pairedRules jsonMaxDepth input → ∃ v, jsonParse input = .ok v) ∧
      ((∃ v, jsonParse input = .ok v) →
        strIsValidUtf8 input = true ∧ Document scannedRules jsonMaxDepth input) := by
  constructor
  · rintro ⟨hutf8, hdoc⟩
    exact (jsonParse_accepts input).mpr ⟨hutf8, hdoc.mono pairedRules_le⟩
  · exact (jsonParse_accepts input).mp

/-- A high surrogate that nothing follows. -/
def loneSurrogate : CodeUnit := ⟨str "d83d", rfl, bytes_forall (by decide)⟩

/-- The grammar has the string of a lone surrogate; the reader refuses it. -/
theorem not_accepts_loneSurrogate :
    ¬ ∀ input : Bytes, (∃ v, jsonParse input = .ok v) ↔
      strIsValidUtf8 input = true ∧ Document rfcRules jsonMaxDepth input := by
  intro h
  have hnil : Ws [] := fun c hc => absurd hc List.not_mem_nil
  have hdoc : Document rfcRules jsonMaxDepth (stringText [.unicode loneSurrogate]) :=
    ⟨⟨[], stringText [.unicode loneSurrogate], [], hnil, hnil⟩, .string _ trivial, rfl⟩
  obtain ⟨v, hv⟩ := (h (stringText [.unicode loneSurrogate])).mpr ⟨by decide, hdoc⟩
  have hrefused : (jsonParse (stringText [.unicode loneSurrogate])).toOption.isNone = true := by decide +kernel
  rw [hv] at hrefused
  exact Bool.noConfusion hrefused

end SmolClaw
