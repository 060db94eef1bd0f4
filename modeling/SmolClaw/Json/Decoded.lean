/-
  What `sc_json_parse` makes of a text (`src/json/json.c`).

  1. **Specification** — `Spells`: a tree and its text, production by production.  A string and a key are what
     their literal stands for (`Decodes`), and so no literal has a surrogate without its other half.

  2. **The reader** — `parseValue_spelled`, by induction on the levels that may still be opened: the loops of
     `parse_object` and `parse_array` add one member or item a turn, and the whitespace that one turn skips
     stands in front of the next.

  3. **Documents** — `jsonParse_strings`: every string and every key of the tree is well-formed UTF-8 and what
     its literal stands for.
-/
import SmolClaw.Json.Tokens

namespace SmolClaw

open Lib.JsonGrammar

/-- Numbers as `parse_value` and `parse_number` take them. -/
def NumeralScanned (n : Numeral) : Prop := NumeralRead n ∧ (n.minus = true ∨ n.whole ≠ [])

/-! ## Specification -/

/-- **A tree and its text**, with no more than `levels` containers around any value. -/
inductive Spells : Nat → Json → Bytes → Prop
  | null {levels : Nat} : Spells levels .null (str "null")
  | true {levels : Nat} : Spells levels (.bool Bool.true) (str "true")
  | false {levels : Nat} : Spells levels (.bool Bool.false) (str "false")
  | number {levels : Nat} (n : Numeral) {d : Double} (hn : NumeralScanned n) (hd : strtod n.bytes = some d) :
      Spells levels (.number d) n.bytes
  | string {levels : Nat} {ps : List Piece} {s : Bytes} (hs : Decodes ps s) :
      Spells levels (.string s) (stringText ps)
  | emptyArray {levels : Nat} {w : Bytes} (hw : Ws w) : Spells levels (.array []) (0x5B :: (w ++ [0x5D]))
  | array {levels : Nat} (items : List (Item × Json)) (hne : items ≠ [])
      (hcount : items.length ≤ jsonMaxArrayItems) (hitems : ∀ i ∈ items, Spells levels i.2 i.1.text) :
      Spells (levels + 1) (.array (items.map Prod.snd))
        (0x5B :: (commaJoined (items.map fun i => i.1.bytes) ++ [0x5D]))
  | emptyObject {levels : Nat} {w : Bytes} (hw : Ws w) : Spells levels (.object []) (0x7B :: (w ++ [0x7D]))
  | object {levels : Nat} (members : List (Member × Bytes × Json)) (hne : members ≠ [])
      (hkeys : ∀ m ∈ members, Decodes m.1.key m.2.1)
      (hvalues : ∀ m ∈ members, Spells levels m.2.2 m.1.value.text) :
      Spells (levels + 1) (.object (members.map Prod.snd))
        (0x7B :: (commaJoined (members.map fun m => m.1.bytes) ++ [0x7D]))

mutual

/-- Every string and every key of a tree. -/
def Json.texts : Json → List Bytes
  | .string s => [s]
  | .array items => Json.textsOfItems items
  | .object members => Json.textsOfMembers members
  | _ => []

def Json.textsOfItems : List Json → List Bytes
  | [] => []
  | v :: vs => Json.texts v ++ Json.textsOfItems vs

def Json.textsOfMembers : List (Bytes × Json) → List Bytes
  | [] => []
  | (key, v) :: ms => key :: (Json.texts v ++ Json.textsOfMembers ms)

end

/-- **A document and its tree**: whitespace around a text that spells the tree, and well-formed strings. -/
structure ReadAs (input : Bytes) (v : Json) : Prop where
  spelled : ∃ i : Item, Spells jsonMaxDepth v i.text ∧ input = i.bytes
  wellFormed : ∀ s ∈ v.texts, WellFormed s

/-! ## Loops -/

/-- A parser that takes whitespace and a text that spells its tree. -/
def TakesAs (p : Bytes → Parsed Json) (R : Json → Bytes → Prop) : Prop :=
  ∀ left v rest, p left = .ok (v, rest) → ∃ w t, Ws w ∧ R v t ∧ left = w ++ t ++ rest

section Loops

variable {p : Bytes → Parsed Json} {R : Json → Bytes → Prop}

/-- One member: a key, a colon, a value. -/
theorem parseMember_spelled (hp : TakesAs p R) {left rest : Bytes} {m : Bytes × Json}
    (h : parseMember p left = .ok (m, rest)) :
    ∃ n : Member, Decodes n.key m.1 ∧ R m.2 n.value.text ∧ left = n.bytes ++ skipWs rest := by
  obtain ⟨after, tail, hkey, hcolon, hvalue⟩ := parseMember_read h
  obtain ⟨key, hdecodes, rfl⟩ := parseString_sound hkey
  obtain ⟨colon, hws, hsplit⟩ := skipWs_split after
  obtain ⟨w, t, hw, ht, rfl⟩ := hp _ _ _ hvalue
  obtain ⟨w', hw', hrest⟩ := skipWs_split rest
  refine ⟨⟨[], key, colon, ⟨w, t, w', hw, hw'⟩, fun c hc => absurd hc List.not_mem_nil, hws⟩, hdecodes, ht, ?_⟩
  rw [hsplit, consume_some hcolon]
  conv_lhs => rw [hrest]
  simp only [Member.bytes, Item.bytes, List.nil_append, List.append_assoc, List.cons_append]
  rfl

/-- What the loop of `parse_object` takes: members with commas between them, and the closing brace. -/
theorem MembersRead.spelled (hp : TakesAs p R) {members : List (Bytes × Json)} {left rest : Bytes} {v : Json}
    (h : MembersRead p members left v rest) :
    ∃ ms : List (Member × Bytes × Json), ms ≠ [] ∧ (∀ m ∈ ms, Decodes m.1.key m.2.1) ∧
      (∀ m ∈ ms, R m.2.2 m.1.value.text) ∧ v = .object (members ++ ms.map Prod.snd) ∧
      left = commaJoined (ms.map fun m => m.1.bytes) ++ 0x7D :: rest := by
  induction h with
  | @close _ member _ _ _ hmember hclose =>
    obtain ⟨m, hkey, ht, hleft⟩ := parseMember_spelled hp hmember
    refine ⟨[(m, member)], List.cons_ne_nil _ [], ?_, ?_, rfl, ?_⟩
    · exact List.forall_mem_singleton.mpr hkey
    · exact List.forall_mem_singleton.mpr ht
    · rw [hleft, consume_some hclose]
      rfl
  | @comma _ member _ _ tail _ _ hmember hcomma _ ih =>
    obtain ⟨m, hkey, ht, hleft⟩ := parseMember_spelled hp hmember
    obtain ⟨ms, hne, hkeys, hvalues, rfl, hrest⟩ := ih
    obtain ⟨n, ms, rfl⟩ := List.exists_cons_of_ne_nil hne
    obtain ⟨w, hw, htail⟩ := skipWs_split tail
    refine ⟨(m, member) :: (n.1.pad hw, n.2) :: ms, List.cons_ne_nil _ _, ?_, ?_, ?_, ?_⟩
    · exact List.forall_mem_cons.mpr ⟨hkey, List.forall_mem_cons.mpr (List.forall_mem_cons.mp hkeys)⟩
    · exact List.forall_mem_cons.mpr ⟨ht, List.forall_mem_cons.mpr (List.forall_mem_cons.mp hvalues)⟩
    · rw [List.append_assoc]
      rfl
    · rw [hleft, consume_some hcomma, htail, hrest, List.map_cons, List.map_cons, List.map_cons,
        commaJoined_cons _ (List.cons_ne_nil _ _), n.1.bytes_pad, commaJoined_append]
      simp only [List.append_assoc, List.cons_append]
      rfl

/-- What the loop of `parse_array` takes: items with commas between them, and the closing bracket. -/
theorem ItemsRead.spelled (hp : TakesAs p R) {items : List Json} {left rest : Bytes} {v : Json}
    (h : ItemsRead p items left v rest) :
    ∃ is : List (Item × Json), is ≠ [] ∧ items.length + is.length ≤ jsonMaxArrayItems ∧
      (∀ i ∈ is, R i.2 i.1.text) ∧ v = .array (items ++ is.map Prod.snd) ∧
      left = commaJoined (is.map fun i => i.1.bytes) ++ 0x5D :: rest := by
  have hitem : ∀ {left after : Bytes} {item : Json}, p left = .ok (item, after) →
      ∃ i : Item, R item i.text ∧ left = i.bytes ++ skipWs after := by
    intro left after item hvalue
    obtain ⟨w, t, hw, ht, hleft⟩ := hp _ _ _ hvalue
    obtain ⟨w', hw', hafter⟩ := skipWs_split after
    refine ⟨⟨w, t, w', hw, hw'⟩, ht, ?_⟩
    rw [hleft]
    conv_lhs => rw [hafter]
    simp only [Item.bytes, List.append_assoc]
  induction h with
  | @close _ item _ _ _ room hvalue hclose =>
    obtain ⟨i, ht, hleft⟩ := hitem hvalue
    refine ⟨[(i, item)], List.cons_ne_nil _ [], room, ?_, rfl, ?_⟩
    · exact List.forall_mem_singleton.mpr ht
    · rw [hleft, consume_some hclose]
      rfl
  | @comma _ item _ _ tail _ _ _ hvalue hcomma _ ih =>
    obtain ⟨i, ht, hleft⟩ := hitem hvalue
    obtain ⟨is, hne, hcount, hitems, rfl, hrest⟩ := ih
    obtain ⟨j, is, rfl⟩ := List.exists_cons_of_ne_nil hne
    obtain ⟨w, hw, htail⟩ := skipWs_split tail
    refine ⟨(i, item) :: (j.1.pad hw, j.2) :: is, List.cons_ne_nil _ _, ?_, ?_, ?_, ?_⟩
    · rw [List.length_append, List.length_singleton, List.length_cons] at hcount
      rw [List.length_cons, List.length_cons]
      omega
    · exact List.forall_mem_cons.mpr ⟨ht, List.forall_mem_cons.mpr (List.forall_mem_cons.mp hitems)⟩
    · rw [List.append_assoc]
      rfl
    · rw [hleft, consume_some hcomma, htail, hrest, List.map_cons, List.map_cons, List.map_cons,
        commaJoined_cons _ (List.cons_ne_nil _ _), j.1.bytes_pad, commaJoined_append]
      simp only [List.append_assoc, List.cons_append]
      rfl

end Loops

/-! ## Values -/

/-- A number behind a `-` or a digit has a sign or digits in front of the point. -/
theorem numeralScanned_of_head {n : Numeral} {c : UInt8} {left rest : Bytes} (hn : NumeralRead n)
    (hc : c = chr '-' ∨ isDigit c = true) (h : c :: left = n.bytes ++ rest) : NumeralScanned n := by
  refine ⟨hn, ?_⟩
  by_contra hnone
  obtain ⟨hminus, hwhole⟩ := not_or.mp hnone
  have hbytes : n.bytes = n.fracBytes ++ n.expBytes := by
    rw [Numeral.bytes, Numeral.signBytes, if_neg hminus, not_not.mp hwhole, List.nil_append, List.nil_append]
  have hstops : Stops (fun c => c == chr '-' || isDigit c) (n.fracBytes ++ n.expBytes) :=
    (stops_fracBytes (by decide) n).append (stops_expBytes (by decide) (by decide) n)
  have hne : n.bytes ≠ [] := by
    intro hnil
    have hsome := hn.2
    rw [hnil] at hsome
    exact absurd hsome (by decide)
  obtain ⟨d, t, hd⟩ := List.exists_cons_of_ne_nil hne
  rw [hd, List.cons_append] at h
  rw [← hbytes, hd, ← (List.cons.inj h).1] at hstops
  have hno : (c == chr '-' || isDigit c) = false := hstops c rfl
  rcases hc with rfl | hc
  · exact absurd hno (by decide)
  · rw [hc, Bool.or_true] at hno
    exact Bool.noConfusion hno

/-- The texts that spell a tree with one level less than may still be opened. -/
def SpelledBelow (levels : Nat) (v : Json) (t : Bytes) : Prop := ∃ m, levels = m + 1 ∧ Spells m v t

/-- Texts that are spelled below one bound are spelled with one number of levels. -/
theorem spelledBelow_all {α : Type} {v : α → Json} {t : α → Bytes} {levels : Nat} {x : α} {xs : List α}
    (h : ∀ y ∈ x :: xs, SpelledBelow levels (v y) (t y)) :
    ∃ k, levels = k + 1 ∧ ∀ y ∈ x :: xs, Spells k (v y) (t y) := by
  obtain ⟨k, rfl, -⟩ := h x List.mem_cons_self
  refine ⟨k, rfl, ?_⟩
  intro y hy
  obtain ⟨j, hj, hspells⟩ := h y hy
  rwa [Nat.add_right_cancel hj]

/-- `parse_object`, behind the brace -/
theorem parseObject_spelled {levels : Nat} (ih : TakesAs (parseValue levels) (SpelledBelow levels))
    {after rest : Bytes} {v : Json} (h : parseObject (parseValue levels) after = .ok (v, rest)) :
    ∃ t, Spells levels v t ∧ 0x7B :: after = t ++ rest := by
  obtain ⟨w, hw, hinner⟩ := skipWs_split after
  rcases parseObject_read h with ⟨hclose, rfl⟩ | hread
  · refine ⟨_, .emptyObject hw, ?_⟩
    rw [hinner, consume_some hclose, List.cons_append, List.append_assoc]
    rfl
  · obtain ⟨ms, hne, hkeys, hvalues, rfl, hrest⟩ := hread.spelled ih
    obtain ⟨m, ms, rfl⟩ := List.exists_cons_of_ne_nil hne
    obtain ⟨k, rfl, hbelow⟩ := spelledBelow_all hvalues
    have hvalues' : ∀ n ∈ (m.1.pad hw, m.2) :: ms, Spells k n.2.2 n.1.value.text :=
      List.forall_mem_cons.mpr (List.forall_mem_cons.mp hbelow)
    have hkeys' : ∀ n ∈ (m.1.pad hw, m.2) :: ms, Decodes n.1.key n.2.1 :=
      List.forall_mem_cons.mpr (List.forall_mem_cons.mp hkeys)
    refine ⟨_, .object ((m.1.pad hw, m.2) :: ms) (List.cons_ne_nil _ _) hkeys' hvalues', ?_⟩
    rw [hinner, hrest, List.map_cons, List.map_cons, m.1.bytes_pad, commaJoined_append]
    simp only [List.cons_append, List.append_assoc]
    rfl

/-- `parse_array`, behind the bracket -/
theorem parseArray_spelled {levels : Nat} (ih : TakesAs (parseValue levels) (SpelledBelow levels))
    {after rest : Bytes} {v : Json} (h : parseArray (parseValue levels) after = .ok (v, rest)) :
    ∃ t, Spells levels v t ∧ 0x5B :: after = t ++ rest := by
  obtain ⟨w, hw, hinner⟩ := skipWs_split after
  rcases parseArray_read h with ⟨hclose, rfl⟩ | hread
  · refine ⟨_, .emptyArray hw, ?_⟩
    rw [hinner, consume_some hclose, List.cons_append, List.append_assoc]
    rfl
  · obtain ⟨is, hne, hcount, hitems, rfl, hrest⟩ := hread.spelled ih
    obtain ⟨i, is, rfl⟩ := List.exists_cons_of_ne_nil hne
    obtain ⟨k, rfl, hbelow⟩ := spelledBelow_all hitems
    have hitems' : ∀ j ∈ (i.1.pad hw, i.2) :: is, Spells k j.2 j.1.text :=
      List.forall_mem_cons.mpr (List.forall_mem_cons.mp hbelow)
    have hlength : ((i.1.pad hw, i.2) :: is).length ≤ jsonMaxArrayItems := by
      rw [List.length_cons] at hcount ⊢
      rwa [List.length_nil, Nat.zero_add] at hcount
    refine ⟨_, .array ((i.1.pad hw, i.2) :: is) (List.cons_ne_nil _ _) hlength hitems', ?_⟩
    rw [hinner, hrest, List.map_cons, List.map_cons, i.1.bytes_pad, commaJoined_append]
    simp only [List.cons_append, List.append_assoc]
    rfl

/-- **What is read is spelled**, by induction on the levels that may still be opened. -/
theorem parseValue_spelled : ∀ levels : Nat, TakesAs (parseValue levels) (SpelledBelow levels) := by
  intro levels
  induction levels with
  | zero => intro left v rest h; cases h
  | succ levels ih =>
    intro left v rest h
    obtain ⟨w, hw, hsplit⟩ := skipWs_split left
    suffices hvalue : ∃ t, Spells levels v t ∧ skipWs left = t ++ rest by
      obtain ⟨t, ht, hleft⟩ := hvalue
      exact ⟨w, t, hw, ⟨levels, rfl, ht⟩, by rw [List.append_assoc, ← hleft]; exact hsplit⟩
    have hread := parseValue_read h
    generalize skipWs left = s at hread
    cases hread with
    | object hmembers => exact parseObject_spelled ih hmembers
    | array hitems => exact parseArray_spelled ih hitems
    | string htext =>
      obtain ⟨ps, hps, hleft⟩ := parseString_sound htext
      exact ⟨_, .string hps, hleft⟩
    | literal hknown =>
      rcases hknown with ⟨rfl, rfl⟩ | ⟨rfl, rfl⟩ | ⟨rfl, rfl⟩
      · exact ⟨_, .true, rfl⟩
      · exact ⟨_, .false, rfl⟩
      · exact ⟨_, .null, rfl⟩
    | number hhead hdigits =>
      obtain ⟨n, d, hn, hd, rfl, hleft⟩ := parseNumber_sound hdigits
      exact ⟨_, .number n (numeralScanned_of_head hn hhead hleft) hd, hleft⟩

/-! ## Documents -/

/-- What is read is a document of its tree. -/
theorem jsonParse_spelled {input : Bytes} {v : Json} (h : jsonParse input = .ok v) :
    ∃ i : Item, Spells jsonMaxDepth v i.text ∧ input = i.bytes := by
  unfold jsonParse at h
  split at h
  next => cases h
  next =>
    split at h
    next => cases h
    next value rest hvalue =>
      split at h
      next hend =>
        cases h
        obtain ⟨w, t, hw, ⟨levels, hlevels, ht⟩, hleft⟩ := parseValue_spelled _ _ _ _ hvalue
        obtain ⟨before, hbefore, hinput⟩ := skipWs_split input
        obtain ⟨behind, hbehind, hrest⟩ := skipWs_split rest
        obtain rfl := Nat.add_right_cancel hlevels
        refine ⟨⟨before ++ w, t, behind, hbefore.append hw, hbehind⟩, ht, ?_⟩
        rw [hend, List.append_nil] at hrest
        rw [hinput, hleft, hrest]
        simp only [Item.bytes, List.append_assoc]
      next => cases h

theorem mem_textsOfItems {s : Bytes} {items : List Json} (h : s ∈ Json.textsOfItems items) :
    ∃ v ∈ items, s ∈ v.texts := by
  induction items with
  | nil => exact absurd h List.not_mem_nil
  | cons v vs ih =>
    rw [Json.textsOfItems, List.mem_append] at h
    rcases h with h | h
    · exact ⟨v, List.mem_cons_self, h⟩
    · obtain ⟨u, hu, hs⟩ := ih h
      exact ⟨u, List.mem_cons_of_mem v hu, hs⟩

theorem mem_textsOfMembers {s : Bytes} {members : List (Bytes × Json)} (h : s ∈ Json.textsOfMembers members) :
    ∃ m ∈ members, s = m.1 ∨ s ∈ m.2.texts := by
  induction members with
  | nil => exact absurd h List.not_mem_nil
  | cons m ms ih =>
    rw [Json.textsOfMembers, List.mem_cons, List.mem_append] at h
    rcases h with h | h | h
    · exact ⟨m, List.mem_cons_self, Or.inl h⟩
    · exact ⟨m, List.mem_cons_self, Or.inr h⟩
    · obtain ⟨n, hn, hs⟩ := ih h
      exact ⟨n, List.mem_cons_of_mem m hn, hs⟩

/-- The texts of a tree whose nodes have valid texts. -/
theorem texts_valid (v : Json) : ∀ d, v.all Json.readNode d = true → ∀ s ∈ v.texts, strIsValidUtf8 s = true := by
  have hnode : ∀ {d : Nat} {u : Json}, Json.readNode d u = true → u.textsOk = true := by
    intro d u h
    rw [Json.readNode, Bool.and_eq_true, Bool.and_eq_true] at h
    exact h.1.2
  induction v using Json.inductionOn with
  | null => intro d _ s hs; exact absurd hs List.not_mem_nil
  | bool b => intro d _ s hs; exact absurd hs List.not_mem_nil
  | number x => intro d _ s hs; exact absurd hs List.not_mem_nil
  | string t =>
    intro d h s hs
    rw [List.mem_singleton.mp hs]
    exact hnode h
  | array items ih =>
    intro d h s hs
    obtain ⟨v, hv, hin⟩ := mem_textsOfItems hs
    exact ih v hv (d + 1) ((Json.all_array.mp h).2 v hv) s hin
  | object members ih =>
    intro d h s hs
    obtain ⟨hkeys, hvalues⟩ := Json.all_object.mp h
    obtain ⟨m, hm, rfl | hin⟩ := mem_textsOfMembers hs
    · exact List.all_eq_true.mp (hnode hkeys) m hm
    · exact ih m hm (d + 1) (hvalues m hm) s hin

/-- **Strings and keys** of what is read are well-formed UTF-8, and what their literals stand for. -/
theorem jsonParse_strings (input : Bytes) (v : Json) (h : jsonParse input = .ok v) : ReadAs input v where
  spelled := jsonParse_spelled h
  wellFormed s hs := utf8_wellFormed (texts_valid v 0 (jsonParse_valid h).1 s hs)

/-- A letter and an escape. -/
theorem jsonParse_escape : ReadAs (jsonText (.string [chr 'a', chr '\n'])) (.string [chr 'a', chr '\n']) :=
  jsonParse_strings (jsonText (.string [chr 'a', chr '\n'])) (.string [chr 'a', chr '\n'])
    (jsonParse_text ⟨by decide, by decide, by decide⟩ (by decide))

end SmolClaw
