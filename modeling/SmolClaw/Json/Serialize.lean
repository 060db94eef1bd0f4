/-
  The JSON writer (`sc_json_serialize`, `src/json/json.c`, over the writer of
  `vendor/microjson/mjson_write.c`) and its round trip through the reader.

  1. **Two passes** — the tree is emitted into a writer with no buffer, which only COUNTS, and again
     into a buffer of exactly that many bytes; a second pass that disagrees with the first is an error.
     `emit_text` is the reason they agree: emitting a tree is one write of the tree's text.

  2. **Text** — `jsonText` is the text a tree stands for, container by container; `parseValue_exact`
     reads it back with the lemmas of `Json.Text` and `Json.Numbers`, by induction on the tree.

  3. **Trees** — `Built` is what the constructors of `json.c` and the reader can make.  `built_iff`:
     these are the trees without an oversized array, so a tree that was altered in place is one too.

  Numbers are written with `%.17g` and read back exactly when they are finite; `serialize_roundtrip` is
  about trees without them.
-/
import SmolClaw.Json.Numbers

namespace SmolClaw

/-! ## Building trees -/

/-- `sc_json_array_append` -/
def jsonArrayAppend (array value : Json) : Res Json :=
  match array with
  | .array items =>
      if jsonMaxArrayItems ≤ items.length then Status.parse "sc.json.array_too_large"
      else .ok (.array (items ++ [value]))
  | _ => Status.invalidArgument "sc.json.invalid_argument"

/-- `sc_json_object_set`: the member is appended, an earlier one of the same key stays. -/
def jsonObjectSet (object : Json) (key : Bytes) (value : Json) : Res Json :=
  match object with
  | .object members => .ok (.object (members ++ [(key, value)]))
  | _ => Status.invalidArgument "sc.json.invalid_argument"

/-- The trees `sc_json_parse` and the `sc_json_*_new`, `_set` and `_append` calls build. -/
inductive Built : Json → Prop where
  | parsed {input : Bytes} {v : Json} : jsonParse input = .ok v → Built v
  | null : Built .null
  | bool (b : Bool) : Built (.bool b)
  | number (d : Double) : Built (.number d)
  | string (s : Bytes) : Built (.string s)
  | array : Built (.array [])
  | object : Built (.object [])
  | append {a v w : Json} : Built a → Built v → jsonArrayAppend a v = .ok w → Built w
  | set {o v w : Json} {key : Bytes} : Built o → Built v → jsonObjectSet o key v = .ok w → Built w

/-! ## Trees, node by node -/

mutual

/-- `p` holds of every node, given how many containers stand around it. -/
def Json.all (p : Nat → Json → Bool) : Nat → Json → Bool
  | d, .array items => p d (.array items) && Json.allItems p (d + 1) items
  | d, .object members => p d (.object members) && Json.allMembers p (d + 1) members
  | d, v => p d v

def Json.allItems (p : Nat → Json → Bool) : Nat → List Json → Bool
  | _, [] => true
  | d, v :: vs => Json.all p d v && Json.allItems p d vs

def Json.allMembers (p : Nat → Json → Bool) : Nat → List (Bytes × Json) → Bool
  | _, [] => true
  | d, (_, v) :: ms => Json.all p d v && Json.allMembers p d ms

end

namespace Json

/-- What holds of the leaves, and of a container once it holds of what is in it, holds of every
    tree. -/
theorem inductionOn {P : Json → Prop} (null : P .null) (bool : ∀ b, P (.bool b))
    (number : ∀ d, P (.number d)) (string : ∀ s, P (.string s))
    (array : ∀ items, (∀ v ∈ items, P v) → P (.array items))
    (object : ∀ members : List (Bytes × Json), (∀ m ∈ members, P m.2) → P (.object members)) :
    ∀ v, P v := by
  refine Json.rec (motive_2 := fun items => ∀ v ∈ items, P v)
    (motive_3 := fun members => ∀ m ∈ members, P m.2) (motive_4 := fun m => P m.2)
    null bool number string array object ?nil ?cons ?noMember ?member ?pair
  case nil => exact fun v hv => absurd hv List.not_mem_nil
  case cons => exact fun v vs hv hvs => List.forall_mem_cons.mpr ⟨hv, hvs⟩
  case noMember => exact fun m hm => absurd hm List.not_mem_nil
  case member => exact fun m ms hm hms => List.forall_mem_cons.mpr ⟨hm, hms⟩
  case pair => exact fun key v hv => hv

variable {p : Nat → Json → Bool}

theorem allItems_eq (d : Nat) (items : List Json) : allItems p d items = items.all (all p d) := by
  induction items with
  | nil => rfl
  | cons v vs ih => rw [allItems, List.all_cons, ih]

theorem allMembers_eq (d : Nat) (members : List (Bytes × Json)) :
    allMembers p d members = members.all fun m => all p d m.2 := by
  induction members with
  | nil => rfl
  | cons m ms ih => rw [allMembers, List.all_cons, ih]

/-- A property of an array is one of the node and of the items. -/
theorem all_array {d : Nat} {items : List Json} : all p d (.array items) = true ↔
    p d (.array items) = true ∧ ∀ v ∈ items, all p (d + 1) v = true := by
  rw [all, Bool.and_eq_true, allItems_eq, List.all_eq_true]

theorem all_object {d : Nat} {members : List (Bytes × Json)} : all p d (.object members) = true ↔
    p d (.object members) = true ∧ ∀ m ∈ members, all p (d + 1) m.2 = true := by
  rw [all, Bool.and_eq_true, allMembers_eq, List.all_eq_true]

/-- `isNumber` -/
def isNumber : Json → Bool
  | .number _ => true
  | _ => false

/-- The text of a string node and the keys of an object node are valid UTF-8. -/
def textsOk : Json → Bool
  | .string s => strIsValidUtf8 s
  | .object members => members.all fun m => strIsValidUtf8 m.1
  | _ => true

/-- An array node is no longer than `sc_json_array_append` lets it grow. -/
def sizeOk : Json → Bool
  | .array items => items.length ≤ jsonMaxArrayItems
  | _ => true

/-- No number anywhere in the tree. -/
def noNumbers (v : Json) : Bool := v.all (fun _ u => !u.isNumber) 0

/-- Every string and every key is valid UTF-8. -/
def validTexts (v : Json) : Bool := v.all (fun _ u => u.textsOk) 0

/-- No node stands in more containers than the reader opens. -/
def withinDepth (v : Json) : Bool := v.all (fun d _ => d ≤ jsonMaxDepth) 0

/-- No oversized array. -/
def bounded (v : Json) : Bool := v.all (fun _ u => u.sizeOk) 0

/-- A number node is finite. -/
def finiteOk : Json → Bool
  | .number d => d.isFinite
  | _ => true

/-- A node the reader may return inside `d` containers. -/
def readNode (d : Nat) (u : Json) : Bool := d ≤ jsonMaxDepth && u.textsOk && u.finiteOk

/-- What two tests imply together holds of every node that passes both. -/
theorem all_and {q r : Nat → Json → Bool} (h : ∀ d u, p d u = true → q d u = true → r d u = true) (v : Json) :
    ∀ d, all p d v = true → all q d v = true → all r d v = true := by
  induction v using Json.inductionOn with
  | null | bool b | number x | string s => exact fun d => h d _
  | array items ih =>
    intro d hp hq
    obtain ⟨hp, hpItems⟩ := all_array.mp hp
    obtain ⟨hq, hqItems⟩ := all_array.mp hq
    exact all_array.mpr ⟨h d _ hp hq, fun v hv => ih v hv (d + 1) (hpItems v hv) (hqItems v hv)⟩
  | object members ih =>
    intro d hp hq
    obtain ⟨hp, hpMembers⟩ := all_object.mp hp
    obtain ⟨hq, hqMembers⟩ := all_object.mp hq
    exact all_object.mpr ⟨h d _ hp hq, fun m hm => ih m hm (d + 1) (hpMembers m hm) (hqMembers m hm)⟩

/-- A test that does not look at the depth may start anywhere. -/
theorem all_depth {r : Json → Bool} (v : Json) :
    ∀ d e, all (fun _ u => r u) d v = all (fun _ u => r u) e v := by
  induction v using Json.inductionOn with
  | null | bool b | number x | string s => intro d e; rfl
  | array items ih =>
    intro d e
    rw [Bool.eq_iff_iff, all_array, all_array]
    exact and_congr Iff.rfl (forall₂_congr fun v hv => by rw [ih v hv (d + 1) (e + 1)])
  | object members ih =>
    intro d e
    rw [Bool.eq_iff_iff, all_object, all_object]
    exact and_congr Iff.rfl (forall₂_congr fun m hm => by rw [ih m hm (d + 1) (e + 1)])

theorem bounded_array {items : List Json} : (array items).bounded = true ↔
    items.length ≤ jsonMaxArrayItems ∧ ∀ v ∈ items, v.bounded = true := by
  rw [bounded, all_array]
  refine and_congr decide_eq_true_iff (forall₂_congr fun v _ => ?_)
  rw [all_depth v 1 0]
  rfl

theorem bounded_object {members : List (Bytes × Json)} : (object members).bounded = true ↔
    ∀ m ∈ members, m.2.bounded = true := by
  rw [bounded, all_object]
  refine (and_iff_right rfl).trans (forall₂_congr fun m _ => ?_)
  rw [all_depth m.2 1 0]
  rfl

end Json

/-! ## Built trees are the bounded ones -/

section Reader

variable {p : Bytes → Parsed Json}

/-- The loop of `parse_array` refuses to go on at a full array. -/
theorem ItemsRead.bounded (hp : ∀ left v rest, p left = .ok (v, rest) → v.bounded = true) {acc : List Json}
    {left rest : Bytes} {v : Json} (h : ItemsRead p acc left v rest) (hacc : ∀ a ∈ acc, a.bounded = true) :
    v.bounded = true := by
  induction h with
  | @close acc item _ _ _ room value _ =>
    refine Json.bounded_array.mpr ⟨?_, forall_mem_concat hacc (hp _ _ _ value)⟩
    rw [List.length_append, List.length_singleton]
    exact room
  | comma _ value _ _ ih => exact ih (forall_mem_concat hacc (hp _ _ _ value))

theorem MembersRead.bounded (hp : ∀ left v rest, p left = .ok (v, rest) → v.bounded = true)
    {acc : List (Bytes × Json)} {left rest : Bytes} {v : Json} (h : MembersRead p acc left v rest)
    (hacc : ∀ a ∈ acc, a.2.bounded = true) : v.bounded = true := by
  have hmember : ∀ {left rest : Bytes} {m : Bytes × Json}, parseMember p left = .ok (m, rest) →
      m.2.bounded = true := by
    intro left rest m hm
    obtain ⟨-, t, -, -, hvalue⟩ := parseMember_read hm
    exact hp _ _ _ hvalue
  induction h with
  | close member _ => exact Json.bounded_object.mpr (forall_mem_concat hacc (hmember member))
  | comma member _ _ ih => exact ih (forall_mem_concat hacc (hmember member))

/-- **The reader makes no oversized array**, by induction on the levels still open. -/
theorem parseValue_bounded : ∀ (levels : Nat) (left : Bytes) (v : Json) (rest : Bytes),
    parseValue levels left = .ok (v, rest) → v.bounded = true := by
  intro levels
  induction levels with
  | zero => intro left v rest h; cases h
  | succ levels ih =>
    intro left v rest h
    have hread := parseValue_read h
    generalize skipWs left = s at hread
    cases hread with
    | object hmembers =>
      rcases parseObject_read hmembers with ⟨-, rfl⟩ | hmembers
      · rfl
      · exact hmembers.bounded ih fun a ha => absurd ha List.not_mem_nil
    | array hitems =>
      rcases parseArray_read hitems with ⟨-, rfl⟩ | hitems
      · rfl
      · exact hitems.bounded ih fun a ha => absurd ha List.not_mem_nil
    | string => rfl
    | literal hknown => rcases hknown with ⟨-, rfl⟩ | ⟨-, rfl⟩ | ⟨-, rfl⟩ <;> rfl
    | number _ hdigits =>
      obtain ⟨d, rfl⟩ := parseNumber_kind hdigits
      rfl

end Reader

theorem Built.bounded {v : Json} (h : Built v) : v.bounded = true := by
  induction h with
  | parsed h =>
    obtain ⟨rest, hparse⟩ := jsonParse_eq_ok h
    exact parseValue_bounded _ _ _ _ hparse
  | null | bool b | number d | string s | array | object => rfl
  | @append a v w _ _ hw ha hv =>
    cases a with
    | array items =>
      rw [jsonArrayAppend] at hw
      split at hw
      · exact nomatch hw
      · obtain ⟨-, hitems⟩ := Json.bounded_array.mp ha
        cases hw
        refine Json.bounded_array.mpr ⟨?_, ?_⟩
        · rw [List.length_append, List.length_singleton]
          omega
        · intro x hx
          rcases List.mem_append.mp hx with hx | hx
          · exact hitems x hx
          · rw [List.mem_singleton.mp hx]
            exact hv
    | _ => exact nomatch hw
  | @set o v w key _ _ hw ho hv =>
    cases o with
    | object members =>
      cases hw
      refine Json.bounded_object.mpr fun m hm => ?_
      rcases List.mem_append.mp hm with hm | hm
      · exact Json.bounded_object.mp ho m hm
      · rw [List.mem_singleton.mp hm]
        exact hv
    | _ => exact nomatch hw

/-- Appending one by one builds any array that is not too long. -/
theorem Built.of_items : ∀ items : List Json, items.length ≤ jsonMaxArrayItems →
    (∀ v ∈ items, Built v) → Built (.array items) := by
  intro items
  induction items using List.reverseRecOn with
  | nil => intro _ _; exact Built.array
  | append_singleton items v ih =>
    intro hlen h
    rw [List.length_append, List.length_singleton] at hlen
    refine Built.append (ih (by omega) fun w hw => h w (List.mem_append_left _ hw))
      (h v (List.mem_append_right _ List.mem_cons_self)) ?_
    rw [jsonArrayAppend, if_neg (by omega)]

theorem Built.of_members : ∀ members : List (Bytes × Json), (∀ m ∈ members, Built m.2) →
    Built (.object members) := by
  intro members
  induction members using List.reverseRecOn with
  | nil => intro _; exact Built.object
  | append_singleton members m ih =>
    intro h
    exact Built.set (ih fun w hw => h w (List.mem_append_left _ hw))
      (h m (List.mem_append_right _ List.mem_cons_self)) rfl

/-- **What can be built**: exactly the trees without an oversized array. -/
theorem built_iff (v : Json) : Built v ↔ v.bounded = true := by
  refine ⟨Built.bounded, ?_⟩
  induction v using Json.inductionOn with
  | null => exact fun _ => Built.null
  | bool b => exact fun _ => Built.bool b
  | number d => exact fun _ => Built.number d
  | string s => exact fun _ => Built.string s
  | array items ih =>
    intro h
    obtain ⟨hlen, hitems⟩ := Json.bounded_array.mp h
    exact Built.of_items items hlen fun v hv => ih v hv (hitems v hv)
  | object members ih =>
    intro h
    exact Built.of_members members fun m hm => ih m hm (Json.bounded_object.mp h m hm)

/-! ## The writer -/

/-- `mjson_writer`: the buffer is absent in a measuring pass, else what was stored in it so far. -/
structure MjsonWriter where
  buffer : Option Bytes
  capacity : Nat
  length : Nat
  truncated : Bool
  deriving DecidableEq, Repr

/-- The failures of the writer. -/
inductive MjsonError where
  | invalid
  | overflow
  | format
  deriving DecidableEq, Repr

/-- `mjson_writer_init` -/
def mjsonWriterInit (buffer : Option Bytes) (capacity : Nat) : MjsonWriter := ⟨buffer, capacity, 0, false⟩

/-- `mjson_write_raw`: counts everything, stores what fits. -/
def mjsonWriteRaw (w : MjsonWriter) (text : Bytes) : Except MjsonError MjsonWriter :=
  if sizeMax - w.length < text.length then .error .overflow
  else
    let remaining := w.capacity - w.length
    .ok { w with
      buffer := w.buffer.map (· ++ text.take remaining)
      truncated := w.truncated || (w.buffer.isSome && remaining < text.length)
      length := w.length + text.length }

/-- `mjson_write_cstr` -/
def mjsonWriteCstr (w : MjsonWriter) (text : String) : Except MjsonError MjsonWriter :=
  mjsonWriteRaw w (str text)

/-- What `mjson_write_string` writes for one byte. -/
def mjsonEscapeByte (b : UInt8) : Bytes :=
  if b = chr '"' ∨ b = chr '\\' then [chr '\\', b]
  else if b = chr '\n' then [chr '\\', chr 'n']
  else if b = chr '\r' then [chr '\\', chr 'r']
  else if b = chr '\t' then [chr '\\', chr 't']
  else if b < 0x20 then chr '\\' :: chr 'u' :: chr '0' :: chr '0' :: hexByte b
  else [b]

/-- `mjson_write_string` -/
def mjsonWriteString (w : MjsonWriter) (s : Bytes) : Except MjsonError MjsonWriter := do
  let w ← mjsonWriteRaw w [chr '"']
  let w ← s.foldlM (fun w b => mjsonWriteRaw w (mjsonEscapeByte b)) w
  mjsonWriteRaw w [chr '"']

/-- `mjson_write_number_double` -/
def mjsonWriteNumberDouble (w : MjsonWriter) (d : Double) : Except MjsonError MjsonWriter :=
  if 64 ≤ (formatGeneral17 d).length then .error .format else mjsonWriteRaw w (formatGeneral17 d)

/-- `json_emit_status` -/
def jsonEmitStatus (status : Except MjsonError MjsonWriter) : Res MjsonWriter :=
  match status with
  | .ok w => .ok w
  | .error .invalid => Status.invalidArgument "sc.json.serialize_invalid_argument"
  | .error .overflow => Status.noMemory
  | .error .format => Status.io "sc.json.serialize_number_failed"

/-- The comma before every child but the first (`i > 0`). -/
def jsonEmitComma (first : Bool) (w : MjsonWriter) : Res MjsonWriter :=
  if first then .ok w else jsonEmitStatus (mjsonWriteCstr w ",")

mutual

/-- `json_emit_value` -/
def jsonEmitValue : Json → MjsonWriter → Res MjsonWriter
  | .null, w => jsonEmitStatus (mjsonWriteCstr w "null")
  | .bool b, w => jsonEmitStatus (mjsonWriteCstr w (if b then "true" else "false"))
  | .number d, w => jsonEmitStatus (mjsonWriteNumberDouble w d)
  | .string s, w => jsonEmitStatus (mjsonWriteString w s)
  | .array items, w => do
      let w ← jsonEmitStatus (mjsonWriteCstr w "[")
      let w ← jsonEmitItems true items w
      jsonEmitStatus (mjsonWriteCstr w "]")
  | .object members, w => do
      let w ← jsonEmitStatus (mjsonWriteCstr w "\x7b")
      let w ← jsonEmitMembers true members w
      jsonEmitStatus (mjsonWriteCstr w "\x7d")

/-- The loop over an array; `first` is `i == 0`. -/
def jsonEmitItems : Bool → List Json → MjsonWriter → Res MjsonWriter
  | _, [], w => .ok w
  | first, v :: vs, w => do
      let w ← jsonEmitComma first w
      let w ← jsonEmitValue v w
      jsonEmitItems false vs w

/-- The loop over an object. -/
def jsonEmitMembers : Bool → List (Bytes × Json) → MjsonWriter → Res MjsonWriter
  | _, [], w => .ok w
  | first, (key, v) :: ms, w => do
      let w ← jsonEmitComma first w
      let w ← jsonEmitStatus (mjsonWriteString w key)
      let w ← jsonEmitStatus (mjsonWriteCstr w ":")
      let w ← jsonEmitValue v w
      jsonEmitMembers false ms w

end

/-- `sc_json_serialize` -/
def jsonSerialize (value : Json) : Res Bytes :=
  match jsonEmitValue value (mjsonWriterInit none 0) with
  | .error e => .error e
  | .ok measure =>
      if measure.length = sizeMax then Status.noMemory
      else
        match jsonEmitValue value (mjsonWriterInit (some []) measure.length) with
        | .error e => .error e
        | .ok writer =>
            if writer.truncated ∨ writer.length ≠ measure.length then
              Status.io "sc.json.serialize_size_mismatch"
            else .ok (writer.buffer.getD [])

/-! ## The text of a tree -/

mutual

/-- The RFC 8259 text of a tree, with nothing between the tokens. -/
def jsonText : Json → Bytes
  | .null => str "null"
  | .bool b => str (if b then "true" else "false")
  | .number d => formatGeneral17 d
  | .string s => quoted mjsonEscapeByte s
  | .array items => arrayText (jsonTexts items)
  | .object members => objectText mjsonEscapeByte (jsonMemberTexts members)

def jsonTexts : List Json → List Bytes
  | [] => []
  | v :: vs => jsonText v :: jsonTexts vs

def jsonMemberTexts : List (Bytes × Json) → List MemberText
  | [] => []
  | (key, v) :: ms => { key := key, text := jsonText v, value := v } :: jsonMemberTexts ms

end

theorem jsonTexts_eq (items : List Json) : jsonTexts items = items.map jsonText := by
  induction items with
  | nil => rfl
  | cons v vs ih => rw [jsonTexts, List.map_cons, ih]

theorem jsonMemberTexts_eq (members : List (Bytes × Json)) :
    jsonMemberTexts members = members.map fun m => ⟨m.1, jsonText m.2, m.2⟩ := by
  induction members with
  | nil => rfl
  | cons m ms ih => rw [jsonMemberTexts, List.map_cons, ih]

/-! ## Emitting is one write -/

/-- **Writes compose**: two writes after one another are one write of both texts, the overflow check
    included. -/
theorem mjsonWriteRaw_append (w : MjsonWriter) (a b : Bytes) :
    (mjsonWriteRaw w a >>= fun w => mjsonWriteRaw w b) = mjsonWriteRaw w (a ++ b) := by
  unfold mjsonWriteRaw
  rw [List.length_append]
  by_cases ha : sizeMax - w.length < a.length
  · rw [if_pos ha, if_pos (by omega)]
    rfl
  · rw [if_neg ha]
    show (if sizeMax - (w.length + a.length) < b.length then _ else _) = _
    by_cases hb : sizeMax - (w.length + a.length) < b.length
    · rw [if_pos hb, if_pos (by omega)]
    · rw [if_neg hb, if_neg (by omega)]
      have hbuffer : (w.buffer.map (· ++ a.take (w.capacity - w.length))).map
          (· ++ b.take (w.capacity - (w.length + a.length)))
          = w.buffer.map (· ++ (a ++ b).take (w.capacity - w.length)) := by
        rw [Option.map_map, List.take_append]
        congr 1
        funext s
        show s ++ _ ++ _ = _
        rw [List.append_assoc, Nat.sub_sub]
      have htruncated : decide (w.capacity - w.length < a.length + b.length)
          = (decide (w.capacity - w.length < a.length) ||
            decide (w.capacity - (w.length + a.length) < b.length)) := by
        rw [← Bool.decide_or]
        exact decide_eq_decide.mpr (by omega)
      simp only [hbuffer, Option.isSome_map, htruncated, Bool.and_or_distrib_left, Bool.or_assoc,
        Nat.add_assoc]

/-- Writing nothing changes nothing. -/
theorem mjsonWriteRaw_nil (w : MjsonWriter) : mjsonWriteRaw w [] = .ok w := by
  unfold mjsonWriteRaw
  rw [List.length_nil, if_neg (Nat.not_lt_zero _)]
  cases w with
  | mk buffer capacity length truncated => cases buffer <;> simp

/-- `f` writes `text`: it is one raw write, failing when that fails. -/
def Emits (f : MjsonWriter → Res MjsonWriter) (text : Bytes) : Prop :=
  ∀ w, f w = jsonEmitStatus (mjsonWriteRaw w text)

theorem Emits.raw (text : Bytes) : Emits (fun w => jsonEmitStatus (mjsonWriteRaw w text)) text :=
  fun _ => rfl

theorem Emits.skip : Emits (fun w => .ok w) [] := by
  intro w
  rw [mjsonWriteRaw_nil]
  rfl

/-- What writes one text and then another writes both. -/
theorem Emits.seq {f g : MjsonWriter → Res MjsonWriter} {a b : Bytes} (hf : Emits f a)
    (hg : Emits g b) : Emits (fun w => f w >>= g) (a ++ b) := by
  intro w
  show f w >>= g = _
  rw [hf w, ← mjsonWriteRaw_append]
  cases ha : mjsonWriteRaw w a with
  | error e => cases e <;> rfl
  | ok w' => exact hg w'

/-- The string writer is one write of the quoted text. -/
theorem mjsonWriteString_eq (w : MjsonWriter) (s : Bytes) :
    mjsonWriteString w s = mjsonWriteRaw w (quoted mjsonEscapeByte s) := by
  have hloop : ∀ (s : Bytes) (w : MjsonWriter),
      s.foldlM (fun w b => mjsonWriteRaw w (mjsonEscapeByte b)) w
        = mjsonWriteRaw w (s.flatMap mjsonEscapeByte) := by
    intro s
    induction s with
    | nil => intro w; exact (mjsonWriteRaw_nil w).symm
    | cons b s ih =>
      intro w
      rw [List.foldlM_cons, List.flatMap_cons, ← mjsonWriteRaw_append]
      congr 1
      funext w'
      exact ih w'
  have hquoted : quoted mjsonEscapeByte s
      = [chr '"'] ++ (s.flatMap mjsonEscapeByte ++ [chr '"']) := rfl
  rw [hquoted, ← mjsonWriteRaw_append, mjsonWriteString]
  congr 1
  funext w'
  rw [← mjsonWriteRaw_append, ← hloop]

theorem Emits.string (s : Bytes) :
    Emits (fun w => jsonEmitStatus (mjsonWriteString w s)) (quoted mjsonEscapeByte s) := by
  intro w
  show jsonEmitStatus (mjsonWriteString w s) = _
  rw [mjsonWriteString_eq]

/-- The comma before every piece but the first. -/
def leadingComma (first : Bool) : Bytes := if first then [] else [chr ',']

theorem Emits.comma (first : Bool) : Emits (jsonEmitComma first) (leadingComma first) := by
  cases first with
  | true => exact Emits.skip
  | false => exact Emits.raw [chr ',']

/-- Pieces, each behind its comma. -/
def joined (first : Bool) : List Bytes → Bytes
  | [] => []
  | t :: ts => leadingComma first ++ (t ++ joined false ts)

theorem joined_eq (ts : List Bytes) : joined true ts = commaSeparated ts := by
  have hcons : ∀ (ts : List Bytes) (t : Bytes), t ++ joined false ts = commaSeparated (t :: ts) := by
    intro ts
    induction ts with
    | nil => intro t; exact List.append_nil t
    | cons u us ih =>
      intro t
      rw [joined, ih u]
      rfl
  cases ts with
  | nil => rfl
  | cons t ts => exact hcons ts t

section Loops

/-- The loop over an array writes its items and their commas. -/
theorem emits_items : ∀ (items : List Json) (first : Bool),
    (∀ v ∈ items, Emits (jsonEmitValue v) (jsonText v)) →
    Emits (jsonEmitItems first items) (joined first (items.map jsonText)) := by
  intro items
  induction items with
  | nil => intro first _; exact Emits.skip
  | cons v vs ih =>
    intro first h
    have hv := h v List.mem_cons_self
    have hvs := ih false fun u hu => h u (List.mem_cons_of_mem v hu)
    exact (Emits.comma first).seq (hv.seq hvs)

theorem emits_members : ∀ (members : List (Bytes × Json)) (first : Bool),
    (∀ m ∈ members, Emits (jsonEmitValue m.2) (jsonText m.2)) →
    Emits (jsonEmitMembers first members)
      (joined first ((jsonMemberTexts members).map (·.render mjsonEscapeByte))) := by
  intro members
  induction members with
  | nil => intro first _; exact Emits.skip
  | cons m ms ih =>
    intro first h
    have hv := h m List.mem_cons_self
    have hms := ih false fun u hu => h u (List.mem_cons_of_mem m hu)
    have hall := (Emits.comma first).seq
      ((Emits.string m.1).seq ((Emits.raw [chr ':']).seq (hv.seq hms)))
    intro w
    -- key, colon and value are the member's text
    have htext : joined first ((jsonMemberTexts (m :: ms)).map (·.render mjsonEscapeByte))
        = leadingComma first ++ (quoted mjsonEscapeByte m.1 ++ ([chr ':'] ++ (jsonText m.2 ++
          joined false ((jsonMemberTexts ms).map (·.render mjsonEscapeByte))))) := by
      simp only [jsonMemberTexts, List.map_cons, joined, MemberText.render, List.append_assoc,
        List.cons_append, List.nil_append]
    rw [htext]
    exact hall w

end Loops

/-- **Emitting a tree is one write of its text**, whatever the writer: both passes of
    `sc_json_serialize` therefore see the same bytes. -/
theorem emit_text (v : Json) : Emits (jsonEmitValue v) (jsonText v) := by
  induction v using Json.inductionOn with
  | null => exact Emits.raw (str "null")
  | bool b => exact Emits.raw (str (if b then "true" else "false"))
  | number x =>
    intro w
    show jsonEmitStatus (mjsonWriteNumberDouble w x) = _
    rw [mjsonWriteNumberDouble, if_neg (Nat.not_le.mpr (formatGeneral17_length x))]
    rfl
  | string s => exact Emits.string s
  | array items ih =>
    have hitems := emits_items items true ih
    rw [joined_eq] at hitems
    have hall := (Emits.raw [chr '[']).seq (hitems.seq (Emits.raw [chr ']']))
    rw [jsonText, jsonTexts_eq]
    exact hall
  | object members ih =>
    have hmembers := emits_members members true ih
    rw [joined_eq] at hmembers
    exact (Emits.raw [chr '\x7b']).seq (hmembers.seq (Emits.raw [chr '\x7d']))

/-- **The serializer returns the text** of a tree, as long as `SIZE_MAX` bounds it. -/
theorem jsonSerialize_eq {v : Json} (hsize : (jsonText v).length < sizeMax) :
    jsonSerialize v = .ok (jsonText v) := by
  have hemit : ∀ w : MjsonWriter, w.length = 0 → jsonEmitValue v w = .ok { w with
      buffer := w.buffer.map (· ++ (jsonText v).take w.capacity)
      truncated := w.truncated || (w.buffer.isSome && w.capacity < (jsonText v).length)
      length := (jsonText v).length } := by
    intro w hw
    rw [emit_text v w, mjsonWriteRaw, hw, if_neg (by omega)]
    simp only [Nat.sub_zero, Nat.zero_add]
    rfl
  have hmeasure := hemit (mjsonWriterInit none 0) rfl
  have hwrite := hemit (mjsonWriterInit (some []) (jsonText v).length) rfl
  rw [jsonSerialize, hmeasure]
  dsimp only
  rw [if_neg (by omega), hwrite]
  simp [mjsonWriterInit]

/-- What the serializer returns is the text, and `SIZE_MAX` bounds it. -/
theorem jsonSerialize_eq_ok {v : Json} {text : Bytes} (h : jsonSerialize v = .ok text) :
    text = jsonText v ∧ (jsonText v).length < sizeMax := by
  by_cases hsize : (jsonText v).length < sizeMax
  · rw [jsonSerialize_eq hsize] at h
    exact ⟨(Except.ok.inj h).symm, hsize⟩
  · exfalso
    rw [jsonSerialize, emit_text v, mjsonWriteRaw] at h
    by_cases hover : sizeMax - (mjsonWriterInit none 0).length < (jsonText v).length
    · rw [if_pos hover] at h
      exact nomatch h
    · have hexact : (mjsonWriterInit none 0).length + (jsonText v).length = sizeMax := by
        show 0 + (jsonText v).length = sizeMax
        have hle : ¬ sizeMax - 0 < (jsonText v).length := hover
        omega
      rw [if_neg hover] at h
      dsimp only [jsonEmitStatus] at h
      rw [if_pos hexact] at h
      exact nomatch h

/-! ## Reading the text back -/

/-- **Every byte is read back**: as itself, behind a backslash, or as a code point. -/
theorem mjsonEscapeByte_escapes (b : UInt8) : EscapesTo mjsonEscapeByte b := by
  by_cases hquote : b = chr '"' ∨ b = chr '\\'
  · refine EscapesTo.simple (c := b) (if_pos hquote) ?_
    rcases hquote with rfl | rfl <;> decide
  · by_cases hn : b = chr '\n'
    · subst hn
      exact EscapesTo.simple rfl (by decide)
    · by_cases hr : b = chr '\r'
      · subst hr
        exact EscapesTo.simple rfl (by decide)
      · by_cases ht : b = chr '\t'
        · subst ht
          exact EscapesTo.simple rfl (by decide)
        · have hrest : mjsonEscapeByte b =
              if b < 0x20 then chr '\\' :: chr 'u' :: chr '0' :: chr '0' :: hexByte b else [b] := by
            rw [mjsonEscapeByte, if_neg hquote, if_neg hn, if_neg hr, if_neg ht]
          rw [not_or] at hquote
          by_cases hc : b < 0x20
          -- any other control byte is written as a code point
          · exact EscapesTo.control hc (by rw [hrest, if_pos hc])
          · exact EscapesTo.plain (by rw [hrest, if_neg hc]) hquote.1 hc hquote.2

theorem mjsonEscapeByte_ascii : ∀ b ≤ 0x7F, strIsValidUtf8 (mjsonEscapeByte b) = true := by
  apply byte_forall
  decide +kernel

theorem mjsonEscapeByte_other : ∀ b : UInt8, ¬ b ≤ 0x7F → mjsonEscapeByte b = [b] := by
  apply byte_forall
  decide +kernel

/-- A literal reads back, whatever follows it. -/
theorem parseLiteral_append (literal : Bytes) (value : Json) (rest : Bytes) :
    parseLiteral literal value (literal ++ rest) = .ok (value, rest) := by
  rw [parseLiteral, if_neg, List.drop_left]
  rw [List.length_append, List.take_left]
  rintro (h | h)
  · omega
  · exact h rfl

/-- The text of a value starts with neither a blank nor the bracket that would close an array. -/
theorem jsonText_head {v : Json} (h : v.isNumber = false) :
    ∃ c t, jsonText v = c :: t ∧ isWs c = false ∧ c ≠ chr ']' := by
  cases v with
  | null => exact ⟨chr 'n', _, rfl, by decide, by decide⟩
  | bool b =>
    cases b with
    | true => exact ⟨chr 't', _, rfl, by decide, by decide⟩
    | false => exact ⟨chr 'f', _, rfl, by decide, by decide⟩
  | number d => exact nomatch h
  | string s => exact ⟨chr '"', _, rfl, by decide, by decide⟩
  | array items => exact ⟨chr '[', _, rfl, by decide, by decide⟩
  | object members => exact ⟨chr '\x7b', _, rfl, by decide, by decide⟩

/-- The empty object reads back. -/
theorem parseValue_emptyObject (levels : Nat) (rest : Bytes) :
    parseValue (levels + 1) (chr '\x7b' :: chr '\x7d' :: rest) = .ok (.object [], rest) := by
  rw [parseValue, skipWs_cons (by decide)]
  refine (if_pos rfl).trans ?_
  rw [parseObject, skipWs_cons (by decide), consume_self]

/-- A literal is dispatched by its first byte. -/
theorem parseValue_scalar {v : Json} (levels : Nat) (rest : Bytes) (hv : v = .null ∨ ∃ b, v = .bool b) :
    parseValue (levels + 1) (jsonText v ++ rest) = .ok (v, rest) := by
  obtain ⟨c, t, ht, hws, -⟩ := jsonText_head (v := v) (by rcases hv with rfl | ⟨b, rfl⟩ <;> rfl)
  have hlit : ∀ literal value, literal = jsonText v → value = v →
      parseLiteral literal value (c :: (t ++ rest)) = .ok (v, rest) := by
    rintro literal value rfl rfl
    rw [← List.cons_append, ← ht]
    exact parseLiteral_append _ _ rest
  rw [ht, List.cons_append, parseValue, skipWs_cons hws]
  dsimp only
  rcases hv with rfl | ⟨b, rfl⟩
  · cases ht
    exact hlit (str "null") .null rfl rfl
  · cases b with
    | true => cases ht; exact hlit (str "true") (.bool true) rfl rfl
    | false => cases ht; exact hlit (str "false") (.bool false) rfl rfl

/-- A tree the reader may return inside `d` containers. -/
structure Json.Kept (d : Nat) (v : Json) : Prop where
  nodes : v.all Json.readNode d = true
  bounded : v.bounded = true

namespace Json.Kept

theorem item {d : Nat} {items : List Json} (h : (Json.array items).Kept d) {v : Json} (hv : v ∈ items) :
    v.Kept (d + 1) where
  nodes := (Json.all_array.mp h.nodes).2 v hv
  bounded := (Json.bounded_array.mp h.bounded).2 v hv

theorem member {d : Nat} {members : List (Bytes × Json)} (h : (Json.object members).Kept d)
    {m : Bytes × Json} (hm : m ∈ members) : m.2.Kept (d + 1) where
  nodes := (Json.all_object.mp h.nodes).2 m hm
  bounded := Json.bounded_object.mp h.bounded m hm

/-- What is asked of every node is asked of the root. -/
theorem root {d : Nat} {v : Json} (h : v.Kept d) :
    d ≤ jsonMaxDepth ∧ v.textsOk = true ∧ v.finiteOk = true := by
  have hnode : Json.readNode d v = true := by
    have hnodes := h.nodes
    cases v with
    | array items => exact (Json.all_array.mp hnodes).1
    | object members => exact (Json.all_object.mp hnodes).1
    | null | bool b | number x | string s => exact hnodes
  rw [Json.readNode, Bool.and_eq_true, Bool.and_eq_true, decide_eq_true_eq] at hnode
  exact ⟨hnode.1.1, hnode.1.2, hnode.2⟩

/-- The text of a value starts with neither a blank nor the bracket that would close an array. -/
theorem head {d : Nat} {v : Json} (h : v.Kept d) : ∃ c t, jsonText v = c :: t ∧ isWs c = false ∧ c ≠ chr ']' := by
  cases v with
  | number x =>
    obtain ⟨n, hbytes, hw, -⟩ := formatGeneral17_numeral h.root.2.2
    obtain ⟨c, t, hct, hc⟩ := numeral_head hw
    obtain ⟨hws, hclose, -⟩ := number_dispatch hc
    exact ⟨c, t, by rw [jsonText, ← hbytes, hct], hws, hclose⟩
  | null | bool b | string s | array items | object members => exact jsonText_head rfl

/-- The text of a tree is valid UTF-8. -/
theorem utf8 {v : Json} : ∀ {d : Nat}, v.Kept d → strIsValidUtf8 (jsonText v) = true := by
  have hquoted : ∀ {s}, strIsValidUtf8 s = true → strIsValidUtf8 (quoted mjsonEscapeByte s) = true :=
    fun hs => utf8_quoted mjsonEscapeByte_ascii mjsonEscapeByte_other hs
  induction v using Json.inductionOn with
  | null => intro d _; decide
  | bool b => intro d _; cases b <;> decide
  | number x => intro d h; exact utf8_ascii (formatGeneral17_ascii h.root.2.2)
  | string s => intro d h; exact hquoted h.root.2.1
  | array items ih =>
    intro d h
    rw [jsonText, jsonTexts_eq]
    refine utf8_arrayText fun t ht => ?_
    obtain ⟨v, hv, rfl⟩ := List.mem_map.mp ht
    exact ih v hv (h.item hv)
  | object members ih =>
    intro d h
    have hkeys := h.root.2.1
    rw [jsonText, jsonMemberTexts_eq]
    refine utf8_objectText fun t ht => ?_
    obtain ⟨m, hm, rfl⟩ := List.mem_map.mp ht
    exact ⟨hquoted (List.all_eq_true.mp hkeys m hm), ih m hm (h.member hm)⟩

/-- The reader may still open the tree itself. -/
theorem room {d levels : Nat} {v : Json} (h : v.Kept d) (hd : d + levels = jsonMaxDepth + 1) :
    ∃ left, levels = left + 1 := by
  have := h.root.1
  exact ⟨levels - 1, by omega⟩

end Json.Kept

/-- **The text of a tree reads back**, whatever follows that is not more of a number: `levels` counts the
    containers the reader may still open inside the `d` that stand around the tree. -/
theorem parseValue_exact (v : Json) : ∀ (d levels : Nat) (rest : Bytes), d + levels = jsonMaxDepth + 1 →
    v.Kept d → Stops goesOn rest → parseValue levels (jsonText v ++ rest) = .ok (v, rest) := by
  induction v using Json.inductionOn with
  | null =>
    intro d levels rest hd h _
    obtain ⟨left, rfl⟩ := h.room hd
    exact parseValue_scalar left rest (Or.inl rfl)
  | bool b =>
    intro d levels rest hd h _
    obtain ⟨left, rfl⟩ := h.room hd
    exact parseValue_scalar left rest (Or.inr ⟨b, rfl⟩)
  | number x =>
    intro d levels rest hd h hrest
    obtain ⟨left, rfl⟩ := h.room hd
    exact parseValue_formatGeneral17 h.root.2.2 left hrest
  | string s =>
    intro d levels rest hd h _
    obtain ⟨left, rfl⟩ := h.room hd
    have hstr := parseString_quoted (s := s) (fun b _ => mjsonEscapeByte_escapes b) rest
    show parseValue (left + 1) (chr '"' :: (s.flatMap mjsonEscapeByte ++ [chr '"'] ++ rest)) = _
    rw [parseValue, skipWs_cons (by decide)]
    refine (if_neg (by decide)).trans ((if_neg (by decide)).trans ((if_pos rfl).trans ?_))
    have happ : quoted mjsonEscapeByte s ++ rest
        = chr '"' :: (s.flatMap mjsonEscapeByte ++ [chr '"'] ++ rest) := rfl
    rw [happ] at hstr
    simp only [hstr]
  | array items ih =>
    intro d levels rest hd h _
    obtain ⟨left, rfl⟩ := h.room hd
    have hitems : ∀ t ∈ items.map fun v => (jsonText v, v), ReadsTo (parseValue left) t.1 t.2 := by
      intro t ht
      obtain ⟨v, hv, rfl⟩ := List.mem_map.mp ht
      exact ⟨(h.item hv).head, fun c rest hc =>
        ih v hv (d + 1) left (c :: rest) (by omega) (h.item hv) (stops_delimiter hc rest)⟩
    have hlen : (items.map fun v => (jsonText v, v)).length ≤ jsonMaxArrayItems := by
      rw [List.length_map]
      exact (Json.bounded_array.mp h.bounded).1
    have hread := parseValue_array hitems hlen rest
    rw [List.map_map, List.map_map] at hread
    have hsnd : items.map (Prod.snd ∘ fun v => (jsonText v, v)) = items := List.map_id items
    rw [hsnd] at hread
    rw [jsonText, jsonTexts_eq]
    exact hread
  | object members ih =>
    intro d levels rest hd h _
    obtain ⟨left, rfl⟩ := h.room hd
    cases members with
    | nil => exact parseValue_emptyObject left rest
    | cons m ms =>
      have hmembers : ∀ t ∈ jsonMemberTexts (m :: ms), t.Reads mjsonEscapeByte (parseValue left) := by
        intro t ht
        rw [jsonMemberTexts_eq] at ht
        obtain ⟨n, hn, rfl⟩ := List.mem_map.mp ht
        refine ⟨fun b _ => mjsonEscapeByte_escapes b, (h.member hn).head, ?_⟩
        exact fun c rest hc => ih n hn (d + 1) left (c :: rest) (by omega) (h.member hn) (stops_delimiter hc rest)
      have hne : jsonMemberTexts (m :: ms) ≠ [] := List.cons_ne_nil _ _
      have hread := parseValue_object hne hmembers rest
      have hsame : (jsonMemberTexts (m :: ms)).map (fun t => (t.key, t.value)) = m :: ms := by
        rw [jsonMemberTexts_eq, List.map_map]
        exact List.map_id _
      rw [hsame] at hread
      exact hread

/-- The reader takes the text of a tree it could have returned for that tree. -/
theorem jsonParse_exact {v : Json} (h : v.Kept 0) : jsonParse (jsonText v) = .ok v := by
  obtain ⟨c, t, hc, hws, -⟩ := h.head
  have hskip : skipWs (jsonText v) = jsonText v := by rw [hc, skipWs_cons hws]
  have hread := parseValue_exact v 0 (jsonMaxDepth + 1) [] (Nat.zero_add _) h fun c hc => by cases hc
  rw [List.append_nil] at hread
  rw [jsonParse, h.utf8, hskip, hread]
  rfl

/-- A tree the round trip is about, seen from inside `d` containers. -/
structure Json.Writable (d : Nat) (v : Json) : Prop where
  noNumbers : v.all (fun _ u => !u.isNumber) d = true
  depth : v.all (fun d _ => d ≤ jsonMaxDepth) d = true
  bounded : v.bounded = true

/-- The reader takes the text of a writable tree for that tree. -/
theorem jsonParse_text {v : Json} (h : v.Writable 0) (ht : v.validTexts = true) :
    jsonParse (jsonText v) = .ok v := by
  have htexts : v.all (fun d u => d ≤ jsonMaxDepth && u.textsOk) 0 = true :=
    Json.all_and (fun _ _ hd hu => Bool.and_eq_true_iff.mpr ⟨hd, hu⟩) v 0 h.depth ht
  refine jsonParse_exact ⟨Json.all_and (fun d u hu hnumber => ?_) v 0 htexts h.noNumbers, h.bounded⟩
  -- a node that is no number is finite
  have hfinite : u.finiteOk = true := by
    cases u with
    | number x => cases hnumber
    | null | bool b | string s | array items | object members => rfl
  exact Bool.and_eq_true_iff.mpr ⟨hu, hfinite⟩

/-- **JSON values survive serialization**: a built tree without numbers, with valid texts and no deeper
    than the reader goes, serializes (unless `SIZE_MAX` bytes do not hold its text: the one failure of
    `mjson_write_raw`), and what the reader makes of the output is the tree itself, so that every key
    is looked up alike in the copy. -/
theorem serialize_roundtrip {v : Json} (hbuilt : Built v) (htexts : v.validTexts = true)
    (hdepth : v.withinDepth = true) (hnumbers : v.noNumbers = true)
    (hsize : (jsonText v).length < sizeMax) :
    ∃ text copy, jsonSerialize v = .ok text ∧ jsonParse text = .ok copy ∧ copy = v ∧
      ∀ key, copy.objectGet key = v.objectGet key := by
  have hwritable : v.Writable 0 := ⟨hnumbers, hdepth, hbuilt.bounded⟩
  exact ⟨jsonText v, v, jsonSerialize_eq hsize, jsonParse_text hwritable htexts, rfl,
    fun _ => rfl⟩

/-- A tree with a duplicate key, an empty key, empty containers and an embedded NUL. -/
def awkwardTree : Json :=
  .object [(str "a", .string [0, chr '"', 10]), ([], .array []), (str "a", .array [.object [], .null])]

/-- The round trip of that tree. -/
theorem serialize_roundtrip_awkward :
    ∃ text copy, jsonSerialize awkwardTree = .ok text ∧ jsonParse text = .ok copy ∧
      copy = awkwardTree ∧ ∀ key, copy.objectGet key = awkwardTree.objectGet key :=
  serialize_roundtrip ((built_iff awkwardTree).mpr (by decide)) (by decide) (by decide) (by decide)
    (by decide)

end SmolClaw
