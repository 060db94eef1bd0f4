/-
  What the texts of JSON-RPC answers say.

  1. **Members** — an answer is an object of three members: version, id, and result or error
     (`appendJsonrpcResult_eq`, `appendJsonrpcError_eq`).  When id and text need no escape that the
     writer leaves out, it reads back member by member.

  2. **Scales** — when one of them does need such an escape, the answer weighs too little for what it
     should say (`Json.Weight`): whatever the reader makes of it, it is not that.  So both directions are
     EXACT (`result_echoes_iff`, `error_echoes_iff`).

  3. **Routed text** — the constant texts of the gateway need no escape.  What does reach an answer from
     outside is the agent's output, a configuration value, the names of the sessions, and a stored body
     (`outsideText`).
-/
import Mathlib.Data.List.Find
import SmolClaw.Json.Numbers
import SmolClaw.Gateway.Authority
import SmolClaw.Gateway.Replay

namespace SmolClaw.Gateway

open Lib.Run

/-! ## Answers that say what they should -/

/-- The id of the answer: the same string or integer, `null` for everything else. -/
def echoedId : Option Json → Json
  | some (.string s) => .string s
  | some (.number d) => if d.isSafeInteger then .number d else .null
  | _ => .null

/-- The text an answer gives: its result, or the message of its error. -/
def answerText (successful : Bool) (answer : Json) : Option Bytes :=
  if successful then Json.asStr (answer.objectGet (str "result"))
  else Json.asStr ((answer.objectGet (str "error")).bind (·.objectGet (str "message")))

/-- `out` is an object with the id of the request, and `text` is its result or its error message. -/
inductive Echoes (id : Option Json) (successful : Bool) (text out : Bytes) : Prop
  | intro (members : List (Bytes × Json)) (hparse : jsonParse out = .ok (.object members))
      (hid : Json.objectGet (.object members) (str "id") = some (echoedId id))
      (htext : answerText successful (.object members) = some text)

/-- A text that a JSON string may hold as it is. -/
def isPlainText (s : Bytes) : Bool := strIsValidUtf8 s && s.all isPlainByte

/-- An id that may be written as it is: a string without quotes, backslashes and control bytes, or no
    number that `%.0f` changes. -/
def isPlainId : Option Json → Bool
  | some (.string s) => isPlainText s
  | some (.number d) => d.isSafeInteger
  | _ => true

/-- A control byte other than LF. -/
def isBareControl (b : UInt8) : Bool := b < 0x20 && b != chr '\n'

/-- A result that quotes, backslashes and LF are the only bytes to escape of. -/
def isPlainResult (s : Bytes) : Bool := strIsValidUtf8 s && s.all (!isBareControl ·)

/-! ## Answers, member by member -/

def versionMember : MemberText :=
  ⟨str "jsonrpc", quoted escapeResultByte (str "2.0"), .string (str "2.0")⟩

def idMember (id : Option Json) : MemberText := ⟨str "id", jsonrpcIdToString id, echoedId id⟩

def resultMember (text : Bytes) : MemberText :=
  ⟨str "result", quoted escapeResultByte text, .string text⟩

/-- The double a code is read as. -/
def codeDouble (code : Int) : Double := decimalDouble (decide (code < 0)) code.natAbs 0

def codeMember (code : Int) : MemberText := ⟨str "code", decimalInt code, .number (codeDouble code)⟩

def messageMember (message : Bytes) : MemberText :=
  ⟨str "message", quoted (fun b => [b]) message, .string message⟩

def errorMember (code : Int) (message : Bytes) : MemberText :=
  ⟨str "error", objectText escapeResultByte [codeMember code, messageMember message],
    .object [(str "code", .number (codeDouble code)), (str "message", .string message)]⟩

theorem quoted_self (s : Bytes) : quoted (fun b => [b]) s = chr '"' :: (s ++ [chr '"']) := by
  rw [quoted, List.flatMap_singleton']

/-- The constant stretches of an answer. -/
theorem answer_stretches :
    str "\x7b\"jsonrpc\":\"2.0\",\"id\":" = chr '\x7b' :: (versionMember.render escapeResultByte ++
      chr ',' :: (quoted escapeResultByte (str "id") ++ [chr ':'])) ∧
    str ",\"result\":\"" =
      chr ',' :: (quoted escapeResultByte (str "result") ++ [chr ':', chr '"']) ∧
    str "\"\x7d" = [chr '"', chr '}'] ∧
    str ",\"error\":\x7b\"code\":" = chr ',' :: (quoted escapeResultByte (str "error") ++
      chr ':' :: chr '\x7b' :: (quoted escapeResultByte (str "code") ++ [chr ':'])) ∧
    str ",\"message\":\"" =
      chr ',' :: (quoted escapeResultByte (str "message") ++ [chr ':', chr '"']) ∧
    str "\"\x7d\x7d" = [chr '"', chr '}', chr '}'] := by decide

/-- A success is written as three members. -/
theorem appendJsonrpcResult_eq (id : Option Json) (text : Bytes) : appendJsonrpcResult id text =
    objectText escapeResultByte [versionMember, idMember id, resultMember text] := by
  obtain ⟨hfront, hmiddle, hend, -⟩ := answer_stretches
  have htext : quoted escapeResultByte text = chr '"' :: (text.flatMap escapeResultByte ++ [chr '"']) := rfl
  rw [appendJsonrpcResult, hfront, hmiddle, hend]
  simp only [objectText, List.map_cons, List.map_nil, commaSeparated, List.append_assoc, List.cons_append,
    List.nil_append, MemberText.render, idMember, resultMember, htext]

/-- The result stands between quotes. -/
theorem appendJsonrpcResult_text (id : Option Json) (text : Bytes) : ∃ front,
    appendJsonrpcResult id text =
      front ++ chr '"' :: (text.flatMap escapeResultByte ++ chr '"' :: [chr '}']) := by
  obtain ⟨-, hmiddle, hend, -⟩ := answer_stretches
  refine ⟨str "\x7b\"jsonrpc\":\"2.0\",\"id\":" ++ (jsonrpcIdToString id ++
    chr ',' :: (quoted escapeResultByte (str "result") ++ [chr ':'])), ?_⟩
  rw [appendJsonrpcResult, hmiddle, hend]
  simp only [List.append_assoc, List.nil_append, List.cons_append]

/-- And so is an error. -/
theorem appendJsonrpcError_eq (id : Option Json) (code : Int) (message : Bytes) :
    appendJsonrpcError id code message =
      objectText escapeResultByte [versionMember, idMember id, errorMember code message] := by
  obtain ⟨hfront, -, -, hcode, hmessage, hend⟩ := answer_stretches
  rw [appendJsonrpcError, hfront, hcode, hmessage, hend]
  simp only [objectText, List.map_cons, List.map_nil, commaSeparated, List.append_assoc, List.cons_append,
    List.nil_append, MemberText.render, idMember, errorMember, codeMember, messageMember, quoted_self]

/-! ## Plain texts read back -/

/-- A byte of a plain text stands for itself. -/
theorem escapesTo_self {b : UInt8} (h : isPlainByte b = true) : EscapesTo (fun b => [b]) b := by
  simp only [isPlainByte, Bool.and_eq_true, bne_iff_ne, Bool.not_eq_true', decide_eq_false_iff_not] at h
  exact .plain rfl h.1.2 h.2 h.1.1

/-- A byte of a plain result reads back. -/
theorem escapesTo_result {b : UInt8} (h : isBareControl b = false) : EscapesTo escapeResultByte b := by
  by_cases hquote : b = chr '"' ∨ b = chr '\\'
  · refine .simple (c := b) (if_pos hquote) ?_
    rcases hquote with rfl | rfl <;> decide
  by_cases hline : b = chr '\n'
  · refine .simple (c := chr 'n') ?_ ?_
    · rw [hline]
      decide
    · rw [hline]
      decide
  · have hcontrol : ¬ b < 0x20 := by
      intro hlt
      rw [isBareControl, decide_eq_true hlt, Bool.true_and, bne_eq_false_iff_eq] at h
      exact hline h
    have hself : escapeResultByte b = [b] := (if_neg hquote).trans (if_neg hline)
    exact .plain hself (fun h => hquote (.inl h)) hcontrol (fun h => hquote (.inr h))

/-- The keys of an answer, and its version. -/
def answerKeys : List Bytes :=
  [str "jsonrpc", str "2.0", str "id", str "result", str "error", str "code", str "message"]

/-- They need no escape, are valid, and weigh what they cost. -/
theorem answerKeys_plain : ∀ key ∈ answerKeys, key.all (!isBareControl ·) = true ∧
    strIsValidUtf8 (quoted escapeResultByte key) = true ∧
    textWeight (key.flatMap escapeResultByte) = textCost key := by decide +kernel

/-- The keys looked up are different ones. -/
theorem answerKeys_ne : str "jsonrpc" ≠ str "id" ∧ (str "result" ≠ str "id" ∧ str "result" ≠ str "jsonrpc") ∧
    (str "error" ≠ str "id" ∧ str "error" ≠ str "jsonrpc") ∧ str "code" ≠ str "message" := by decide

/-- What `jsonrpc_id_to_string` writes for anything else. -/
theorem null_text : textWeight (str "null") = 259 ∧ strIsValidUtf8 (str "null") = true ∧
    textCost (str "id") = 2 ∧ textCost (str "code") = 4 := by decide

theorem escapesTo_text {text : Bytes} (h : text.all (!isBareControl ·) = true) :
    ∀ b ∈ text, EscapesTo escapeResultByte b := by
  intro b hb
  exact escapesTo_result (by simpa using List.all_eq_true.mp h b hb)

theorem escapesTo_key {key : Bytes} (h : key ∈ answerKeys) : ∀ b ∈ key, EscapesTo escapeResultByte b :=
  escapesTo_text (answerKeys_plain key h).1

theorem utf8_key {key : Bytes} (h : key ∈ answerKeys) :
    strIsValidUtf8 (quoted escapeResultByte key) = true := (answerKeys_plain key h).2.1

theorem textWeight_key {key : Bytes} (h : key ∈ answerKeys) :
    textWeight (key.flatMap escapeResultByte) = textCost key := (answerKeys_plain key h).2.2

/-- The byte-wise facts about the escapes of a result. -/
theorem escapeResultByte_byte (b : UInt8) :
    textWeight (escapeResultByte b) ≤ byteCost b ∧
    (isBareControl b = true → textWeight (escapeResultByte b) + 256 ≤ byteCost b) ∧
    (b ≤ 0x7F → strIsValidUtf8 (escapeResultByte b) = true) ∧
    (escapeResultByte b = [b] ∨
      (b ≤ 0x7F ∧ escapeResultByte b ≠ [] ∧ (escapeResultByte b).all (· ≤ 0x7F) = true)) := by
  revert b
  apply byte_forall
  decide +kernel

theorem versionMember_reads (levels : Nat) :
    versionMember.Reads escapeResultByte (parseValue (levels + 1)) where
  key := escapesTo_key (show str "jsonrpc" ∈ answerKeys by simp [answerKeys])
  value := .quoted (escapesTo_key (show str "2.0" ∈ answerKeys by simp [answerKeys])) levels

/-- A plain id reads back as itself, everything that is no string or number as `null`. -/
theorem idMember_reads {id : Option Json} (h : isPlainId id = true) (levels : Nat) :
    (idMember id).Reads escapeResultByte (parseValue (levels + 1)) where
  key := escapesTo_key (show str "id" ∈ answerKeys by simp [answerKeys])
  value := by
    have hnull : ReadsTo (parseValue (levels + 1)) (str "null") .null :=
      ⟨⟨chr 'n', str "ull", rfl, by decide, by decide⟩, fun c rest _ => rfl⟩
    rcases id with - | v
    · exact hnull
    cases v with
    | string s =>
      rw [isPlainId, isPlainText, Bool.and_eq_true] at h
      have hs : ReadsTo (parseValue (levels + 1)) (quoted (fun b => [b]) s) (.string s) :=
        .quoted (fun b hb => escapesTo_self (List.all_eq_true.mp h.2 b hb)) levels
      rwa [quoted_self] at hs
    | number d =>
      have hd : d.isSafeInteger = true := h
      obtain ⟨htext, hlt⟩ := formatFixed0_safe hd
      have hfinite : d.isFinite = true := by
        rw [Double.isSafeInteger, Bool.and_eq_true, Bool.and_eq_true] at hd
        exact hd.1.1
      have hlen : (decimal d.wholePart).length ≤ 16 :=
        decimal_length_le 15 _ (Nat.lt_of_lt_of_le hlt (by decide))
      have hread := strtod_formatFixed0 hd
      have hsign : (if d.negative then str "-" else []).length ≤ 1 := by cases d.negative <;> decide
      have htake : (formatFixed0 d).take 63 = formatFixed0 d := by
        apply List.take_of_length_le
        rw [htext, List.length_append]
        omega
      show ReadsTo _ ((formatFixed0 d).take 63) (if d.isSafeInteger then .number d else .null)
      rw [htake, if_pos hd, htext]
      rw [htext] at hread
      exact .integer hread hfinite (by omega) levels
    | null | bool | array | object => exact hnull

theorem resultMember_reads {text : Bytes} (h : text.all (!isBareControl ·) = true) (levels : Nat) :
    (resultMember text).Reads escapeResultByte (parseValue (levels + 1)) where
  key := escapesTo_key (show str "result" ∈ answerKeys by simp [answerKeys])
  value := .quoted (escapesTo_text h) levels

theorem decimalInt_eq (code : Int) :
    decimalInt code = (if decide (code < 0) then str "-" else []) ++ decimal code.natAbs := by
  by_cases h : code < 0
  · rw [decimalInt, if_pos h, decide_eq_true h]
    rfl
  · rw [decimalInt, if_neg h, decide_eq_false h]
    rfl

/-- A code and a plain message read back. -/
theorem errorMember_reads {code : Int} (hcode : code.natAbs < 10 ^ 6) {message : Bytes}
    (hmessage : message.all isPlainByte = true) (levels : Nat) :
    (errorMember code message).Reads escapeResultByte (parseValue (levels + 2)) where
  key := escapesTo_key (show str "error" ∈ answerKeys by simp [answerKeys])
  value := by
    have hnumber : ReadsTo (parseValue (levels + 1)) (decimalInt code) (.number (codeDouble code)) := by
      rw [decimalInt_eq]
      have hlen := decimal_length_le 5 _ hcode
      exact .integer (strtod_digits _ _) (decimalDouble_finite _ (by omega)) (by omega) levels
    show ReadsTo _ (objectText escapeResultByte [codeMember code, messageMember message])
      (.object ([codeMember code, messageMember message].map fun m => (m.key, m.value)))
    refine .object (List.cons_ne_nil _ _) ?_
    intro m hm
    rcases List.mem_cons.mp hm with rfl | hm
    · exact ⟨escapesTo_key (show str "code" ∈ answerKeys by simp [answerKeys]), hnumber⟩
    · obtain rfl := List.mem_singleton.mp hm
      exact ⟨escapesTo_key (show str "message" ∈ answerKeys by simp [answerKeys]),
        .quoted (fun b hb => escapesTo_self (List.all_eq_true.mp hmessage b hb)) levels⟩

/-! ## The scales -/

/-- The cost of what an answer should say, one object in another. -/
abbrev answerCost : Json → Nat := objectCost scalarCost

/-- **An answer is paid for**: id and field, as they are read, cost no more than was written. -/
theorem answer_scales {id : Option Json} {field : MemberText} {members : List (Bytes × Json)} {v w : Json}
    (hparse : jsonParse (objectText escapeResultByte [versionMember, idMember id, field]) =
      .ok (.object members))
    (hid : Json.objectGet (.object members) (str "id") = some v)
    (hfield : Json.objectGet (.object members) field.key = some w) (hkey : field.key ≠ str "id")
    (hversion : field.key ≠ str "jsonrpc") :
    memberCost answerCost (str "id", v) + memberCost answerCost (field.key, w) ≤
      (idMember id).weight escapeResultByte + field.weight escapeResultByte := by
  obtain ⟨more, hmembers, hweight⟩ := jsonParse_weight (versionMember_reads 63) hparse
  obtain rfl := Json.object.inj hmembers
  have hbehind : ∀ {key : Bytes} {u : Json}, key ≠ str "jsonrpc" →
      (key, u) ∈ (versionMember.key, versionMember.value) :: more → (key, u) ∈ more := by
    intro key u hne hmem
    rcases List.mem_cons.mp hmem with h | h
    · exact absurd (Prod.mk.inj h).1 hne
    · exact h
  have hidmem := hbehind answerKeys_ne.1.symm (mem_of_objectGet hid)
  have hfieldmem := hbehind hversion (mem_of_objectGet hfield)
  have hne : (str "id", v) ≠ (field.key, w) := fun h => hkey (Prod.mk.inj h).1.symm
  have hboth := memberCost_add_le (c := answerCost) hidmem hfieldmem hne
  simp only [List.map_cons, List.map_nil, List.sum_cons, List.sum_nil, Nat.add_zero] at hweight
  exact hboth.trans hweight

/-- A string weighs at most what it costs, and 256 less when it is not plain. -/
theorem plain_weight (s : Bytes) : textWeight s ≤ textCost s ∧
    (s.all isPlainByte = false → textWeight s + 256 ≤ textCost s) := by
  have hle : ∀ b, textWeight [b] ≤ byteCost b := byteWeight_le_cost
  have hbad : ∀ b, isPlainByte b = false → textWeight [b] + 256 ≤ byteCost b := fun b => byteCost_escaped
  have hself : s.flatMap (fun b => [b]) = s := List.flatMap_singleton' s
  have hall := textWeight_flatMap_le hle s
  rw [hself] at hall
  refine ⟨hall, fun h => ?_⟩
  have hlt := textWeight_flatMap_lt hle hbad h
  rwa [hself] at hlt

/-- The same of a result, as it is escaped. -/
theorem result_weight (s : Bytes) : textWeight (s.flatMap escapeResultByte) ≤ textCost s ∧
    (s.all (!isBareControl ·) = false → textWeight (s.flatMap escapeResultByte) + 256 ≤ textCost s) := by
  refine ⟨textWeight_flatMap_le (fun b => (escapeResultByte_byte b).1) s, fun h => ?_⟩
  refine textWeight_flatMap_lt (fun b => (escapeResultByte_byte b).1) (fun b hb => ?_) h
  exact (escapeResultByte_byte b).2.1 (by simpa using hb)

/-- A minus, or nothing. -/
theorem minus_byte (neg : Bool) : ∀ c ∈ (if neg then str "-" else []), byteWeight c = 1 ∧ c ≤ 0x7F := by
  intro c hc
  cases neg with
  | false => exact absurd hc List.not_mem_nil
  | true =>
    have hminus : str "-" = [chr '-'] := rfl
    rw [if_pos rfl, hminus] at hc
    rw [List.mem_singleton.mp hc]
    decide

/-- The names of what is no number. -/
theorem nan_inf_light : ∀ c ∈ str "nan" ++ str "inf", byteWeight c = 1 := by
  intro c hc
  have hall : (str "nan" ++ str "inf").all (byteWeight · == 1) = true := by decide
  exact beq_iff_eq.mp (List.all_eq_true.mp hall c hc)

/-- The bytes `%.0f` prints are light. -/
theorem formatFixed0_light (d : Double) : ∀ c ∈ formatFixed0 d, byteWeight c = 1 := by
  have happ : ∀ {t : Bytes}, (∀ c ∈ t, byteWeight c = 1) →
      ∀ c ∈ (if d.negative then str "-" else []) ++ t, byteWeight c = 1 := by
    intro t ht c hc
    rcases List.mem_append.mp hc with hc | hc
    · exact (minus_byte _ c hc).1
    · exact ht c hc
  rw [formatFixed0]
  by_cases hnan : d.isNaN = true
  · rw [if_pos hnan]
    exact happ fun c hc => nan_inf_light c (List.mem_append_left _ hc)
  rw [if_neg hnan]
  by_cases hinf : (!d.isFinite) = true
  · rw [if_pos hinf]
    exact happ fun c hc => nan_inf_light c (List.mem_append_right _ hc)
  · rw [if_neg hinf]
    exact happ fun c hc => isDigit_light (decimal_isDigit _ c hc)

/-- The bytes of an id that needs no escape. -/
def isPlainIdBytes : Option Json → Bool
  | some (.string s) => s.all isPlainByte
  | id => isPlainId id

/-- **The id on the scales**: never much too heavy, and too light when it is not plain. -/
theorem idMember_weight (id : Option Json) :
    (idMember id).weight escapeResultByte ≤ memberCost answerCost (str "id", echoedId id) + 63 ∧
      (isPlainIdBytes id = false → (idMember id).weight escapeResultByte + 128 ≤
        memberCost answerCost (str "id", echoedId id)) := by
  obtain ⟨hnull, -, hcost, -⟩ := null_text
  have hkey : textWeight ((str "id").flatMap escapeResultByte) = 2 := by
    rw [textWeight_key (by simp [answerKeys]), hcost]
  have hweight : (idMember id).weight escapeResultByte = 6 + textWeight (jsonrpcIdToString id) := by
    show textWeight ((str "id").flatMap escapeResultByte) + 3 + textWeight (jsonrpcIdToString id) + 1 = _
    rw [hkey]
    omega
  have hmember : memberCost answerCost (str "id", echoedId id) = 6 + answerCost (echoedId id) := by
    show textCost (str "id") + 3 + answerCost (echoedId id) + 1 = _
    rw [hcost]
    omega
  rw [hweight, hmember]
  have hself : jsonrpcIdToString id = str "null" → echoedId id = .null → isPlainIdBytes id = true →
      6 + textWeight (jsonrpcIdToString id) ≤ 6 + answerCost (echoedId id) + 63 ∧
        (isPlainIdBytes id = false → 6 + textWeight (jsonrpcIdToString id) + 128 ≤
          6 + answerCost (echoedId id)) := by
    intro htext hvalue hplain
    rw [htext, hvalue, hplain]
    exact ⟨Nat.le_add_right _ 63, fun h => nomatch h⟩
  rcases id with - | v
  · exact hself rfl rfl rfl
  cases v with
  | null | bool | array | object => exact hself rfl rfl rfl
  | string s =>
    have hquote : byteWeight (chr '"') = 1 := by decide
    have htext : textWeight (jsonrpcIdToString (some (.string s))) = textWeight s + 2 := by
      show textWeight (chr '"' :: (s ++ [chr '"'])) = _
      simp only [textWeight_cons, textWeight_append, textWeight_nil, hquote]
      omega
    have hvalue : answerCost (echoedId (some (.string s))) = textCost s + 2 := rfl
    obtain ⟨hle, hlt⟩ := plain_weight s
    rw [htext, hvalue]
    refine ⟨by omega, fun h => ?_⟩
    have := hlt h
    omega
  | number d =>
    have htext : textWeight (jsonrpcIdToString (some (.number d))) ≤ 63 := by
      show textWeight ((formatFixed0 d).take 63) ≤ 63
      rw [textWeight_light fun c hc => formatFixed0_light d c (List.mem_of_mem_take hc)]
      exact List.length_take_le 63 _
    refine ⟨by omega, fun h => ?_⟩
    have hinexact : d.isSafeInteger = false := h
    have hvalue : echoedId (some (.number d)) = .null := by
      show (if d.isSafeInteger then Json.number d else .null) = _
      rw [hinexact]
      rfl
    rw [hvalue]
    show 6 + _ + 128 ≤ 6 + textWeight (str "null")
    omega

theorem resultMember_weight (text : Bytes) :
    (resultMember text).weight escapeResultByte ≤ memberCost answerCost (str "result", .string text) ∧
      (text.all (!isBareControl ·) = false → (resultMember text).weight escapeResultByte + 256 ≤
        memberCost answerCost (str "result", .string text)) := by
  have hkey : textWeight ((str "result").flatMap escapeResultByte) = textCost (str "result") :=
    textWeight_key (by simp [answerKeys])
  have hweight : (resultMember text).weight escapeResultByte =
      textCost (str "result") + 3 + (textWeight (text.flatMap escapeResultByte) + 2) + 1 := by
    show textWeight ((str "result").flatMap escapeResultByte) + 3 +
      textWeight (quoted escapeResultByte text) + 1 = _
    rw [hkey, textWeight_quoted]
  have hcost : memberCost answerCost (str "result", .string text) =
      textCost (str "result") + 3 + (textCost text + 2) + 1 := rfl
  obtain ⟨hle, hlt⟩ := result_weight text
  rw [hweight, hcost]
  refine ⟨by omega, fun h => ?_⟩
  have := hlt h
  omega

/-- An error weighs little more than its message costs: the code is short. -/
theorem errorMember_weight {code : Int} (hcode : code.natAbs < 10 ^ 6) {message : Bytes} {w : Json}
    (hmessage : Json.objectGet w (str "message") = some (.string message)) :
    (errorMember code message).weight escapeResultByte ≤ memberCost answerCost (str "error", w) + 63 := by
  obtain ⟨es, rfl⟩ : ∃ es, w = .object es := by
    cases w with
    | object es => exact ⟨es, rfl⟩
    | null | bool | number | string | array => exact nomatch hmessage
  have hmember := memberCost_le (c := scalarCost) (mem_of_objectGet hmessage)
  have hcost : memberCost answerCost (str "error", .object es) =
      textCost (str "error") + 3 + (1 + (es.map (memberCost scalarCost)).sum) + 1 := rfl
  have hone : memberCost scalarCost (str "message", .string message) =
      textCost (str "message") + 3 + (textCost message + 2) + 1 := rfl
  have hkeys : textWeight ((str "error").flatMap escapeResultByte) = textCost (str "error") ∧
      textWeight ((str "message").flatMap escapeResultByte) = textCost (str "message") ∧
      textWeight ((str "code").flatMap escapeResultByte) = 4 :=
    ⟨textWeight_key (by simp [answerKeys]), textWeight_key (by simp [answerKeys]), by
      rw [textWeight_key (by simp [answerKeys]), null_text.2.2.2]⟩
  have hnumber : textWeight (decimalInt code) ≤ 7 := by
    have hlight : ∀ c ∈ decimalInt code, byteWeight c = 1 := by
      intro c hc
      rw [decimalInt_eq] at hc
      rcases List.mem_append.mp hc with hc | hc
      · exact (minus_byte _ c hc).1
      · exact isDigit_light (decimal_isDigit _ c hc)
    have hlen := decimal_length_le 5 _ hcode
    have hsign : (if decide (code < 0) then str "-" else []).length ≤ 1 := by
      cases decide (code < 0) <;> decide
    rw [textWeight_light hlight, decimalInt_eq, List.length_append]
    omega
  have hweight : (errorMember code message).weight escapeResultByte =
      textCost (str "error") + 3 + (1 + ((4 + 3 + textWeight (decimalInt code) + 1) +
        (textCost (str "message") + 3 + (textWeight message + 2) + 1))) + 1 := by
    show textWeight ((str "error").flatMap escapeResultByte) + 3 +
      textWeight (objectText escapeResultByte [codeMember code, messageMember message]) + 1 = _
    rw [textWeight_object]
    show _ + 3 + (1 + ((textWeight ((str "code").flatMap escapeResultByte) + 3 +
      textWeight (decimalInt code) + 1) + ((textWeight ((str "message").flatMap escapeResultByte) + 3 +
      textWeight (quoted (fun b => [b]) message) + 1) + 0))) + 1 = _
    rw [hkeys.1, hkeys.2.1, hkeys.2.2, textWeight_quoted, List.flatMap_singleton']
  have hplain := (plain_weight message).1
  rw [hweight, hcost]
  omega

/-! ## Exactly when an answer says what it should -/

/-- What stands between two ASCII bytes of a valid text is valid. -/
theorem utf8_inside {front s back : Bytes} {c d : UInt8} (hc : c ≤ 0x7F) (hd : d ≤ 0x7F)
    (h : strIsValidUtf8 (front ++ c :: (s ++ d :: back)) = true) : strIsValidUtf8 s = true :=
  (utf8_cut hd (utf8_cut hc h).2).1

/-- The id of a valid answer is valid. -/
theorem utf8_id {id : Option Json} {front back : Bytes}
    (h : strIsValidUtf8 (front ++ (jsonrpcIdToString id ++ back)) = true)
    (hbytes : isPlainIdBytes id = true) : isPlainId id = true := by
  rcases id with - | v
  · rfl
  cases v with
  | null | bool | array | object => rfl
  | number d => exact hbytes
  | string s =>
    have hinside : strIsValidUtf8 (front ++ chr '"' :: (s ++ chr '"' :: back)) = true := by
      have happ : jsonrpcIdToString (some (.string s)) ++ back = chr '"' :: (s ++ chr '"' :: back) := by
        show chr '"' :: (s ++ [chr '"']) ++ back = _
        rw [List.cons_append, List.append_assoc, List.singleton_append]
      rwa [happ] at h
    have hbytes' : s.all isPlainByte = true := hbytes
    rw [isPlainId, isPlainText, hbytes', utf8_inside (by decide) (by decide) hinside]
    rfl

/-- The text of a plain id is valid. -/
theorem utf8_idText {id : Option Json} (h : isPlainId id = true) :
    strIsValidUtf8 (jsonrpcIdToString id) = true := by
  have hnull : strIsValidUtf8 (str "null") = true := null_text.2.1
  rcases id with - | v
  · exact hnull
  cases v with
  | null | bool | array | object => exact hnull
  | number d =>
    have hd : d.isSafeInteger = true := h
    apply utf8_ascii
    intro c hc
    have hmem := List.mem_of_mem_take hc
    rw [(formatFixed0_safe hd).1] at hmem
    rcases List.mem_append.mp hmem with hc | hc
    · exact (minus_byte _ c hc).2
    · exact isDigit_ascii (decimal_isDigit _ c hc)
  | string s =>
    rw [isPlainId, isPlainText, Bool.and_eq_true] at h
    show strIsValidUtf8 (chr '"' :: (s ++ [chr '"'])) = true
    rw [utf8_one _ (by decide)]
    exact utf8_append_of h.1 (by decide)

/-- The texts around id and field are valid. -/
theorem utf8_answer {id : Option Json} {field : MemberText} (hid : isPlainId id = true)
    (hkey : strIsValidUtf8 (quoted escapeResultByte field.key) = true)
    (htext : strIsValidUtf8 field.text = true) :
    strIsValidUtf8 (objectText escapeResultByte [versionMember, idMember id, field]) = true := by
  apply utf8_objectText
  intro m hm
  rcases List.mem_cons.mp hm with rfl | hm
  · exact ⟨utf8_key (show str "jsonrpc" ∈ answerKeys by simp [answerKeys]),
      utf8_key (show str "2.0" ∈ answerKeys by simp [answerKeys])⟩
  rcases List.mem_cons.mp hm with rfl | hm
  · exact ⟨utf8_key (show str "id" ∈ answerKeys by simp [answerKeys]), utf8_idText hid⟩
  · obtain rfl := List.mem_singleton.mp hm
    exact ⟨hkey, htext⟩

/-- The members of an answer that is read as it was written. -/
theorem answer_members {id : Option Json} {field : MemberText} (hid : isPlainId id = true)
    (hfield : field.Reads escapeResultByte (parseValue jsonMaxDepth))
    (hutf8 : strIsValidUtf8 (objectText escapeResultByte [versionMember, idMember id, field]) = true) :
    jsonParse (objectText escapeResultByte [versionMember, idMember id, field]) =
      .ok (.object [(str "jsonrpc", .string (str "2.0")), (str "id", echoedId id),
        (field.key, field.value)]) := by
  refine jsonParse_object (List.cons_ne_nil _ _) ?_ hutf8
  intro m hm
  rcases List.mem_cons.mp hm with rfl | hm
  · exact versionMember_reads 63
  rcases List.mem_cons.mp hm with rfl | hm
  · exact idMember_reads hid 63
  · obtain rfl := List.mem_singleton.mp hm
    exact hfield

/-- The members of an answer, looked up. -/
theorem answer_get (e : Json) {key : Bytes} (w : Json) (hid : key ≠ str "id") (hversion : key ≠ str "jsonrpc") :
    Json.objectGet (.object [(str "jsonrpc", .string (str "2.0")), (str "id", e), (key, w)]) (str "id") = some e ∧
      Json.objectGet (.object [(str "jsonrpc", .string (str "2.0")), (str "id", e), (key, w)]) key = some w := by
  have hne := answerKeys_ne.1
  have hnodup : ([(str "jsonrpc", Json.string (str "2.0")), (str "id", e), (key, w)].map Prod.fst).Nodup := by
    simp only [List.map_cons, List.map_nil, List.nodup_cons, List.mem_cons, List.not_mem_nil, or_false,
      not_or, not_false_eq_true, List.nodup_nil, and_true]
    exact ⟨⟨hne, hversion.symm⟩, hid.symm⟩
  exact ⟨objectGet_of_mem hnodup (by simp), objectGet_of_mem hnodup (by simp)⟩

/-- **A success says what it should exactly when its id is plain and its text a plain result.** -/
theorem result_echoes_iff (id : Option Json) (text : Bytes) :
    Echoes id true text (appendJsonrpcResult id text) ↔
      isPlainId id = true ∧ isPlainResult text = true := by
  obtain ⟨-, ⟨hneId, hneVersion⟩, -⟩ := answerKeys_ne
  constructor
  · rintro ⟨members, hparse, hid, hresult⟩
    have hfield : Json.objectGet (.object members) (str "result") = some (.string text) := by
      rw [answerText, if_pos rfl] at hresult
      cases hget : Json.objectGet (.object members) (str "result") with
      | none => rw [hget] at hresult; exact nomatch hresult
      | some w =>
        rw [hget] at hresult
        cases w with
        | string s => rw [Option.some.inj hresult]
        | null | bool | number | array | object => exact nomatch hresult
    have hvalid := jsonParse_utf8 hparse
    rw [appendJsonrpcResult_eq] at hparse
    have hscales := answer_scales hparse hid hfield hneId hneVersion
    obtain ⟨hidle, hidlt⟩ := idMember_weight id
    obtain ⟨hresle, hreslt⟩ := resultMember_weight text
    have hkey : (resultMember text).key = str "result" := rfl
    rw [hkey] at hscales
    -- either fault makes the answer too light
    have hidbytes : isPlainIdBytes id = true := by
      by_contra h
      have := hidlt (Bool.eq_false_of_not_eq_true h)
      omega
    have htextbytes : text.all (!isBareControl ·) = true := by
      by_contra h
      have := hreslt (Bool.eq_false_of_not_eq_true h)
      omega
    have hescaped : strIsValidUtf8 (text.flatMap escapeResultByte) = true := by
      obtain ⟨front, hfront⟩ := appendJsonrpcResult_text id text
      rw [hfront] at hvalid
      exact utf8_inside (by decide) (by decide) hvalid
    rw [appendJsonrpcResult, List.append_assoc, List.append_assoc, List.append_assoc] at hvalid
    refine ⟨utf8_id hvalid hidbytes, ?_⟩
    have hesc : ∀ b, escapeResultByte b = [b] ∨
        (b ≤ 0x7F ∧ escapeResultByte b ≠ [] ∧ ∀ c ∈ escapeResultByte b, c ≤ 0x7F) := by
      intro b
      rcases (escapeResultByte_byte b).2.2.2 with h | ⟨h1, h2, h3⟩
      · exact .inl h
      · exact .inr ⟨h1, h2, fun c hc => of_decide_eq_true (List.all_eq_true.mp h3 c hc)⟩
    rw [isPlainResult, htextbytes, Bool.and_true]
    exact utf8_of_flatMap hesc text [] hescaped
  · rintro ⟨hid, htext⟩
    rw [isPlainResult, Bool.and_eq_true] at htext
    rw [appendJsonrpcResult_eq]
    have hascii : ∀ b ≤ 0x7F, strIsValidUtf8 (escapeResultByte b) = true := fun b =>
      (escapeResultByte_byte b).2.2.1
    have hother : ∀ b, ¬ b ≤ 0x7F → escapeResultByte b = [b] := fun b hb =>
      (escapeResultByte_byte b).2.2.2.resolve_right fun h => hb h.1
    obtain ⟨hgetId, hgetResult⟩ := answer_get (echoedId id) (.string text) hneId hneVersion
    refine ⟨_, answer_members hid (resultMember_reads htext.2 63) (utf8_answer hid
      (utf8_key (by simp [answerKeys, resultMember])) (utf8_quoted hascii hother htext.1)), hgetId, ?_⟩
    exact congrArg Json.asStr hgetResult

/-- **An error says what it should exactly when its id is plain**: its message always is. -/
theorem error_echoes_iff (id : Option Json) {code : Int} (hcode : code.natAbs < 10 ^ 6) {message : Bytes}
    (hmessage : isPlainText message = true) :
    Echoes id false message (appendJsonrpcError id code message) ↔ isPlainId id = true := by
  rw [isPlainText, Bool.and_eq_true] at hmessage
  obtain ⟨-, -, ⟨hneId, hneVersion⟩, hneCode⟩ := answerKeys_ne
  constructor
  · rintro ⟨members, hparse, hid, hread⟩
    obtain ⟨w, hfield, hget⟩ : ∃ w, Json.objectGet (.object members) (str "error") = some w ∧
        Json.objectGet w (str "message") = some (.string message) := by
      rw [answerText, if_neg (by decide)] at hread
      cases hget : Json.objectGet (.object members) (str "error") with
      | none => rw [hget] at hread; exact nomatch hread
      | some w =>
        rw [hget] at hread
        refine ⟨w, rfl, ?_⟩
        cases hmsg : Json.objectGet w (str "message") with
        | none => rw [Option.bind_some, hmsg] at hread; exact nomatch hread
        | some u =>
          rw [Option.bind_some, hmsg] at hread
          cases u with
          | string s => rw [Option.some.inj hread]
          | null | bool | number | array | object => exact nomatch hread
    have hvalid := jsonParse_utf8 hparse
    rw [appendJsonrpcError_eq] at hparse
    have hscales := answer_scales hparse hid hfield hneId hneVersion
    obtain ⟨hidle, hidlt⟩ := idMember_weight id
    have herror := errorMember_weight hcode hget
    have hkey : (errorMember code message).key = str "error" := rfl
    rw [hkey] at hscales
    have hidbytes : isPlainIdBytes id = true := by
      by_contra h
      have := hidlt (Bool.eq_false_of_not_eq_true h)
      omega
    simp only [appendJsonrpcError, List.append_assoc] at hvalid
    exact utf8_id hvalid hidbytes
  · intro hid
    have hnumber : strIsValidUtf8 (decimalInt code) = true := by
      apply utf8_ascii
      intro c hc
      rw [decimalInt_eq] at hc
      rcases List.mem_append.mp hc with hc | hc
      · exact (minus_byte _ c hc).2
      · exact isDigit_ascii (decimal_isDigit _ c hc)
    have hkeys : strIsValidUtf8 (quoted escapeResultByte (str "error")) = true ∧
        strIsValidUtf8 (quoted escapeResultByte (str "code")) = true ∧
        strIsValidUtf8 (quoted escapeResultByte (str "message")) = true :=
      ⟨utf8_key (by simp [answerKeys]), utf8_key (by simp [answerKeys]), utf8_key (by simp [answerKeys])⟩
    have htext : strIsValidUtf8 (errorMember code message).text = true := by
      apply utf8_objectText
      intro m hm
      rcases List.mem_cons.mp hm with rfl | hm
      · exact ⟨hkeys.2.1, hnumber⟩
      · obtain rfl := List.mem_singleton.mp hm
        refine ⟨hkeys.2.2, ?_⟩
        show strIsValidUtf8 (quoted (fun b => [b]) message) = true
        rw [quoted_self, utf8_one _ (by decide)]
        exact utf8_append_of hmessage.1 (by decide)
    obtain ⟨hgetId, hgetError⟩ := answer_get (echoedId id) (errorMember code message).value hneId hneVersion
    have hgetMessage : Json.objectGet (errorMember code message).value (str "message") =
        some (.string message) := by
      have hnodup : ([(str "code", Json.number (codeDouble code)),
          (str "message", Json.string message)].map Prod.fst).Nodup := by
        simp only [List.map_cons, List.map_nil, List.nodup_cons, List.mem_cons, List.not_mem_nil, or_false,
          not_false_eq_true, List.nodup_nil, and_true]
        exact hneCode
      exact objectGet_of_mem hnodup (by simp)
    rw [appendJsonrpcError_eq]
    refine ⟨_, answer_members hid (errorMember_reads hcode hmessage.2 62) (utf8_answer hid hkeys.1 htext),
      hgetId, ?_⟩
    rw [answerText, if_neg (by decide)]
    have hbind : (Json.objectGet (.object [(str "jsonrpc", .string (str "2.0")), (str "id", echoedId id),
        (str "error", (errorMember code message).value)]) (str "error")).bind (·.objectGet (str "message")) =
        some (.string message) := by rw [hgetError, Option.bind_some, hgetMessage]
    exact congrArg Json.asStr hbind

/-! ## Routed text -/

section Routed

variable {E C D : Type} (sv : Services E C D) (env : E)

/-- The agent's output, when a chat gets that far. -/
def chatOutput (server : Server C) (request : GatewayRequest) : Bytes :=
  if !server.agent || (sessionFind server (chatSessionId request)).any (·.abortRequested) then []
  else
    match (sv.processMessage env ⟨request.body, chatSessionId request, false⟩).2 with
    | .ok output => output
    | .error _ => []

/-- The configuration value, when there is one. -/
def configValue (server : Server C) (request : GatewayRequest) : Bytes :=
  match server.config.map fun config => sv.configGetProp config request.body with
  | some (.ok value) => value
  | _ => []

/-- What a handler is going to write that comes from outside: its own texts are constants. -/
def handlerText (handler : Handler) (server : Server C) (request : GatewayRequest) : Bytes :=
  match handler with
  | .handleChat => chatOutput sv env server request
  | .handleConfigGet => configValue sv server request
  | .handleSessions => server.sessions.flatMap fun s => s.id ++ [chr '\n']
  | _ => []

/-- What a request is going to be answered with that comes from outside. -/
def outsideText (server : Server C) (request : GatewayRequest) : Bytes :=
  match answerTo sv env server request with
  | .replayed => ((idempotencyFind server request.idempotencyKey).map (·.response.body)).getD []
  | .handled =>
    match routeFind server request.path request.method with
    | .ok route => handlerText sv env route.handler server request
    | .error _ => []
  | _ => []

end Routed

/-- A refusal of the gateway: no success, and a plain text. -/
def isPlainRefusal (r : GatewayResponse) : Bool :=
  !r.successful && decide (r.status < 1000) && isPlainText r.body

/-- The response writes `text`, or a constant of the gateway instead of it. -/
inductive Says (text : Bytes) (r : GatewayResponse) : Prop
  | result (hsuccess : r.successful = true) (hbody : isPlainResult r.body = isPlainResult text)
  | refusal (hrefusal : isPlainRefusal r = true) (hnone : text = [])

theorem gateRefusals_plain : ∀ r ∈ gateRefusals, isPlainRefusal r = true := by decide +kernel

/-- The constants the handlers of JSON-RPC methods answer with. -/
theorem handler_constants :
    (∀ r ∈ [responseSet 503 (str "stopped"), responseSet 503 (str "agent unavailable"),
        responseSet 409 (str "session aborted"), responseSet 499 (str "chat failed"),
        responseSet 500 (str "chat failed"), responseSet 503 (str "config unavailable"),
        responseSet 404 (str "config path not found"), responseSet 400 (str "invalid assignment"),
        responseSet 400 (str "config rejected")], isPlainRefusal r = true) ∧
      (∀ t ∈ [str "running", str "stopped", str "ok", str "updated"], isPlainResult t = true) := by
  decide +kernel

theorem Says.constant {t : Bytes} (h : t ∈ [str "running", str "stopped", str "ok", str "updated"]) :
    Says [] (responseSet 200 t) := .result rfl (handler_constants.2 t h)

variable {E C D : Type}

/-- The session of a chat is aborted when one was found that is. -/
theorem sessionGetOrCreate_abort (server : Server C) (sessionId : Bytes) :
    (sessionGetOrCreate server sessionId).2.abortRequested =
      (sessionFind server sessionId).any (·.abortRequested) := by
  unfold sessionGetOrCreate
  cases sessionFind server sessionId <;> rfl

/-- A chat says the agent's output. -/
theorem handleChat_says (sv : Services E C D) (env : E) (server : Server C) (request : GatewayRequest) :
    ∃ r, (handleChat sv env server request).2 = .ok r ∧ Says (chatOutput sv env server request) r := by
  obtain ⟨hrefusals, -⟩ := handler_constants
  unfold handleChat chatOutput
  by_cases hagent : (!server.agent) = true
  · rw [if_pos hagent, hagent, Bool.true_or, if_pos rfl]
    exact ⟨_, rfl, .refusal (hrefusals _ (by simp)) rfl⟩
  dsimp only
  rw [if_neg hagent, Bool.eq_false_of_not_eq_true hagent, Bool.false_or, sessionGetOrCreate_abort]
  by_cases habort : (sessionFind server (chatSessionId request)).any (·.abortRequested) = true
  · rw [if_pos habort, if_pos habort]
    exact ⟨_, rfl, .refusal (hrefusals _ (by simp)) rfl⟩
  rw [if_neg habort, if_neg habort]
  unfold chatTurn
  dsimp only
  cases (sv.processMessage env ⟨request.body, chatSessionId request, false⟩).2 with
  | ok output => exact ⟨_, rfl, .result rfl rfl⟩
  | error e =>
    dsimp only
    split
    · exact ⟨_, rfl, .refusal (hrefusals _ (by simp)) rfl⟩
    · exact ⟨_, rfl, .refusal (hrefusals _ (by simp)) rfl⟩

/-- A lookup says the configuration value. -/
theorem handleConfigGet_says (sv : Services E C D) (server : Server C) (request : GatewayRequest) :
    Says (configValue sv server request) (handleConfigGet sv server request) := by
  obtain ⟨hrefusals, -⟩ := handler_constants
  unfold handleConfigGet configValue
  cases server.config with
  | none => exact .refusal (hrefusals _ (by simp)) rfl
  | some config =>
    rw [Option.map_some]
    dsimp only
    cases sv.configGetProp config request.body with
    | ok value => exact .result rfl rfl
    | error e => exact .refusal (hrefusals _ (by simp)) rfl

theorem handleConfigSet_says (sv : Services E C D) (server : Server C) (request : GatewayRequest) :
    ∃ r, (handleConfigSet sv server request).2 = .ok r ∧ Says [] r := by
  obtain ⟨hrefusals, -⟩ := handler_constants
  unfold handleConfigSet
  split
  · exact ⟨_, rfl, .refusal (hrefusals _ (by simp)) rfl⟩
  split
  · exact ⟨_, rfl, .refusal (hrefusals _ (by simp)) rfl⟩
  · dsimp only
    split
    · exact ⟨_, rfl, .constant (by simp)⟩
    · exact ⟨_, rfl, .refusal (hrefusals _ (by simp)) rfl⟩

/-- The handlers JSON-RPC methods are routed to. -/
def jsonrpcHandlers : List Handler :=
  [.handleStatus, .handleHealth, .handleChat, .handleConfigGet, .handleConfigSet, .handleSessions]

/-- **A routed handler says the text that reaches it from outside.** -/
theorem runHandler_says (sv : Services E C D) (env : E)
    (inner : Server C → GatewayRequest → Server C × Res GatewayResponse) {handler : Handler}
    (h : handler ∈ jsonrpcHandlers) (server : Server C) (request : GatewayRequest) :
    ∃ r, (runHandler sv env inner handler server request).2 = .ok r ∧
      Says (handlerText sv env handler server request) r := by
  obtain ⟨hrefusals, -⟩ := handler_constants
  cases handler with
  | handleStatus =>
    refine ⟨_, rfl, ?_⟩
    show Says [] (handleStatus server)
    unfold handleStatus
    split <;> exact .constant (by simp)
  | handleHealth =>
    refine ⟨_, rfl, ?_⟩
    show Says [] (handleHealth server)
    unfold handleHealth
    by_cases hrunning : server.running = true
    · rw [if_pos hrunning, if_pos hrunning]
      exact .constant (by simp)
    · rw [if_neg hrunning, if_neg hrunning]
      exact .refusal (hrefusals _ (by simp)) rfl
  | handleChat => exact handleChat_says sv env server request
  | handleConfigGet => exact ⟨_, rfl, handleConfigGet_says sv server request⟩
  | handleConfigSet => exact handleConfigSet_says sv server request
  | handleSessions => exact ⟨_, rfl, .result rfl rfl⟩
  | handlePair | handleJsonrpcRoute | handleAcpRoute | handleSse | handleAbort | handleDisconnect
    | handleStatic => exact absurd h (by decide)

/-- A path of the table in front of the static files is found whatever the static roots are. -/
theorem routeFind_fixed {server : Server C} {path : Bytes} {method : GatewayMethod} {route : GatewayRoute}
    (h : (gatewayRoutes.dropLast.find? fun r => path == r.path && r.method == method) = some route) :
    routeFind server path method = .ok route := by
  have hsplit : gatewayRoutes = gatewayRoutes.dropLast ++ [gatewayRoutes.getLast (by decide)] :=
    (List.dropLast_append_getLast _).symm
  have hfixed : ∀ r ∈ gatewayRoutes.dropLast, r.path ≠ str "/static/*" := by decide
  have hfind : (gatewayRoutes.find? fun r => routeMatches server r path && r.method == method) =
      some route := by
    rw [hsplit, List.find?_append]
    have hcongr : (gatewayRoutes.dropLast.find? fun r => routeMatches server r path && r.method == method) =
        gatewayRoutes.dropLast.find? fun r => path == r.path && r.method == method := by
      apply List.find?_congr
      intro r hr
      rw [routeMatches, if_neg (hfixed r hr)]
    rw [hcongr, h]
    rfl
  rw [routeFind, hfind]

/-- The targets of the methods. -/
def jsonrpcTargets : List (Bytes × GatewayMethod) :=
  [(str "/status", .get), (str "/health", .get), (str "/ws/chat", .post), (str "/config/get", .get),
    (str "/config/set", .post), (str "/sessions", .get)]

/-- **A method is routed to one of six handlers.** -/
theorem routeFind_jsonrpc {name path : Bytes} {method : GatewayMethod}
    (h : jsonrpcRoute name = some (path, method)) (server : Server C) :
    ∃ route, routeFind server path method = .ok route ∧ route.handler ∈ jsonrpcHandlers := by
  have htarget : (path, method) ∈ jsonrpcTargets := by
    unfold jsonrpcRoute at h
    unfold jsonrpcTargets
    split_ifs at h <;> rw [← Option.some.inj h] <;> simp
  have hall : ∀ t ∈ jsonrpcTargets,
      ((gatewayRoutes.dropLast.find? fun r => t.1 == r.path && r.method == t.2).any
        fun r => jsonrpcHandlers.contains r.handler) = true := by decide
  have hroute := hall _ htarget
  dsimp only at hroute
  cases hfind : gatewayRoutes.dropLast.find? fun r => path == r.path && r.method == method with
  | none => rw [hfind] at hroute; exact nomatch hroute
  | some route =>
    rw [hfind] at hroute
    exact ⟨route, routeFind_fixed hfind, List.contains_iff_mem.mp hroute⟩

/-- Every stored response is a success: `idempotency_store` is called for no other. -/
def Stored (server : Server C) : Prop := ∀ e ∈ server.idempotency, e.response.successful = true

/-- What a request stores is a success. -/
theorem handleRequest_stored (sv : Services E C D) (env : E) {server : Server C} (h : Stored server)
    (request : GatewayRequest) : Stored (handleRequest sv env server request).1 := by
  intro e he
  rw [visits_stored] at he
  rcases List.mem_append.mp he with he | he
  · exact h e he
  · obtain ⟨v, -, hv⟩ := List.mem_filterMap.mp he
    unfold Visit.stored entryOf at hv
    split at hv
    · split at hv
      · split at hv
        · next hkeyed =>
          rw [Bool.and_eq_true] at hkeyed
          rw [← Option.some.inj hv]
          exact hkeyed.2
        · exact nomatch hv
      · exact nomatch hv
    · exact nomatch hv

/-- So is what any call stores. -/
theorem callStep_stored (sv : Services E C D) (server : Server C) (call : E × Call) (h : Stored server) :
    Stored (callStep sv server call) := by
  obtain ⟨env, call⟩ := call
  have hsame : ∀ {t : Server C}, t.idempotency = server.idempotency → Stored t := by
    intro t ht e he
    exact h e (ht ▸ he)
  cases call with
  | http raw =>
    show Stored (handleHttp sv env server raw).1
    unfold handleHttp
    split
    · exact h
    · exact handleRequest_stored sv env h _
  | request request => exact handleRequest_stored sv env h request
  | jsonrpc requestJson =>
    show Stored (jsonrpcHandleWith (handleRequest sv env) server requestJson).1
    rw [jsonrpcHandleWith_fst]
    cases nestedCall server requestJson with
    | none => exact h
    | some nested => exact handleRequest_stored sv env h nested
  | websocket text authToken sessionId =>
    show Stored (websocketReceiveText sv env server text authToken sessionId).1
    unfold websocketReceiveText
    split
    · exact h
    split
    · show Stored (sessionRemove server sessionId).1
      rw [sessionRemove_fst]
      split
      · exact hsame rfl
      · exact h
    split
    · exact h
    split
    · exact h
    · have hqueued : Stored { server with wsQueuedMessages := server.wsQueuedMessages + 1 } := h
      exact handleRequest_stored sv env hqueued (websocketRequest text authToken sessionId)

/-- **Every server that a run of calls reaches** from one that stored successes stores successes. -/
theorem stored_run (sv : Services E C D) (server : Server C) (h : Stored server)
    (calls : List (E × Call)) : Stored (run (callStep sv) server calls) :=
  run_preserves (fun s call => callStep_stored sv s call) calls server h

/-- A chat is stored, and answers a second request with its key. -/
theorem stored_run_chat :
    let server := run (callStep echoServices) smallGateway
      [(1, .request keyedChat), (2, .request keyedChat), (3, .jsonrpc (str "[]"))]
    Stored server ∧ server.idempotency.map (·.response) = [responseSet 200 (str "hi")] ∧
      (handleRequest echoServices 4 server keyedSet).2 = .ok (responseSet 200 (str "hi")) :=
  ⟨stored_run echoServices smallGateway (fun _ he => absurd he List.not_mem_nil) _, by decide +kernel,
    by decide +kernel⟩

/-- The gates change nothing a handler writes. -/
theorem handlerText_gated (sv : Services E C D) (env : E) (handler : Handler) (now : Int)
    (server : Server C) (route : GatewayRoute) (request : GatewayRequest) :
    handlerText sv env handler (enforceGates now server route request).1 request =
      handlerText sv env handler server request := by
  obtain ⟨_, _, _, _, hframe⟩ := enforceGates_frame now server route request
  rw [hframe]
  rfl

/-- **A routed request says the text that reaches it from outside.** -/
theorem handleRequest_says (sv : Services E C D) (env : E) {server : Server C} (hstored : Stored server)
    {requestJson : Bytes} {id : Option Json} {request : GatewayRequest}
    (hcall : jsonrpcCall requestJson = .route id request) :
    ∃ r, (handleRequest sv env server request).2 = .ok r ∧ Says (outsideText sv env server request) r := by
  obtain ⟨name, hname⟩ := jsonrpcCall_route hcall
  obtain ⟨route, hroute, hhandler⟩ := routeFind_jsonrpc hname server
  have hserved := serve_served sv env (handleRequest sv env) server request
  rw [← handleRequest_eq] at hserved
  unfold outsideText
  generalize handleRequest sv env server request = outcome, answerTo sv env server request = answer
    at hserved ⊢
  cases hserved with
  | unrouted pathMatched hnone =>
    rw [hroute] at hnone
    exact nomatch hnone
  | refused route' refusal hroute' hgate =>
    exact ⟨refusal, rfl, .refusal (gateRefusals_plain _ (enforceGates_refusals hgate)) rfl⟩
  | replayed route' cached hroute' hgate hkeyed hfind =>
    have hsuccess := hstored cached (List.mem_of_find?_eq_some hfind)
    refine ⟨responseCopy cached.response, rfl, .result hsuccess ?_⟩
    rw [hfind]
    rfl
  | handled route' hroute' hgate hfind =>
    obtain rfl : route = route' := Except.ok.inj (hroute.symm.trans hroute')
    obtain ⟨r, hr, hsays⟩ := runHandler_says sv env (handleRequest sv env) hhandler
      (enforceGates (sv.time env) server route request).1 request
    refine ⟨r, (idempotencyStore_snd _ _).trans hr, ?_⟩
    rw [hroute]
    rwa [handlerText_gated] at hsays

/-! ## Every JSON-RPC text -/

/-- `out` answers a JSON-RPC text as it should: the id of the request, and the routed body. -/
inductive AnswersCall (sv : Services E C D) (env : E) (server : Server C) (requestJson out : Bytes) : Prop
  | fail {id : Option Json} {code : Int} {message : String}
      (hcall : jsonrpcCall requestJson = .fail id code message) (hechoes : Echoes id false (str message) out)
  | ping {id : Option Json} (hcall : jsonrpcCall requestJson = .ping id)
      (hechoes : Echoes id true (str "pong") out)
  | route {id : Option Json} {request : GatewayRequest} {r : GatewayResponse}
      (hcall : jsonrpcCall requestJson = .route id request)
      (hrouted : (handleRequest sv env server request).2 = .ok r)
      (hechoes : Echoes id r.successful r.body out)

/-- The id of a JSON-RPC text. -/
def callId (requestJson : Bytes) : Option Json :=
  match jsonrpcCall requestJson with
  | .fail id _ _ => id
  | .ping id => id
  | .route id _ => id

/-- The text from outside that a JSON-RPC text is going to be answered with. -/
def callText (sv : Services E C D) (env : E) (server : Server C) (requestJson : Bytes) : Bytes :=
  match jsonrpcCall requestJson with
  | .route _ request => outsideText sv env server request
  | _ => []

/-- The errors without routing have short codes and plain messages. -/
theorem jsonrpcCall_fail {requestJson : Bytes} {id : Option Json} {code : Int} {message : String}
    (h : jsonrpcCall requestJson = .fail id code message) :
    code.natAbs < 10 ^ 6 ∧ isPlainText (str message) = true := by
  have hall : ∀ m ∈ ["method not found", "invalid request", "parse error"], isPlainText (str m) = true := by
    decide +kernel
  have hfail : ∀ {id' : Option Json} {code' : Int} {message' : String}, code'.natAbs < 10 ^ 6 →
      isPlainText (str message') = true → JsonrpcCall.fail id' code' message' = .fail id code message →
      code.natAbs < 10 ^ 6 ∧ isPlainText (str message) = true := by
    intro id' code' message' hcode hmessage heq
    obtain ⟨-, rfl, rfl⟩ := JsonrpcCall.fail.inj heq
    exact ⟨hcode, hmessage⟩
  unfold jsonrpcCall at h
  split at h
  · dsimp only at h
    split at h
    · split at h
      · unfold jsonrpcMethodCall at h
        split at h
        · exact nomatch h
        · split at h
          · exact nomatch h
          · exact hfail (by decide) (hall _ (by simp)) h
      · exact hfail (by decide) (hall _ (by simp)) h
    · exact hfail (by decide) (hall _ (by simp)) h
  · exact hfail (by decide) (hall _ (by simp)) h

/-- A routed answer says what it should exactly when id and text from outside are plain. -/
theorem jsonrpcAnswer_echoes_iff (id : Option Json) {text : Bytes} {r : GatewayResponse} (h : Says text r) :
    Echoes id r.successful r.body (jsonrpcAnswer id r) ↔
      isPlainId id = true ∧ isPlainResult text = true := by
  rcases h with ⟨hsuccess, htext⟩ | ⟨hrefusal, rfl⟩
  · rw [jsonrpcAnswer, if_pos hsuccess, hsuccess, ← htext]
    exact result_echoes_iff id r.body
  · rw [isPlainRefusal, Bool.and_eq_true, Bool.and_eq_true, Bool.not_eq_true', decide_eq_true_eq] at hrefusal
    obtain ⟨⟨hfailure, hstatus⟩, hplain⟩ := hrefusal
    rw [jsonrpcAnswer, hfailure, if_neg Bool.false_ne_true, and_iff_left (show isPlainResult [] = true from rfl)]
    refine error_echoes_iff id ?_ hplain
    rw [Int.natAbs_natCast]
    omega

/-- **JSON-RPC answers are well formed and echo the id exactly when** the id needs no escape and is no
    number that `%.0f` changes, and the text that reaches the answer from outside is UTF-8 without
    control bytes other than LF. -/
theorem jsonrpcHandle_answers_iff (sv : Services E C D) (env : E) {server : Server C}
    (hstored : Stored server) (requestJson : Bytes) :
    (∀ out, (jsonrpcHandle sv env server requestJson).2 = .ok out →
      AnswersCall sv env server requestJson out) ↔
    (requestJson.isEmpty = false → server.jsonrpcEnabled = true →
      isPlainId (callId requestJson) = true ∧
        isPlainResult (callText sv env server requestJson) = true) := by
  unfold jsonrpcHandle jsonrpcHandleWith
  by_cases hempty : requestJson.isEmpty = true
  · rw [if_pos hempty]
    exact ⟨fun _ h => absurd (hempty.symm.trans h) (by decide), fun _ out h => nomatch h⟩
  rw [if_neg hempty]
  by_cases henabled : server.jsonrpcEnabled = true
  swap
  · rw [if_pos (by rw [Bool.eq_false_of_not_eq_true henabled]; rfl)]
    exact ⟨fun _ _ h => absurd h henabled, fun _ out h => nomatch h⟩
  rw [if_neg (by rw [henabled]; decide)]
  -- what is left is one answer, and the two conditions on it
  have hone : ∀ {answer : Bytes} {P : Bytes → Prop} {q : Prop}, (P answer ↔ q) →
      ((∀ out, Except.ok answer = (Except.ok out : Res Bytes) → P out) ↔
        (requestJson.isEmpty = false → server.jsonrpcEnabled = true → q)) := by
    intro answer P q hiff
    constructor
    · exact fun h _ _ => hiff.mp (h answer rfl)
    · intro h out hout
      obtain rfl := Except.ok.inj hout
      exact hiff.mpr (h (Bool.eq_false_of_not_eq_true hempty) henabled)
  unfold callId callText
  cases hcall : jsonrpcCall requestJson with
  | fail id code message =>
    obtain ⟨hcode, hmessage⟩ := jsonrpcCall_fail hcall
    refine hone (Iff.trans ⟨fun h => ?_, .fail hcall⟩
      ((error_echoes_iff id hcode hmessage).trans (and_iff_left rfl).symm))
    cases h with
    | fail hcall' hechoes =>
      obtain ⟨rfl, -, rfl⟩ := JsonrpcCall.fail.inj (hcall'.symm.trans hcall)
      exact hechoes
    | ping hcall' | route hcall' => exact nomatch hcall'.symm.trans hcall
  | ping id =>
    have hpong : isPlainResult (str "pong") = true := by decide
    have hiff := result_echoes_iff id (str "pong")
    rw [hpong] at hiff
    refine hone (Iff.trans ⟨fun h => ?_, .ping hcall⟩ hiff)
    cases h with
    | ping hcall' hechoes =>
      obtain rfl := JsonrpcCall.ping.inj (hcall'.symm.trans hcall)
      exact hechoes
    | fail hcall' | route hcall' => exact nomatch hcall'.symm.trans hcall
  | route id request =>
    obtain ⟨r, hr, hsays⟩ := handleRequest_says sv env hstored hcall
    dsimp only
    rw [hr]
    refine hone (Iff.trans ⟨fun h => ?_, .route hcall hr⟩ (jsonrpcAnswer_echoes_iff id hsays))
    cases h with
    | route hcall' hr' hechoes =>
      obtain ⟨rfl, rfl⟩ := JsonrpcCall.route.inj (hcall'.symm.trans hcall)
      obtain rfl := Except.ok.inj (hr'.symm.trans hr)
      exact hechoes
    | fail hcall' | ping hcall' => exact nomatch hcall'.symm.trans hcall

/-- An answer that is as it should be is an object. -/
theorem AnswersCall.parses {sv : Services E C D} {env : E} {server : Server C} {requestJson out : Bytes}
    (h : AnswersCall sv env server requestJson out) : (jsonParse out).isOk = true := by
  have hechoes : ∀ {id : Option Json} {successful : Bool} {text : Bytes}, Echoes id successful text out →
      (jsonParse out).isOk = true := by
    rintro id successful text ⟨members, hparse, -⟩
    rw [hparse]
    rfl
  cases h with
  | fail _ h | ping _ h | route _ _ h => exact hechoes h

/-- A chat with the owner's token and the id 7. -/
def ownersCall : Bytes :=
  str "\x7b\"jsonrpc\":\"2.0\",\"id\":7,\"method\":\"gateway.chat\",\"params\":\x7b\"body\":\"say \\\"hi\\\"\",\"auth_token\":\"token\"\x7d\x7d"

/-- A ping whose id holds a quote. -/
def quotedIdCall : Bytes :=
  str "\x7b\"jsonrpc\":\"2.0\",\"id\":\"a\\\"b\",\"method\":\"ping\"\x7d"

/-- A new gateway has stored nothing. -/
theorem smallGateway_stored : Stored smallGateway := by
  have hempty : smallGateway.idempotency = [] := rfl
  intro e he
  rw [hempty] at he
  exact absurd he List.not_mem_nil

/-- The echoed chat is answered as it should be, quotes and all. -/
theorem jsonrpcHandle_answers_chat : ∃ out,
    (jsonrpcHandle echoServices 1 smallGateway ownersCall).2 = .ok out ∧
      AnswersCall echoServices 1 smallGateway ownersCall out := by
  have hplain : isPlainId (callId ownersCall) = true ∧
      isPlainResult (callText echoServices 1 smallGateway ownersCall) = true := by decide +kernel
  have hanswers := (jsonrpcHandle_answers_iff echoServices 1 smallGateway_stored ownersCall).mpr
    fun _ _ => hplain
  have hok : (jsonrpcHandle echoServices 1 smallGateway ownersCall).2.isOk = true := by decide +kernel
  cases hout : (jsonrpcHandle echoServices 1 smallGateway ownersCall).2 with
  | error e =>
    rw [hout] at hok
    exact absurd hok Bool.false_ne_true
  | ok out => exact ⟨out, rfl, hanswers out hout⟩

/-- **An id with a quote breaks its answer**: it is written as it is, and what comes out is no JSON. -/
theorem quoted_id_unreadable : ¬ ∀ out,
    (jsonrpcHandle echoServices 1 smallGateway quotedIdCall).2 = .ok out →
      AnswersCall echoServices 1 smallGateway quotedIdCall out := by
  intro h
  have hout : (jsonrpcHandle echoServices 1 smallGateway quotedIdCall).2 =
      .ok (str "\x7b\"jsonrpc\":\"2.0\",\"id\":\"a\"b\",\"result\":\"pong\"\x7d") := by decide +kernel
  have hunreadable : (jsonParse (str
      "\x7b\"jsonrpc\":\"2.0\",\"id\":\"a\"b\",\"result\":\"pong\"\x7d")).isOk = false := by decide +kernel
  have hparses := (h _ hout).parses
  rw [hunreadable] at hparses
  exact Bool.false_ne_true hparses

end SmolClaw.Gateway
