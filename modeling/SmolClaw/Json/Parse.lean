/-
  The JSON reader (`sc_json_parse`, `src/json/json.c`).

  The C parser is a cursor into the text; here a parsing function takes the bytes that are LEFT and
  returns a value with the bytes left after it, or a failure that names an error key and how many
  bytes were left when it was noticed (`parser_error` records the offset).

  1. **Nesting** — `parse_value` refuses at `depth > 64`; `parseValue` counts the levels that are
     still allowed, starting at 65, and recurses on that count.

  2. **Loops** — the `while (pos < len)` loops eat at least one byte a turn, so the number of bytes
     left bounds the turns; each loop takes that many turns as an argument.

  3. **Numbers** — the longest `-? digits (. digits)? ([eE] [+-]? digits)?` is copied into a buffer
     of 128 bytes and handed to `strtod`; what is not finite is refused.
-/
import SmolClaw.Core.Double
import SmolClaw.Core.Utf8

namespace SmolClaw

/-- `sc_json_value` -/
inductive Json where
  | null
  | bool (value : Bool)
  | number (value : Double)
  | string (value : Bytes)
  | array (items : List Json)
  | object (members : List (Bytes × Json))

/-- `sc_json_parse_error` -/
structure JsonParseError where
  offset : Nat
  errorKey : String
  deriving DecidableEq, Repr

/-- A parser's failure: the key, and how many bytes were left. -/
structure ParseFail where
  errorKey : String
  left : Nat
  deriving DecidableEq, Repr

/-- What a parsing function returns: a value and the bytes left, or a failure. -/
abbrev Parsed (α : Type) := Except ParseFail (α × Bytes)

/-- `parser_error` -/
def parserError {α : Type} (key : String) (left : Bytes) : Except ParseFail α :=
  .error ⟨key, left.length⟩

/-- `JSON_MAX_DEPTH` -/
def jsonMaxDepth : Nat := 64
/-- `JSON_MAX_ARRAY_ITEMS` -/
def jsonMaxArrayItems : Nat := 100000

/-! ## Lexical pieces -/

def isWs (c : UInt8) : Bool := c == chr ' ' || c == chr '\n' || c == chr '\r' || c == chr '\t'

/-- `skip_ws` -/
def skipWs (left : Bytes) : Bytes := left.dropWhile isWs

/-- `consume`: the bytes after an expected one. -/
def consume (expected : UInt8) : Bytes → Option Bytes
  | c :: rest => if c = expected then some rest else none
  | [] => none

/-- `json_hex_value` -/
def jsonHexValue (c : UInt8) : Option UInt32 :=
  if chr '0' ≤ c ∧ c ≤ chr '9' then some (c - chr '0').toUInt32
  else if chr 'a' ≤ c ∧ c ≤ chr 'f' then some (c - chr 'a' + 10).toUInt32
  else if chr 'A' ≤ c ∧ c ≤ chr 'F' then some (c - chr 'A' + 10).toUInt32
  else none

/-- The loop that reads `n` hexadecimal digits. -/
def parseHex : Nat → UInt32 → Bytes → Parsed UInt32
  | 0, codepoint, left => .ok (codepoint, left)
  | n + 1, codepoint, c :: rest =>
      match jsonHexValue c with
      | some value => parseHex n ((codepoint <<< 4) ||| value) rest
      | none => parserError "sc.json.bad_unicode_escape" rest
  | _ + 1, _, [] => parserError "sc.json.bad_unicode_escape" []

/-- The second half of a surrogate pair: `\u` and a low surrogate. -/
def parseLowSurrogate (high : UInt32) (left : Bytes) : Parsed UInt32 :=
  match left with
  | backslash :: u :: rest =>
      if left.length < 6 ∨ backslash ≠ chr '\\' ∨ u ≠ chr 'u' then
        parserError "sc.json.bad_unicode_escape" left
      else
        match parseHex 4 0 rest with
        | .ok (low, rest) =>
            if low < 0xDC00 ∨ low > 0xDFFF then parserError "sc.json.bad_unicode_escape" rest
            else .ok ((0x10000 : UInt32) + (((high - 0xD800) <<< 10) ||| (low - 0xDC00)), rest)
        | .error e => .error e
  | _ => parserError "sc.json.bad_unicode_escape" left

/-- `parse_unicode_escape`, after the `\u` -/
def parseUnicodeEscape (left : Bytes) : Parsed UInt32 :=
  if left.length < 4 then parserError "sc.json.bad_unicode_escape" left
  else
    match parseHex 4 0 left with
    | .ok (codepoint, rest) =>
        if 0xD800 ≤ codepoint ∧ codepoint ≤ 0xDBFF then parseLowSurrogate codepoint rest
        else if 0xDC00 ≤ codepoint ∧ codepoint ≤ 0xDFFF then
          parserError "sc.json.bad_unicode_escape" rest
        else .ok (codepoint, rest)
    | .error e => .error e

/-- `append_utf8_codepoint`: the bytes it appends; `none` above `0x10FFFF`. -/
def utf8Codepoint (cp : UInt32) : Option Bytes :=
  let lead (mark x : UInt32) : UInt8 := (mark ||| x).toUInt8
  let tail (x : UInt32) : UInt8 := ((0x80 : UInt32) ||| (x &&& 0x3F)).toUInt8
  if cp ≤ 0x7F then some [cp.toUInt8]
  else if cp ≤ 0x7FF then some [lead 0xC0 (cp >>> 6), tail cp]
  else if cp ≤ 0xFFFF then some [lead 0xE0 (cp >>> 12), tail (cp >>> 6), tail cp]
  else if cp ≤ 0x10FFFF then
    some [lead 0xF0 (cp >>> 18), tail (cp >>> 12), tail (cp >>> 6), tail cp]
  else none

/-- The one-byte escapes of `parse_string`. -/
def simpleEscape (c : UInt8) : Option UInt8 :=
  if c = chr '"' ∨ c = chr '\\' ∨ c = chr '/' then some c
  else if c = chr 'b' then some 8
  else if c = chr 'f' then some 12
  else if c = chr 'n' then some 10
  else if c = chr 'r' then some 13
  else if c = chr 't' then some 9
  else none

/-! ## Strings -/

/-- The loop of `parse_string`: `turns` bounds the turns, `builder` holds the text so far. -/
def parseStringLoop : Nat → Bytes → Bytes → Parsed Bytes
  | 0, _, left => parserError "sc.json.unexpected_eof" left
  | _ + 1, _, [] => parserError "sc.json.unexpected_eof" []
  | turns + 1, builder, ch :: rest =>
      if ch = chr '"' then .ok (builder, rest)
      else if ch < 0x20 then parserError "sc.json.control_in_string" rest
      else if ch = chr '\\' then
        match rest with
        | [] => parserError "sc.json.bad_escape" []
        | e :: rest =>
            match simpleEscape e with
            | some c => parseStringLoop turns (builder ++ [c]) rest
            | none =>
                if e = chr 'u' then
                  match parseUnicodeEscape rest with
                  | .ok (codepoint, rest) =>
                      match utf8Codepoint codepoint with
                      | some text => parseStringLoop turns (builder ++ text) rest
                      | none => parserError "sc.json.bad_unicode_escape" rest
                  | .error e => .error e
                else parserError "sc.json.unsupported_escape" rest
      else parseStringLoop turns (builder ++ [ch]) rest

/-- `parse_string` -/
def parseString (left : Bytes) : Parsed Bytes :=
  match consume (chr '"') left with
  | some rest => parseStringLoop (rest.length + 1) [] rest
  | none => parserError "sc.json.expected_string" left

/-! ## Numbers and literals -/

/-- A leading byte that satisfies `p`, if there is one, and what follows. -/
def takeOne (p : UInt8 → Bool) : Bytes → Bytes × Bytes
  | c :: rest => if p c then ([c], rest) else ([], c :: rest)
  | [] => ([], [])

/-- A leading byte that satisfies `p` together with what `more` takes after it; nothing when the
    byte is not there. -/
def takeGroup (p : UInt8 → Bool) (more : Bytes → Bytes × Bytes) : Bytes → Bytes × Bytes
  | c :: rest => if p c then (c :: (more rest).1, (more rest).2) else ([], c :: rest)
  | [] => ([], [])

def takeDigits (left : Bytes) : Bytes × Bytes := (left.takeWhile isDigit, left.dropWhile isDigit)

/-- A sign and digits, both optional: what may follow an `e`. -/
def takeSignedDigits (left : Bytes) : Bytes × Bytes :=
  let (sign, rest) := takeOne (fun c => c == chr '+' || c == chr '-') left
  (sign ++ (takeDigits rest).1, (takeDigits rest).2)

/-- The text `parse_number` copies into its buffer, and what is left after it. -/
def numberText (left : Bytes) : Bytes × Bytes :=
  let (sign, rest) := takeOne (· == chr '-') left
  let (whole, rest) := takeDigits rest
  let (frac, rest) := takeGroup (· == chr '.') takeDigits rest
  let (exp, rest) := takeGroup (fun c => c == chr 'e' || c == chr 'E') takeSignedDigits rest
  (sign ++ whole ++ frac ++ exp, rest)

/-- `parse_number` -/
def parseNumber (left : Bytes) : Parsed Json :=
  let (text, rest) := numberText left
  if text.length = 0 ∨ 128 ≤ text.length then parserError "sc.json.number_too_large" rest
  else
    match strtod text with
    | some number =>
        if number.isFinite then .ok (.number number, rest)
        else parserError "sc.json.invalid_number" rest
    | none => parserError "sc.json.invalid_number" rest

/-- `parse_literal` -/
def parseLiteral (literal : Bytes) (value : Json) (left : Bytes) : Parsed Json :=
  if left.length < literal.length ∨ left.take literal.length ≠ literal then
    parserError "sc.json.invalid_literal" left
  else .ok (value, left.drop literal.length)

/-! ## Values -/

section Containers

variable (parseValue : Bytes → Parsed Json)

/-- One turn of the loop of `parse_object`, up to its value: a key, a colon, a value. -/
def parseMember (left : Bytes) : Parsed (Bytes × Json) :=
  match parseString left with
  | .error e => .error e
  | .ok (key, rest) =>
      match consume (chr ':') (skipWs rest) with
      | none => parserError "sc.json.expected_colon" (skipWs rest)
      | some rest =>
          match parseValue rest with
          | .error e => .error e
          | .ok (value, rest) => .ok ((key, value), rest)

/-- The loop of `parse_object`, with the members read so far. -/
def parseMembers : Nat → List (Bytes × Json) → Bytes → Parsed Json
  | 0, _, left => parserError "sc.json.unexpected_eof" left
  | _ + 1, _, [] => parserError "sc.json.unexpected_eof" []
  | turns + 1, members, c :: rest =>
      if c ≠ chr '"' then parserError "sc.json.expected_object_key" (c :: rest)
      else
        match parseMember parseValue (c :: rest) with
        | .error e => .error e
        | .ok (member, rest) =>
            match consume (chr '}') (skipWs rest) with
            | some rest => .ok (.object (members ++ [member]), rest)
            | none =>
                match consume (chr ',') (skipWs rest) with
                | some rest => parseMembers turns (members ++ [member]) (skipWs rest)
                | none => parserError "sc.json.expected_comma" (skipWs rest)

/-- `parse_object`, after the brace -/
def parseObject (left : Bytes) : Parsed Json :=
  match consume (chr '}') (skipWs left) with
  | some rest => .ok (.object [], rest)
  | none => parseMembers parseValue ((skipWs left).length + 1) [] (skipWs left)

/-- The loop of `parse_array`, with the items read so far. -/
def parseItems : Nat → List Json → Bytes → Parsed Json
  | 0, _, left => parserError "sc.json.unexpected_eof" left
  | _ + 1, _, [] => parserError "sc.json.unexpected_eof" []
  | turns + 1, items, c :: rest =>
      if jsonMaxArrayItems ≤ items.length then parserError "sc.json.array_too_large" (c :: rest)
      else
        match parseValue (c :: rest) with
        | .error e => .error e
        | .ok (value, rest) =>
            match consume (chr ']') (skipWs rest) with
            | some rest => .ok (.array (items ++ [value]), rest)
            | none =>
                match consume (chr ',') (skipWs rest) with
                | some rest => parseItems turns (items ++ [value]) (skipWs rest)
                | none => parserError "sc.json.expected_comma" (skipWs rest)

/-- `parse_array`, after the bracket -/
def parseArray (left : Bytes) : Parsed Json :=
  match consume (chr ']') (skipWs left) with
  | some rest => .ok (.array [], rest)
  | none => parseItems parseValue ((skipWs left).length + 1) [] (skipWs left)

end Containers

/-- `parse_value`, with the number of levels that may still be opened -/
def parseValue : Nat → Bytes → Parsed Json
  | 0, left => parserError "sc.json.too_deep" (skipWs left)
  | levels + 1, left =>
      match skipWs left with
      | [] => parserError "sc.json.unexpected_eof" []
      | c :: rest =>
          if c = chr '\x7b' then parseObject (parseValue levels) rest
          else if c = chr '[' then parseArray (parseValue levels) rest
          else if c = chr '"' then
            match parseString (c :: rest) with
            | .ok (text, rest) => .ok (.string text, rest)
            | .error e => .error e
          else if c = chr 't' then parseLiteral (str "true") (.bool true) (c :: rest)
          else if c = chr 'f' then parseLiteral (str "false") (.bool false) (c :: rest)
          else if c = chr 'n' then parseLiteral (str "null") .null (c :: rest)
          else if c = chr '-' ∨ isDigit c then parseNumber (c :: rest)
          else parserError "sc.json.unexpected_token" (c :: rest)

/-- `sc_json_parse` -/
def jsonParse (input : Bytes) : Except JsonParseError Json :=
  if !strIsValidUtf8 input then .error ⟨0, "sc.json.invalid_utf8"⟩
  else
    match parseValue (jsonMaxDepth + 1) (skipWs input) with
    | .error e => .error ⟨input.length - e.left, e.errorKey⟩
    | .ok (value, rest) =>
        if skipWs rest = [] then .ok value
        else .error ⟨input.length - (skipWs rest).length, "sc.json.trailing_input"⟩

/-- The status `sc_json_parse` returns: `sc_status_json` and `sc_status_parse` are one code. -/
def jsonParseStatus (input : Bytes) : Res Json :=
  match jsonParse input with
  | .ok value => .ok value
  | .error e => Status.parse e.errorKey

theorem jsonParse_of_status {input : Bytes} {root : Json} (h : jsonParseStatus input = .ok root) :
    jsonParse input = .ok root := by
  unfold jsonParseStatus at h
  split at h
  · next value hvalue =>
    cases h
    exact hvalue
  · exact absurd h (Status.parse_ne_ok _ _)

theorem jsonParse_status {input : Bytes} {root : Json} (h : jsonParse input = .ok root) :
    jsonParseStatus input = .ok root := by rw [jsonParseStatus, h]

/-! ## Reading values -/

/-- `sc_json_object_get`: later members shadow earlier ones. -/
def Json.objectGet (value : Json) (key : Bytes) : Option Json :=
  match value with
  | .object members => (members.reverse.find? fun m => m.1 == key).map Prod.snd
  | _ => none

/-- `sc_json_as_str` -/
def Json.asStr : Option Json → Option Bytes
  | some (.string s) => some s
  | _ => none

/-- `sc_json_as_number` -/
def Json.asNumber : Option Json → Option Double
  | some (.number d) => some d
  | _ => none

end SmolClaw
