/-
  HTTP framing of the gateway's connections: when the way the bytes arrive does not matter.

  1. **Requests** — `HttpRequest` is a well-formed HTTP/1.1 request: names of headers in any letter
     case, at most one `Content-Length`, and a body of the announced length.  `HttpRequest.meaning` is
     the request it stands for, header names compared WITHOUT regard to case.

  2. **Reading one** — `parse_http_request` reads the bytes of such a request, whatever stands behind
     its header block, as the request line, the headers spelled as the code spells them, and ALL that
     follows as the body (`parseHttpRequest_text`).

  3. **Framing** — `FramedOnce`: however a stream is cut into reads, and whatever else happens in
     between, the request it begins with is handled once and nothing else is.  `framedOnce_iff` says
     for which streams this holds; `lowerCase_handled_twice` is one of the others.
-/
import SmolClaw.Core.WholeNumber
import SmolClaw.Gateway.Connection

namespace SmolClaw.Gateway

open Lib.Infix Lib.Run

variable {E C D : Type}

/-! ## Requests -/

/-- A character of a token: visible, and no delimiter. -/
def isTokenChar (c : UInt8) : Bool :=
  33 ≤ c && c < 127 && !(str "\"(),/:;<=>?@[\\]\x7b\x7d").contains c

/-- A character of a request target. -/
def isVisible (c : UInt8) : Bool := 33 ≤ c && c < 127

/-- A character of a header value. -/
def isValueChar (c : UInt8) : Bool := isHeaderBlank c || (33 ≤ c && c != 127)

/-- A header field, with the blanks around its value. -/
structure HeaderField where
  name : Bytes
  before : Bytes
  value : Bytes
  after : Bytes
  name_token : name ≠ [] ∧ ∀ c ∈ name, isTokenChar c = true
  blanks : ∀ c ∈ before ++ after, isHeaderBlank c = true
  value_text : ∀ c ∈ value, isValueChar c = true
  value_trimmed : (∀ c ∈ value.head?, isHeaderBlank c = false) ∧
    ∀ c ∈ value.getLast?, isHeaderBlank c = false

/-- The field as it is sent. -/
def HeaderField.line (f : HeaderField) : Bytes :=
  f.name ++ chr ':' :: (f.before ++ (f.value ++ f.after))

/-- Names are the same, letter case aside. -/
def sameName (a b : Bytes) : Bool := a.map toLower == b.map toLower

/-- The field is the `Content-Length` header. -/
def HeaderField.isLength (f : HeaderField) : Bool := sameName f.name (str "Content-Length")

/-- The length announced by the headers, 0 when they are silent. -/
def announcedLength (fields : List HeaderField) : Nat :=
  match fields.find? HeaderField.isLength with
  | none => 0
  | some f => decimalValue f.value

/-- A well-formed HTTP/1.1 request. -/
structure HttpRequest where
  method : Bytes
  target : Bytes
  headers : List HeaderField
  body : Bytes
  method_token : method ≠ [] ∧ ∀ c ∈ method, isTokenChar c = true
  target_visible : target ≠ [] ∧ ∀ c ∈ target, isVisible c = true
  length_once : (headers.filter HeaderField.isLength).length ≤ 1
  length_digits : ∀ f ∈ headers, f.isLength = true → f.value ≠ [] ∧ ∀ c ∈ f.value, isDigit c = true
  body_length : body.length = announcedLength headers

namespace HttpRequest

/-- The request line. -/
def startLine (r : HttpRequest) : Bytes :=
  r.method ++ chr ' ' :: (r.target ++ chr ' ' :: str "HTTP/1.1")

/-- The bytes before the empty line. -/
def head (r : HttpRequest) : Bytes := r.startLine ++ (r.headers.map HeaderField.line).flatMap (crlf ++ ·)

/-- The request as it is sent. -/
def text (r : HttpRequest) : Bytes := r.head ++ (headerEnd ++ r.body)

end HttpRequest

/-- The value of the last field that `p` picks, empty when there is none. -/
def lastValue (p : HeaderField → Bool) (fields : List HeaderField) : Bytes :=
  ((fields.filter p).getLast?.map HeaderField.value).getD []

/-- What a request takes from its headers. -/
structure Recognized where
  authToken : Bytes
  requestId : Bytes
  sessionId : Bytes
  origin : Bytes
  idempotencyKey : Bytes
  deriving DecidableEq

/-- The recognized headers, names compared by `same`. -/
def recognized (same : Bytes → Bytes → Bool) (fields : List HeaderField) : Recognized where
  authToken := (lastValue (fun f => same f.name (str "Authorization") &&
    (str "Bearer ").isPrefixOf f.value) fields).drop 7
  requestId := lastValue (fun f => same f.name (str "X-Request-Id")) fields
  sessionId := lastValue (fun f => same f.name (str "X-Session-Id")) fields
  origin := lastValue (fun f => same f.name (str "Origin")) fields
  idempotencyKey := lastValue (fun f => same f.name (str "Idempotency-Key")) fields

/-- The request with these headers. -/
def Recognized.request (v : Recognized) (method : GatewayMethod) (path body : Bytes) : GatewayRequest :=
  { method, path, body, authToken := v.authToken, idempotencyKey := v.idempotencyKey,
    requestId := v.requestId, sessionId := v.sessionId, origin := v.origin }

/-- **What the request stands for**; none for a method the gateway does not know. -/
def HttpRequest.meaning (r : HttpRequest) : Option GatewayRequest :=
  (methodNamed r.method).map fun method => (recognized sameName r.headers).request method r.target r.body

/-! ## Characters -/

/-- A byte that ends neither a line nor a C string. -/
def inLine (c : UInt8) : Bool := c != 13 && c != 10 && c != 0

/-- What the bytes of a request's head are not. -/
theorem char_facts (c : UInt8) :
    (isTokenChar c = true → inLine c = true ∧ c ≠ chr ':' ∧ c ≠ chr ' ') ∧
      (isVisible c = true → inLine c = true ∧ c ≠ chr ' ') ∧
      (isHeaderBlank c = true → inLine c = true ∧ isDigit c = false ∧ isValueChar c = true) ∧
      (isValueChar c = true → inLine c = true) ∧
      (isDigit c = true → isHeaderBlank c = false ∧ c ≠ 13) := by
  revert c
  apply byte_forall
  decide +kernel

/-- The constant bytes of a request's head. -/
theorem constant_facts :
    inLine (chr ':') = true ∧ inLine (chr ' ') = true ∧ (∀ c ∈ str "HTTP/1.1", inLine c = true) ∧
      (∀ c ∈ headerEnd, c ≠ 0) ∧ (∀ c ∈ crlf, c ≠ 0) ∧ Free headerEnd [13, 10, 13] ∧
      headerEnd.dropLast = [13, 10, 13] ∧ contentLengthHeader.length = 15 ∧
      chr ' ' ∉ str "HTTP/1.1" := by
  decide +kernel

theorem inLine_iff {c : UInt8} : inLine c = true ↔ (c ≠ 13 ∧ c ≠ 10) ∧ c ≠ 0 := by
  simp [inLine]

theorem HeaderField.line_inLine (f : HeaderField) : ∀ c ∈ f.line, inLine c = true := by
  intro c hc
  rcases List.mem_append.mp hc with h | h
  · exact ((char_facts c).1 (f.name_token.2 c h)).1
  rcases List.mem_cons.mp h with rfl | h
  · exact constant_facts.1
  rcases List.mem_append.mp h with h | h
  · exact ((char_facts c).2.2.1 (f.blanks c (List.mem_append_left _ h))).1
  rcases List.mem_append.mp h with h | h
  · exact (char_facts c).2.2.2.1 (f.value_text c h)
  · exact ((char_facts c).2.2.1 (f.blanks c (List.mem_append_right _ h))).1

theorem HttpRequest.startLine_inLine (r : HttpRequest) : ∀ c ∈ r.startLine, inLine c = true := by
  intro c hc
  rcases List.mem_append.mp hc with h | h
  · exact ((char_facts c).1 (r.method_token.2 c h)).1
  rcases List.mem_cons.mp h with rfl | h
  · exact constant_facts.2.1
  rcases List.mem_append.mp h with h | h
  · exact ((char_facts c).2.1 (r.target_visible.2 c h)).1
  rcases List.mem_cons.mp h with rfl | h
  · exact constant_facts.2.1
  · exact constant_facts.2.2.1 c h

/-! ## Lines -/

theorem crlfLines_cons {c : UInt8} (hc : c ≠ 13) (line s : Bytes) :
    crlfLines line (c :: s) = crlfLines (line ++ [c]) s := by
  cases s with
  | nil => rfl
  | cons d s => rw [crlfLines, if_neg fun h => hc h.1]

/-- A line without CR is read to its end. -/
theorem crlfLines_append {l : Bytes} (hl : (13 : UInt8) ∉ l) :
    ∀ line s : Bytes, crlfLines line (l ++ s) = crlfLines (line ++ l) s := by
  induction l with
  | nil => intro line s; rw [List.nil_append, List.append_nil]
  | cons c l ih =>
    intro line s
    have hc : c ≠ 13 := fun h => hl (by rw [h]; exact List.mem_cons_self)
    rw [List.cons_append, crlfLines_cons hc, ih fun h => hl (List.mem_cons_of_mem c h),
      List.append_assoc, List.singleton_append]

/-- **The lines of a header block** are those it was made of. -/
theorem crlfLines_block :
    ∀ {lines : List Bytes} {l : Bytes}, (13 : UInt8) ∉ l → (∀ m ∈ lines, (13 : UInt8) ∉ m) →
      crlfLines [] (l ++ lines.flatMap (crlf ++ ·)) = l :: lines := by
  intro lines
  induction lines with
  | nil =>
    intro l hl _
    rw [crlfLines_append hl]
    rfl
  | cons m lines ih =>
    intro l hl hlines
    rw [crlfLines_append hl, List.flatMap_cons, List.append_assoc]
    show l :: crlfLines [] (m ++ lines.flatMap (crlf ++ ·)) = l :: m :: lines
    rw [ih (hlines m List.mem_cons_self) fun k hk => hlines k (List.mem_cons_of_mem m hk)]

/-- **No empty line** in a header block whose lines are not empty. -/
theorem block_free :
    ∀ {lines : List Bytes} {l : Bytes}, (∀ c ∈ l, inLine c = true) →
      (∀ m ∈ lines, m ≠ [] ∧ ∀ c ∈ m, inLine c = true) →
      Free headerEnd (l ++ lines.flatMap (crlf ++ ·) ++ [13, 10, 13]) := by
  have hout : ∀ {m : Bytes}, (∀ c ∈ m, inLine c = true) → ∀ c ∈ m, c ∉ headerEnd := by
    intro m hm c hc hmem
    have h := (inLine_iff.mp (hm c hc)).1
    simp only [headerEnd, List.mem_cons, List.not_mem_nil, or_false] at hmem
    rcases hmem with h' | h' | h' | h'
    · exact h.1 h'
    · exact h.2 h'
    · exact h.1 h'
    · exact h.2 h'
  have hne : headerEnd ≠ [] := List.cons_ne_nil _ _
  intro lines
  induction lines with
  | nil =>
    intro l hl _
    rw [List.flatMap_nil, List.append_nil]
    exact Free.append_of_not_mem hne (hout hl) constant_facts.2.2.2.2.2.1
  | cons m lines ih =>
    intro l hl hlines
    obtain ⟨hm, hml⟩ := hlines m List.mem_cons_self
    have hrest := ih hml fun k hk => hlines k (List.mem_cons_of_mem m hk)
    rw [List.flatMap_cons, List.append_assoc, List.append_assoc, List.append_assoc, ← List.append_assoc m]
    refine Free.append_of_not_mem hne (hout hl) fun h => ?_
    rcases List.infix_cons_iff.mp h with hstart | h
    · -- behind CR LF the line `m` begins, not another CR
      obtain ⟨c, m', rfl⟩ := List.exists_cons_of_ne_nil hm
      have h2 := (List.cons_prefix_cons.mp (List.cons_prefix_cons.mp hstart).2).2
      have hc : (13 : UInt8) = c := (List.cons_prefix_cons.mp h2).1
      exact (inLine_iff.mp (hml c List.mem_cons_self)).1.1 hc.symm
    rcases List.infix_cons_iff.mp h with hstart | h
    · exact absurd (List.cons_prefix_cons.mp hstart).1 (by decide)
    · exact hrest h

/-! ## Headers -/

theorem dropWhile_blanks {blanks s : Bytes} (h : ∀ c ∈ blanks, isHeaderBlank c = true)
    (hs : ∀ c ∈ s.head?, isHeaderBlank c = false) : (blanks ++ s).dropWhile isHeaderBlank = s := by
  induction blanks with
  | nil =>
    cases s with
    | nil => rfl
    | cons c s =>
      rw [List.nil_append, List.dropWhile_cons_of_neg]
      rw [hs c rfl]
      exact Bool.false_ne_true
  | cons c blanks ih =>
    rw [List.cons_append, List.dropWhile_cons_of_pos (h c List.mem_cons_self)]
    exact ih fun d hd => h d (List.mem_cons_of_mem c hd)

/-- **Trimming** removes the blanks around a value. -/
theorem HeaderField.trim (f : HeaderField) : trimHeaderValue (f.before ++ (f.value ++ f.after)) = f.value := by
  have hbefore : ∀ c ∈ f.before, isHeaderBlank c = true := fun c hc => f.blanks c (List.mem_append_left _ hc)
  have hafter : ∀ c ∈ f.after.reverse, isHeaderBlank c = true := fun c hc =>
    f.blanks c (List.mem_append_right _ (List.mem_reverse.mp hc))
  show (((f.before ++ (f.value ++ f.after)).dropWhile isHeaderBlank).reverse.dropWhile
    isHeaderBlank).reverse = f.value
  rcases List.eq_nil_or_concat f.value with hnil | ⟨v, c, hv⟩
  · -- all blanks: nothing is left
    have hall : ((f.before ++ (f.value ++ f.after)).dropWhile isHeaderBlank) = [] := by
      rw [hnil, List.nil_append, List.dropWhile_eq_nil_iff]
      exact f.blanks
    rw [hall, hnil]
    rfl
  · have hfirst : ∀ c ∈ (f.value ++ f.after).head?, isHeaderBlank c = false := by
      intro d hd
      refine f.value_trimmed.1 d ?_
      rwa [List.head?_append_of_ne_nil] at hd
      rw [hv, List.concat_eq_append]
      exact List.append_ne_nil_of_right_ne_nil v (List.cons_ne_nil c [])
    have hlast : ∀ c ∈ f.value.reverse.head?, isHeaderBlank c = false := by
      rw [List.head?_reverse]
      exact f.value_trimmed.2
    rw [dropWhile_blanks hbefore hfirst, List.reverse_append, dropWhile_blanks hafter hlast,
      List.reverse_reverse]

/-- The five names differ. -/
theorem names_distinct :
    [str "Authorization", str "X-Request-Id", str "X-Session-Id", str "Origin",
      str "Idempotency-Key"].Nodup := by
  decide

/-- **One header line**: each recognized value changes with its own name only. -/
theorem applyHeader_line (request : GatewayRequest) (f : HeaderField) :
    applyHeader request f.line =
      { request with
        authToken := if f.name == str "Authorization" && (str "Bearer ").isPrefixOf f.value then
          f.value.drop 7 else request.authToken
        requestId := if f.name == str "X-Request-Id" then f.value else request.requestId
        sessionId := if f.name == str "X-Session-Id" then f.value else request.sessionId
        origin := if f.name == str "Origin" then f.value else request.origin
        idempotencyKey := if f.name == str "Idempotency-Key" then f.value
          else request.idempotencyKey } := by
  have hcolon : f.line.contains (chr ':') = true :=
    List.contains_iff_mem.mpr (List.mem_append_right _ List.mem_cons_self)
  have hname : f.line.takeWhile (· ≠ chr ':') = f.name := by
    refine Lib.Separated.takeWhile_stretch (fun c hc => ?_) (by simp)
    exact decide_eq_true ((char_facts c).1 (f.name_token.2 c hc)).2.1
  have hvalue : f.line.drop (f.name.length + 1) = f.before ++ (f.value ++ f.after) := by
    unfold HeaderField.line
    rw [List.drop_append, List.drop_of_length_le (Nat.le_succ _), Nat.add_sub_cancel_left]
    rfl
  have hdistinct := names_distinct
  simp only [List.nodup_cons, List.mem_cons, List.not_mem_nil, or_false, not_or] at hdistinct
  obtain ⟨⟨hAR, hAS, hAO, hAI⟩, ⟨hRS, hRO, hRI⟩, ⟨hSO, hSI⟩, hOI, -⟩ := hdistinct
  unfold applyHeader
  rw [if_pos hcolon, hname]
  dsimp only
  rw [hvalue, f.trim]
  by_cases hA : f.name = str "Authorization"
  · by_cases hB : str "Bearer " <+: f.value
    · simp [hA, hB, hAR, hAS, hAO, hAI]
    · simp [hA, hB, hAR, hAS, hAO, hAI]
  by_cases hR : f.name = str "X-Request-Id"
  · simp [hR, Ne.symm hAR, hRS, hRO, hRI]
  by_cases hS : f.name = str "X-Session-Id"
  · simp [hS, Ne.symm hAS, Ne.symm hRS, hSO, hSI]
  by_cases hO : f.name = str "Origin"
  · simp [hO, Ne.symm hAO, Ne.symm hRO, Ne.symm hSO, hOI]
  by_cases hI : f.name = str "Idempotency-Key"
  · simp [hI, Ne.symm hAI, Ne.symm hRI, Ne.symm hSI, Ne.symm hOI]
  · simp [hA, hR, hS, hO, hI]

theorem lastValue_append_singleton (p : HeaderField → Bool) (fields : List HeaderField) (f : HeaderField) :
    lastValue p (fields ++ [f]) = if p f then f.value else lastValue p fields := by
  unfold lastValue
  rw [List.filter_append]
  cases hp : p f with
  | true => simp [hp]
  | false => simp [hp]

/-- **The header loop** takes the last value of each name, spelled as the code spells it. -/
theorem foldl_applyHeader (method : GatewayMethod) (path body : Bytes) (fields : List HeaderField) :
    (fields.map HeaderField.line).foldl applyHeader { method, path, body } =
      (recognized (· == ·) fields).request method path body := by
  induction fields using List.reverseRecOn with
  | nil => rfl
  | append_singleton fields f ih =>
    rw [List.map_append, List.foldl_append, ih]
    show applyHeader _ f.line = _
    rw [applyHeader_line]
    unfold recognized Recognized.request
    simp only [lastValue_append_singleton]
    split_ifs <;> rfl

/-! ## One request's bytes -/

namespace HttpRequest

theorem head_nul (r : HttpRequest) : (0 : UInt8) ∉ r.head := by
  intro h
  rcases List.mem_append.mp h with h | h
  · exact (inLine_iff.mp (r.startLine_inLine 0 h)).2 rfl
  · obtain ⟨l, hl, h⟩ := List.mem_flatMap.mp h
    obtain ⟨f, -, rfl⟩ := List.mem_map.mp hl
    rcases List.mem_append.mp h with h | h
    · exact constant_facts.2.2.2.2.1 0 h rfl
    · exact (inLine_iff.mp (f.line_inLine 0 h)).2 rfl

theorem head_free (r : HttpRequest) : Free headerEnd (r.head ++ headerEnd.dropLast) := by
  rw [constant_facts.2.2.2.2.2.2.1]
  refine block_free r.startLine_inLine fun m hm => ?_
  obtain ⟨f, -, rfl⟩ := List.mem_map.mp hm
  exact ⟨fun h => List.cons_ne_nil _ _ (List.append_eq_nil_iff.mp h).2, f.line_inLine⟩

theorem find_head (r : HttpRequest) (b : Bytes) :
    firstInfix headerEnd (r.head ++ (headerEnd ++ b)) = some (r.head, headerEnd ++ b) :=
  firstInfix_append (List.cons_ne_nil _ _) r.head_free

theorem head_lines (r : HttpRequest) :
    crlfLines [] r.head = r.startLine :: r.headers.map HeaderField.line := by
  have hline : ∀ {l : Bytes}, (∀ c ∈ l, inLine c = true) → (13 : UInt8) ∉ l := fun hl h =>
    (inLine_iff.mp (hl 13 h)).1.1 rfl
  refine crlfLines_block (hline r.startLine_inLine) fun m hm => ?_
  obtain ⟨f, -, rfl⟩ := List.mem_map.mp hm
  exact hline f.line_inLine

theorem requestLine_startLine (r : HttpRequest) : requestLine r.startLine = some (r.method, r.target) := by
  have hmethod : r.startLine.takeWhile (· ≠ chr ' ') = r.method := by
    refine Lib.Separated.takeWhile_stretch (fun c hc => ?_) (by simp)
    exact decide_eq_true ((char_facts c).1 (r.method_token.2 c hc)).2.2
  have hbehind : r.startLine.drop (r.method.length + 1) = r.target ++ chr ' ' :: str "HTTP/1.1" := by
    unfold startLine
    rw [List.drop_append, List.drop_of_length_le (Nat.le_succ _), Nat.add_sub_cancel_left]
    rfl
  have htarget : (r.target ++ chr ' ' :: str "HTTP/1.1").takeWhile (· ≠ chr ' ') = r.target := by
    refine Lib.Separated.takeWhile_stretch (fun c hc => ?_) (by simp)
    exact decide_eq_true ((char_facts c).2.1 (r.target_visible.2 c hc)).2
  have hblank : (r.target ++ chr ' ' :: str "HTTP/1.1").contains (chr ' ') = true :=
    List.contains_iff_mem.mpr (List.mem_append_right _ List.mem_cons_self)
  have hne : r.target.isEmpty = false := by
    rw [List.isEmpty_eq_false_iff]
    exact r.target_visible.1
  unfold requestLine
  simp only [hmethod, hbehind, htarget, hblank, hne]
  rfl

/-- **Reading the bytes** of a request whatever follows its header block. -/
theorem parseHttpRequest_text (r : HttpRequest) (b : Bytes) :
    parseHttpRequest (r.head ++ (headerEnd ++ b)) =
      if b.contains 0 then Status.parse "sc.gateway_http.embedded_nul"
      else match methodNamed r.method with
        | none => Status.parse "sc.gateway_http.unsupported_method"
        | some method => .ok ((recognized (· == ·) r.headers).request method r.target b) := by
  have hne : (r.head ++ (headerEnd ++ b)).isEmpty = false := by
    rw [List.isEmpty_eq_false_iff]
    exact fun h => List.cons_ne_nil _ _ (List.append_eq_nil_iff.mp (List.append_eq_nil_iff.mp h).2).1
  have hnul : (r.head ++ (headerEnd ++ b)).contains 0 = b.contains 0 := by
    have hhead : r.head.contains 0 = false := by
      rw [Bool.eq_false_iff]
      exact fun h => r.head_nul (List.contains_iff_mem.mp h)
    have hend : headerEnd.contains 0 = false := rfl
    rw [List.contains_append, List.contains_append, hhead, hend, Bool.false_or, Bool.false_or]
  unfold parseHttpRequest
  rw [hne, hnul, if_neg Bool.false_ne_true, r.find_head b]
  simp only [r.head_lines, r.requestLine_startLine]
  split
  · rfl
  cases methodNamed r.method with
  | none => rfl
  | some method => exact congrArg Except.ok (foldl_applyHeader method r.target b r.headers)

end HttpRequest

/-! ## The announced length -/

/-- `Announces head n` — READ AS PLAIN BYTES, the head announces `n`: the first `Content-Length:` that
    occurs anywhere in it is followed by blanks and the digits of `n`; none occurring announces 0. -/
inductive Announces (head : Bytes) : Nat → Prop
  | nowhere (h : Free contentLengthHeader head) : Announces head 0
  | first {front blanks digits behind : Bytes}
      (hhead : head = front ++ (contentLengthHeader ++ (blanks ++ (digits ++ behind))))
      (hfirst : Free contentLengthHeader (front ++ contentLengthHeader.dropLast))
      (hblanks : ∀ c ∈ blanks, isHeaderBlank c = true) (hne : digits ≠ [])
      (hdigits : ∀ c ∈ digits, isDigit c = true) (hbehind : endsLength behind = true) :
      Announces head (decimalValue digits)

/-- The number read so far only grows. -/
theorem le_foldl_digits (digits : Bytes) :
    ∀ value : Nat, value ≤ digits.foldl (fun n c => 10 * n + (c.toNat - 48)) value := by
  induction digits with
  | nil => exact Nat.le_refl
  | cons c digits ih =>
    intro value
    have h := ih (10 * value + (c.toNat - 48))
    rw [List.foldl_cons]
    omega

/-- The digit loop reads all digits when they stay below `2 ^ 64`. -/
theorem scanLength_digits {behind : Bytes} (hbehind : ∀ c ∈ behind.head?, isDigit c = false) :
    ∀ {digits : Bytes} {value : Nat}, (∀ c ∈ digits, isDigit c = true) →
      digits.foldl (fun n c => 10 * n + (c.toNat - 48)) value < 2 ^ 64 →
      scanLength value (digits ++ behind) =
        some (digits.foldl (fun n c => 10 * n + (c.toNat - 48)) value, behind) := by
  intro digits
  induction digits with
  | nil =>
    intro value _ _
    cases behind with
    | nil => rfl
    | cons c behind =>
      rw [List.nil_append, scanLength, if_neg]
      · rfl
      · rw [hbehind c rfl]
        exact Bool.false_ne_true
  | cons c digits ih =>
    intro value hdigits hsmall
    have hnext := le_foldl_digits digits (10 * value + (c.toNat - 48))
    rw [List.foldl_cons] at hsmall
    rw [List.cons_append, scanLength, if_pos (hdigits c List.mem_cons_self), if_neg (by omega),
      ih (fun d hd => hdigits d (List.mem_cons_of_mem c hd)) hsmall]
    rfl

/-- What the digit loop reads are digits. -/
theorem scanLength_some :
    ∀ {text : Bytes} {value number : Nat} {rest : Bytes}, scanLength value text = some (number, rest) →
      ∃ digits, text = digits ++ rest ∧ (∀ c ∈ digits, isDigit c = true) ∧
        number = digits.foldl (fun n c => 10 * n + (c.toNat - 48)) value := by
  intro text
  induction text with
  | nil =>
    intro value number rest h
    cases h
    exact ⟨[], rfl, fun c hc => absurd hc List.not_mem_nil, rfl⟩
  | cons c text ih =>
    intro value number rest h
    rw [scanLength] at h
    by_cases hc : isDigit c = true
    · rw [if_pos hc] at h
      split at h
      · cases h
      · obtain ⟨digits, htext, hdigits, hnumber⟩ := ih h
        refine ⟨c :: digits, by rw [htext, List.cons_append], fun d hd => ?_, hnumber⟩
        rcases List.mem_cons.mp hd with rfl | hd
        · exact hc
        · exact hdigits d hd
    · rw [if_neg hc] at h
      cases h
      exact ⟨[], rfl, fun d hd => absurd hd List.not_mem_nil, rfl⟩

/-- What ends the digits is none. -/
theorem endsLength_head {behind : Bytes} (h : endsLength behind = true) :
    ∀ c ∈ behind.head?, isDigit c = false := by
  intro c hc
  obtain ⟨rest, rfl⟩ : ∃ rest, behind = c :: rest := List.head?_eq_some_iff.mp hc
  rw [Bool.eq_false_iff]
  intro hdigit
  have hfacts := (char_facts c).2.2.2.2 hdigit
  have hends : (c == 13 || isHeaderBlank c) = true := h
  rw [hfacts.1, Bool.or_false] at hends
  exact hfacts.2 (beq_iff_eq.mp hends)

/-- **The length the code reads** is the one the bytes announce. -/
theorem gatewayHttpContentLength_iff {head : Bytes} {n : Nat} (hn : n < 2 ^ 64) :
    gatewayHttpContentLength head = some n ↔ Announces head n := by
  have hname : contentLengthHeader ≠ [] := fun h =>
    absurd (congrArg List.length h) (by rw [constant_facts.2.2.2.2.2.2.2.1]; decide)
  constructor
  · intro h
    unfold gatewayHttpContentLength at h
    split at h
    · rename_i hnone
      cases h
      exact .nowhere ((firstInfix_eq_none hname).mp hnone)
    · rename_i front found hfound
      obtain ⟨hhead, ⟨text, htext⟩, hfirst⟩ := firstInfix_eq_some hname hfound
      rw [← htext, List.drop_left] at h
      unfold lengthValue at h
      split at h
      · cases h
      · rename_i value rest hscan
        obtain ⟨digits, hdigits, hall, rfl⟩ := scanLength_some hscan
        rw [hdigits] at h
        have hne : digits ≠ [] := by
          rintro rfl
          rw [List.nil_append, if_pos rfl] at h
          cases h
        have hlength : rest.length ≠ (digits ++ rest).length := by
          have := List.length_pos_iff.mpr hne
          rw [List.length_append]
          omega
        rw [if_neg hlength] at h
        split at h
        · rename_i hends
          cases h
          have hparts : head = front ++ (contentLengthHeader ++
              (text.takeWhile isHeaderBlank ++ (digits ++ rest))) := by
            rw [← hdigits, List.takeWhile_append_dropWhile, htext, hhead]
          exact .first hparts hfirst (fun c hc => List.mem_takeWhile_imp hc) hne hall hends
        · cases h
  · intro h
    unfold gatewayHttpContentLength
    cases h with
    | nowhere hfree => rw [(firstInfix_eq_none hname).mpr hfree]
    | @first front blanks digits behind hhead hfirst hblanks hne hdigits hbehind =>
      have hstart : ∀ c ∈ (digits ++ behind).head?, isHeaderBlank c = false := by
        intro c hc
        rw [List.head?_append_of_ne_nil _ hne] at hc
        exact ((char_facts c).2.2.2.2 (hdigits c (List.mem_of_mem_head? hc))).1
      have hlength : behind.length ≠ (digits ++ behind).length := by
        have := List.length_pos_iff.mpr hne
        rw [List.length_append]
        omega
      rw [hhead, firstInfix_append hname hfirst]
      show lengthValue ((contentLengthHeader ++ (blanks ++ (digits ++ behind))).drop
        contentLengthHeader.length) = _
      rw [List.drop_left, lengthValue, dropWhile_blanks hblanks hstart,
        scanLength_digits (endsLength_head hbehind) hdigits hn]
      show (if behind.length = (digits ++ behind).length then none
        else if endsLength behind then some (decimalValue digits) else none) = _
      rw [if_neg hlength, if_pos hbehind]

/-! ## Completeness of a request's bytes -/

namespace HttpRequest

/-- With the header block in the buffer, the announced length decides. -/
theorem complete_text (r : HttpRequest) (b : Bytes) :
    gatewayHttpRequestComplete (r.head ++ (headerEnd ++ b)) =
      match gatewayHttpContentLength r.head with
      | none => .invalid
      | some length =>
        if 2 ^ 64 ≤ r.head.length + 4 + length then .invalid
        else if length ≤ b.length then .complete else .incomplete := by
  unfold gatewayHttpRequestComplete
  rw [r.find_head b]
  dsimp only
  cases gatewayHttpContentLength r.head with
  | none => rfl
  | some length =>
    dsimp only
    have hsize : r.head.length + 4 + length ≤ (r.head ++ (headerEnd ++ b)).length ↔ length ≤ b.length := by
      rw [List.length_append, List.length_append]
      show r.head.length + 4 + length ≤ r.head.length + (4 + b.length) ↔ _
      omega
    simp only [hsize]

/-- A complete buffer holds the length the code reads. -/
theorem length_of_complete (r : HttpRequest) {b : Bytes}
    (h : gatewayHttpRequestComplete (r.head ++ (headerEnd ++ b)) = .complete) :
    ∃ length, gatewayHttpContentLength r.head = some length ∧ length ≤ b.length := by
  rw [r.complete_text] at h
  cases hlength : gatewayHttpContentLength r.head with
  | none =>
    rw [hlength] at h
    cases h
  | some length =>
    rw [hlength] at h
    dsimp only at h
    split at h
    · cases h
    split at h
    · exact ⟨length, rfl, by assumption⟩
    · cases h

theorem text_ne_nil (r : HttpRequest) (b : Bytes) : r.head ++ (headerEnd ++ b) ≠ [] := fun h =>
  List.cons_ne_nil _ _ (List.append_eq_nil_iff.mp (List.append_eq_nil_iff.mp h).2).1

theorem length_text (r : HttpRequest) : r.text.length = r.head.length + (4 + r.body.length) := by
  unfold text
  rw [List.length_append, List.length_append]
  rfl

/-- Before the end of the header block a buffer is incomplete. -/
theorem complete_early (r : HttpRequest) {p : Bytes} (hp : p <+: r.text)
    (hshort : p.length < r.head.length + 4) : gatewayHttpRequestComplete p = .incomplete := by
  have hfront : p <+: r.head ++ headerEnd.dropLast := by
    refine List.prefix_of_prefix_length_le hp ?_ ?_
    · exact (List.prefix_append_right_inj r.head).mpr
        ((List.dropLast_prefix headerEnd).trans (List.prefix_append headerEnd r.body))
    · rw [List.length_append]
      show p.length ≤ r.head.length + 3
      omega
  have hne : headerEnd ≠ [] := List.cons_ne_nil _ _
  have hfree : Free headerEnd p := fun h => r.head_free (h.trans hfront.isInfix)
  unfold gatewayHttpRequestComplete
  rw [(firstInfix_eq_none hne).mpr hfree]

/-- **Every proper part** of a request is incomplete, when the code reads its length. -/
theorem complete_part (r : HttpRequest) {p rest : Bytes} (h : p ++ rest = r.text) (hrest : rest ≠ [])
    (hlength : gatewayHttpContentLength r.head = some r.body.length) (hfits : r.text.length < 2 ^ 64) :
    gatewayHttpRequestComplete p = .incomplete := by
  by_cases hshort : p.length < r.head.length + 4
  · exact r.complete_early ⟨rest, h⟩ hshort
  · -- the header block is there, and `b` of the body
    have hpos := List.length_pos_iff.mpr hrest
    have hwhole : (r.head ++ headerEnd) ++ r.body = p ++ rest := by rw [h, List.append_assoc]; rfl
    obtain ⟨b, rfl, hbody⟩ : ∃ b, p = (r.head ++ headerEnd) ++ b ∧ r.body = b ++ rest := by
      rcases List.append_eq_append_iff.mp hwhole with ⟨b, hb, hbody⟩ | ⟨b, hb, -⟩
      · exact ⟨b, hb, hbody⟩
      · have hlen := congrArg List.length hb
        rw [List.length_append, List.length_append] at hlen
        have hb0 : b = [] := List.length_eq_zero_iff.mp (by
          have : headerEnd.length = 4 := rfl
          omega)
        rw [hb0, List.append_nil] at hb
        refine ⟨[], by rw [List.append_nil, hb], ?_⟩
        rw [← hb] at hwhole
        exact List.append_cancel_left hwhole
    have hlen := congrArg List.length hbody
    rw [List.length_append] at hlen
    have htotal := r.length_text
    rw [List.append_assoc, r.complete_text, hlength]
    dsimp only
    rw [if_neg (by omega), if_neg (by omega)]

end HttpRequest

/-! ## Delivery -/

/-- The bytes an activity brings to the connection. -/
def Activity.bytes : Activity E → Bytes
  | .read _ chunk => chunk
  | _ => []

/-- A read brings something, and reading does not fail. -/
def Activity.ordinary : Activity E → Bool
  | .read _ chunk => !chunk.isEmpty
  | .failed => false
  | .written | .elsewhere .. => true

/-- The stream is delivered: non-empty reads that make it up, with anything but a failure between
    them. -/
structure Delivers (activities : List (Activity E)) (stream : Bytes) : Prop where
  whole : activities.flatMap Activity.bytes = stream
  ordinary : ∀ a ∈ activities, a.ordinary = true

/-- **Framed once**: the stream that begins with `r` and continues with `extra` has `r` handled, and
    nothing else, however it is delivered. -/
def FramedOnce (sv : Services E C D) (server : Server C) (r : HttpRequest) (extra : Bytes) : Prop :=
  ∃ request, r.meaning = some request ∧ ∀ activities : List (Activity E),
    Delivers activities (r.text ++ extra) →
      (run (connectionStep sv) (.accepted server) activities).handled = [request]

/-- The limits of the server admit a request of `total` bytes. -/
def withinLimits (server : Server C) (total : Nat) : Prop :=
  server.maxBodyBytes + maxHeaderBytes < 2 ^ 64 ∧ total ≤ server.maxBodyBytes + maxHeaderBytes

section Steps

variable (sv : Services E C D)

/-- No call changes the body limit. -/
theorem callStep_maxBodyBytes (server : Server C) (call : E × Call) :
    (callStep sv server call).maxBodyBytes = server.maxBodyBytes := by
  have hrequest : ∀ (env : E) (server : Server C) (request : GatewayRequest),
      (handleRequest sv env server request).1.maxBodyBytes = server.maxBodyBytes := by
    intro env server request
    obtain ⟨_, _, _, _, _, _, _, _, _, _, -, hframe⟩ := handleRequest_framed sv env server request
    rw [hframe]
  obtain ⟨env, call⟩ := call
  cases call with
  | http raw =>
    simp only [callStep, handleHttp]
    cases parseHttpRequest raw with
    | error e => rfl
    | ok request => exact hrequest env server request
  | request request => exact hrequest env server request
  | jsonrpc requestJson =>
    obtain ⟨_, _, _, _, _, _, _, _, _, _, -, hframe⟩ :=
      jsonrpcHandleWith_framed (handleRequest_framed sv env) server requestJson
    show (jsonrpcHandleWith (handleRequest sv env) server requestJson).1.maxBodyBytes = _
    rw [hframe]
  | websocket text authToken sessionId =>
    simp only [callStep, websocketReceiveText]
    split
    · rfl
    split
    · rw [sessionRemove_fst]
      split <;> rfl
    split
    · rfl
    split
    · rfl
    · exact hrequest env _ _

theorem respond_handled (env : E) (conn : Connection C) :
    (respond sv env conn).handled = conn.handled ++ handedOn conn.request := rfl

/-- **What a read has handled**: the whole buffer, when the read fits and completes it. -/
theorem gatewayReadCb_handled (env : E) (conn : Connection C) {chunk : Bytes} (hchunk : chunk ≠ []) :
    (gatewayReadCb sv env conn chunk).handled = conn.handled ++
      if tooLarge conn chunk = false ∧ gatewayHttpRequestComplete (conn.request ++ chunk) = .complete then
        handedOn (conn.request ++ chunk) else [] := by
  have hempty : chunk.isEmpty = false := by rwa [List.isEmpty_eq_false_iff]
  unfold gatewayReadCb
  rw [hempty, Bool.not_false, Bool.true_and]
  cases hlarge : tooLarge conn chunk with
  | true => rw [if_pos rfl, if_neg (fun h => Bool.false_ne_true h.1.symm), List.append_nil]
  | false =>
    rw [if_neg Bool.false_ne_true]
    cases hcomplete : gatewayHttpRequestComplete (conn.request ++ chunk) with
    | incomplete =>
      rw [if_neg (by rintro ⟨-, h⟩; cases h), List.append_nil]
    | invalid =>
      rw [if_neg (by rintro ⟨-, h⟩; cases h), List.append_nil]
    | complete =>
      rw [if_pos ⟨rfl, rfl⟩]
      rfl

/-- Nothing is handled without a read. -/
theorem connectionStep_quiet (conn : Connection C) {a : Activity E} (hbytes : a.bytes = [])
    (hordinary : a.ordinary = true) : (connectionStep sv conn a).handled = conn.handled := by
  cases a with
  | read env chunk =>
    -- an ordinary read brings bytes
    rw [show chunk = [] from hbytes] at hordinary
    cases hordinary
  | failed => rfl
  | written =>
    show (gatewayWriteCb conn).handled = conn.handled
    unfold gatewayWriteCb
    split <;> rfl
  | elsewhere env call => rfl

/-- The list of handled requests only grows. -/
theorem connectionStep_handled_prefix (conn : Connection C) {a : Activity E} (ha : a.ordinary = true) :
    conn.handled <+: (connectionStep sv conn a).handled := by
  by_cases hbytes : a.bytes = []
  · rw [connectionStep_quiet sv conn hbytes ha]
  · cases a with
    | read env chunk =>
      show conn.handled <+: (if conn.closed then conn else gatewayReadCb sv env conn chunk).handled
      split
      · exact List.prefix_rfl
      · have hchunk : chunk ≠ [] := hbytes
        rw [gatewayReadCb_handled sv env conn hchunk]
        exact List.prefix_append _ _
    | failed => exact absurd rfl hbytes
    | written => exact absurd rfl hbytes
    | elsewhere env call => exact absurd rfl hbytes

/-- **A run without reads** handles nothing. -/
theorem run_quiet {activities : List (Activity E)} (conn : Connection C)
    (h : Delivers activities []) :
    (run (connectionStep sv) conn activities).handled = conn.handled := by
  refine run_invariant (I := fun c : Connection C => c.handled = conn.handled)
    (G := fun _ a => a.bytes = [] ∧ a.ordinary = true) ?_ activities conn rfl ?_
  · intro c a hc ha
    rw [connectionStep_quiet sv c ha.1 ha.2, hc]
  · refine eachStep_of_forall fun a ha => ⟨?_, h.ordinary a ha⟩
    exact List.flatMap_eq_nil_iff.mp h.whole a ha

/-! ## One request, however it arrives -/

/-- The connection has read `p`, and nothing has been handled. -/
structure Waiting (limit : Nat) (p : Bytes) (conn : Connection C) : Prop where
  request : conn.request = p
  opened : conn.closed = false
  unanswered : conn.writes = []
  idle : conn.handled = []
  limited : conn.server.maxBodyBytes = limit

/-- A read of a stream within the limits fits. -/
theorem Waiting.fits {limit : Nat} {p chunk : Bytes} {conn : Connection C} (h : Waiting limit p conn)
    (hlimit : limit + maxHeaderBytes < 2 ^ 64)
    (hsize : p.length + chunk.length ≤ limit + maxHeaderBytes) : tooLarge conn chunk = false := by
  unfold tooLarge
  rw [h.limited, h.request, Bool.or_eq_false_iff, decide_eq_false_iff_not, decide_eq_false_iff_not]
  constructor <;> omega

/-- The request is read and its length understood. -/
structure Understood (server : Server C) (r : HttpRequest) : Prop where
  limits : withinLimits server r.text.length
  length : gatewayHttpContentLength r.head = some r.body.length

/-- **The whole request** completes the buffer. -/
theorem Understood.complete {server : Server C} {r : HttpRequest} (h : Understood server r) :
    gatewayHttpRequestComplete r.text = .complete := by
  have htotal := r.length_text
  have hlimit := h.limits.1
  have hsize := h.limits.2
  unfold HttpRequest.text
  rw [r.complete_text, h.length]
  dsimp only
  rw [if_neg (by omega), if_pos (Nat.le_refl _)]

/-- A read of a waiting connection that fits its limit. -/
theorem connectionStep_read {limit : Nat} {p : Bytes} {conn : Connection C} (h : Waiting limit p conn)
    {env : E} {chunk : Bytes} (hempty : chunk.isEmpty = false) (hfits : tooLarge conn chunk = false) :
    connectionStep sv conn (.read env chunk) =
      match gatewayHttpRequestComplete (p ++ chunk) with
      | .incomplete => { conn with request := p ++ chunk }
      | .invalid => { conn with request := p ++ chunk, closed := true }
      | .complete => respond sv env { conn with request := p ++ chunk } := by
  have hopened : ¬ conn.closed = true := by
    rw [h.opened]
    exact Bool.false_ne_true
  show (if conn.closed then conn else gatewayReadCb sv env conn chunk) = _
  rw [if_neg hopened, ← h.request, gatewayReadCb, hempty, hfits, Bool.and_false]
  exact if_neg Bool.false_ne_true

/-- **The run**: a waiting connection handles the request when its last byte arrives, and nothing
    before or after. -/
theorem run_waiting {server : Server C} {r : HttpRequest} (h : Understood server r) :
    ∀ {activities : List (Activity E)} {p rest : Bytes} {conn : Connection C},
      Waiting server.maxBodyBytes p conn → Delivers activities rest → p ++ rest = r.text → rest ≠ [] →
      (run (connectionStep sv) conn activities).handled = handedOn r.text := by
  intro activities
  induction activities with
  | nil =>
    intro p rest conn _ hdelivers _ hrest
    exact absurd hdelivers.whole.symm hrest
  | cons a activities ih =>
    intro p rest conn hwaiting hdelivers hsplit hrest
    have hwhole := hdelivers.whole
    have hlater : ∀ b ∈ activities, b.ordinary = true := fun b hb =>
      hdelivers.ordinary b (List.mem_cons_of_mem a hb)
    show (run (connectionStep sv) (connectionStep sv conn a) activities).handled = _
    cases a with
    | failed => cases hdelivers.ordinary .failed List.mem_cons_self
    | written =>
      -- no response is under way
      have hsame : connectionStep sv conn .written = conn := by
        show gatewayWriteCb conn = conn
        unfold gatewayWriteCb
        rw [hwaiting.unanswered, if_pos (by rfl)]
      rw [hsame]
      exact ih hwaiting ⟨hwhole, hlater⟩ hsplit hrest
    | elsewhere env call =>
      refine ih ⟨hwaiting.request, hwaiting.opened, hwaiting.unanswered, hwaiting.idle, ?_⟩
        ⟨hwhole, hlater⟩ hsplit hrest
      exact (callStep_maxBodyBytes sv conn.server (env, call)).trans hwaiting.limited
    | read env chunk =>
      have hchunk : chunk ≠ [] := by
        rintro rfl
        cases hdelivers.ordinary (.read env []) List.mem_cons_self
      have hempty : chunk.isEmpty = false := by rwa [List.isEmpty_eq_false_iff]
      rw [List.flatMap_cons] at hwhole
      change chunk ++ activities.flatMap Activity.bytes = rest at hwhole
      have htext : (p ++ chunk) ++ activities.flatMap Activity.bytes = r.text := by
        rw [List.append_assoc, hwhole, hsplit]
      have hlimit := h.limits.1
      have hsize := h.limits.2
      have htotal := congrArg List.length htext
      rw [List.length_append, List.length_append] at htotal
      have hfits : tooLarge conn chunk = false := hwaiting.fits hlimit (by omega)
      rw [connectionStep_read sv hwaiting hempty hfits]
      by_cases hlast : activities.flatMap Activity.bytes = []
      · -- the last bytes: everything is there, and no read follows
        rw [hlast, List.append_nil] at htext
        rw [htext, h.complete]
        dsimp only
        rw [run_quiet sv _ ⟨hlast, hlater⟩, respond_handled, hwaiting.idle, List.nil_append]
      · rw [r.complete_part htext hlast h.length (by omega)]
        exact ih ⟨rfl, hwaiting.opened, hwaiting.unanswered, hwaiting.idle, hwaiting.limited⟩
          ⟨rfl, hlater⟩ htext hlast

/-- What `sc_gateway_handle_http` hands on of a request's bytes. -/
theorem handedOn_text (r : HttpRequest) (b : Bytes) {request : GatewayRequest}
    (h : handedOn (r.head ++ (headerEnd ++ b)) = [request]) :
    (0 : UInt8) ∉ b ∧ ∃ method, methodNamed r.method = some method ∧
      request = (recognized (· == ·) r.headers).request method r.target b := by
  unfold handedOn at h
  rw [r.parseHttpRequest_text] at h
  by_cases hnul : b.contains 0 = true
  · rw [if_pos hnul] at h
    cases h
  · rw [if_neg hnul] at h
    cases hmethod : methodNamed r.method with
    | none =>
      rw [hmethod] at h
      cases h
    | some method =>
      rw [hmethod] at h
      cases h
      exact ⟨fun hmem => hnul (List.contains_iff_mem.mpr hmem), method, rfl, rfl⟩

theorem handedOn_of (r : HttpRequest) {b : Bytes} (hnul : (0 : UInt8) ∉ b) {method : GatewayMethod}
    (hmethod : methodNamed r.method = some method) :
    handedOn (r.head ++ (headerEnd ++ b)) =
      [(recognized (· == ·) r.headers).request method r.target b] := by
  have hcontains : ¬ b.contains 0 = true := fun h => hnul (List.contains_iff_mem.mp h)
  unfold handedOn
  rw [r.parseHttpRequest_text, if_neg hcontains, hmethod]

/-! ## The condition -/

/-- **When framing works**: the request is alone in the stream, its body has no NUL, its method is one
    of the four, its head read as plain bytes announces its length, and the headers spelled as the code
    spells them say what all headers of these names say. -/
structure PlainlyFramed (r : HttpRequest) (extra : Bytes) : Prop where
  alone : extra = []
  noNul : (0 : UInt8) ∉ r.body
  method : (methodNamed r.method).isSome = true
  announced : Announces r.head r.body.length
  spelled : recognized (· == ·) r.headers = recognized sameName r.headers

/-- The condition is enough. -/
theorem PlainlyFramed.framedOnce {server : Server C} {r : HttpRequest} {extra : Bytes}
    (h : PlainlyFramed r extra) (hlimits : withinLimits server r.text.length) :
    FramedOnce sv server r extra := by
  obtain ⟨method, hmethod⟩ := Option.isSome_iff_exists.mp h.method
  have hbody : r.body.length < 2 ^ 64 := by
    have hlimit := hlimits.1
    have hsize := hlimits.2
    rw [r.length_text] at hsize
    omega
  have hunderstood : Understood server r :=
    ⟨hlimits, (gatewayHttpContentLength_iff hbody).mpr h.announced⟩
  refine ⟨(recognized sameName r.headers).request method r.target r.body, ?_, fun activities hd => ?_⟩
  · unfold HttpRequest.meaning
    rw [hmethod]
    rfl
  · rw [h.alone, List.append_nil] at hd
    rw [run_waiting sv hunderstood (p := []) ⟨rfl, rfl, rfl, rfl, rfl⟩ hd rfl (r.text_ne_nil _), ← h.spelled]
    exact handedOn_of r h.noNul hmethod

/-- One read of the whole stream. -/
theorem handled_single (env : E) (server : Server C) {stream : Bytes} (hne : stream ≠ []) :
    (run (connectionStep sv) (.accepted server) [Activity.read env stream]).handled =
      if tooLarge (Connection.accepted server) stream = false ∧
          gatewayHttpRequestComplete stream = .complete then handedOn stream else [] := by
  have hstep : run (connectionStep sv) (.accepted server) [Activity.read env stream] =
      gatewayReadCb sv env (.accepted server) stream := rfl
  rw [hstep, gatewayReadCb_handled sv env _ hne]
  show [] ++ (if tooLarge _ stream = false ∧ gatewayHttpRequestComplete ([] ++ stream) = .complete then
    handedOn ([] ++ stream) else []) = _
  rw [List.nil_append, List.nil_append]

theorem ordinary_read {env : E} {chunk : Bytes} (h : chunk ≠ []) :
    (Activity.read env chunk).ordinary = true := by
  show (!chunk.isEmpty) = true
  rw [Bool.not_eq_true', List.isEmpty_eq_false_iff]
  exact h

/-- **A length read too short** is seen by the read that ends there: it has a shorter body handled. -/
theorem length_of_framed [Inhabited E] {server : Server C} {r : HttpRequest} {request : GatewayRequest}
    (hlimits : withinLimits server r.text.length) (hnul : (0 : UInt8) ∉ r.body)
    {method : GatewayMethod} (hmethod : methodNamed r.method = some method)
    (hbody : request.body = r.body) {length : Nat}
    (hlength : gatewayHttpContentLength r.head = some length) (hle : length ≤ r.body.length)
    (hruns : ∀ activities : List (Activity E), Delivers activities r.text →
      (run (connectionStep sv) (.accepted server) activities).handled = [request]) :
    length = r.body.length := by
  by_contra hne
  have hlimit := hlimits.1
  have hsize := hlimits.2
  rw [r.length_text] at hsize
  have hpart : (r.body.take length).length = length := List.length_take_of_le hle
  have hnulPart : (0 : UInt8) ∉ r.body.take length := fun hmem => hnul (List.mem_of_mem_take hmem)
  have hhead : r.head ++ (headerEnd ++ r.body.take length) ≠ [] := r.text_ne_nil _
  have hrest : r.body.drop length ≠ [] := fun hnil => by
    have hdrop := congrArg List.length hnil
    rw [List.length_drop, List.length_nil] at hdrop
    omega
  let first : Activity E := .read default (r.head ++ (headerEnd ++ r.body.take length))
  let second : Activity E := .read default (r.body.drop length)
  have hcut := hruns [first, second] {
    whole := by
      show (r.head ++ (headerEnd ++ r.body.take length)) ++ (r.body.drop length ++ []) = r.text
      rw [List.append_nil, List.append_assoc, List.append_assoc, List.take_append_drop]
      rfl
    ordinary := by
      intro a ha
      rcases List.mem_cons.mp ha with rfl | ha
      · exact ordinary_read hhead
      · rw [List.mem_singleton.mp ha]
        exact ordinary_read hrest }
  have hfits : tooLarge (Connection.accepted server)
      (r.head ++ (headerEnd ++ r.body.take length)) = false := by
    refine Waiting.fits (p := []) ⟨rfl, rfl, rfl, rfl, rfl⟩ hlimit ?_
    rw [List.length_append, List.length_append, hpart]
    show 0 + (r.head.length + (4 + length)) ≤ server.maxBodyBytes + maxHeaderBytes
    omega
  have hcomplete : gatewayHttpRequestComplete (r.head ++ (headerEnd ++ r.body.take length)) =
      .complete := by
    rw [r.complete_text, hlength]
    dsimp only
    rw [if_neg (by omega), if_pos (by omega)]
  have hfirst : (run (connectionStep sv) (.accepted server) [first]).handled = _ :=
    handled_single sv default server hhead
  rw [if_pos ⟨hfits, hcomplete⟩, handedOn_of r hnulPart hmethod] at hfirst
  -- what the first read had handled stays handled
  have hprefix := connectionStep_handled_prefix sv
    (run (connectionStep sv) (.accepted server) [first]) (a := second) (ordinary_read hrest)
  rw [hfirst] at hprefix
  change _ <+: (run (connectionStep sv) (.accepted server) [first, second]).handled at hprefix
  rw [hcut, List.cons_prefix_cons] at hprefix
  have hbodies : r.body.take length = r.body := (congrArg GatewayRequest.body hprefix.1).trans hbody
  have hlengths := congrArg List.length hbodies
  omega

/-- The condition is needed: one read of everything, and one cut where the code sees the end. -/
theorem FramedOnce.plainlyFramed [Inhabited E] {server : Server C} {r : HttpRequest} {extra : Bytes}
    (h : FramedOnce sv server r extra) (hlimits : withinLimits server r.text.length) :
    PlainlyFramed r extra := by
  obtain ⟨request, hmeaning, hruns⟩ := h
  have hstream : r.text ++ extra = r.head ++ (headerEnd ++ (r.body ++ extra)) := by
    unfold HttpRequest.text
    rw [List.append_assoc, List.append_assoc]
  have hne : r.text ++ extra ≠ [] := by
    rw [hstream]
    exact r.text_ne_nil _
  -- everything in one read
  have hwhole := hruns [.read default (r.text ++ extra)] ⟨List.append_nil _, fun a ha => by
    rw [List.mem_singleton.mp ha]
    exact ordinary_read hne⟩
  rw [handled_single sv default server hne, hstream] at hwhole
  split at hwhole
  · rename_i hread
    obtain ⟨hnul, method, hmethod, hrequest⟩ := handedOn_text r _ hwhole
    unfold HttpRequest.meaning at hmeaning
    rw [hmethod, Option.map_some, Option.some_inj, hrequest] at hmeaning
    simp only [Recognized.request, GatewayRequest.mk.injEq] at hmeaning
    obtain ⟨-, -, hbody, hauth, hkey, hid, hsession, horigin⟩ := hmeaning
    have halone : extra = [] := List.self_eq_append_right.mp hbody
    subst halone
    have hspelled : recognized (· == ·) r.headers = recognized sameName r.headers := by
      simp only [recognized, Recognized.mk.injEq]
      exact ⟨hauth.symm, hid.symm, hsession.symm, horigin.symm, hkey.symm⟩
    simp only [List.append_nil] at hread hnul hrequest hruns
    refine ⟨rfl, hnul, by rw [hmethod]; rfl, ?_, hspelled⟩
    obtain ⟨length, hlength, hle⟩ := r.length_of_complete hread.2
    have hexact := length_of_framed sv hlimits hnul hmethod (by rw [hrequest]; rfl) hlength hle hruns
    have hlimit := hlimits.1
    have hsize := hlimits.2
    rw [r.length_text] at hsize
    rw [hexact] at hlength
    exact (gatewayHttpContentLength_iff (by omega)).mp hlength
  · cases hwhole

/-- **Framing**: the request a stream begins with is handled exactly once, the same for every way its
    bytes arrive, exactly when the request is plainly framed. -/
theorem framedOnce_iff [Inhabited E] (server : Server C) (r : HttpRequest) (extra : Bytes)
    (hlimits : withinLimits server r.text.length) :
    FramedOnce sv server r extra ↔ PlainlyFramed r extra := by
  constructor
  · intro h
    exact h.plainlyFramed sv hlimits
  · intro h
    exact h.framedOnce sv hlimits

end Steps

/-- `content-length: 2`, with the name in lower case. -/
def lowerCaseLength : HeaderField where
  name := str "content-length"
  before := str " "
  value := str "2"
  after := []
  name_token := by decide +kernel
  blanks := by decide +kernel
  value_text := by decide +kernel
  value_trimmed := by decide +kernel

/-- A post of two bytes, their number announced in lower case. -/
def lowerCasePost : HttpRequest where
  method := str "POST"
  target := str "/ws/chat"
  headers := [lowerCaseLength]
  body := str "hi"
  method_token := by decide +kernel
  target_visible := by decide +kernel
  length_once := by decide
  length_digits := by decide +kernel
  body_length := by decide

theorem smallGateway_limits : withinLimits smallGateway lowerCasePost.text.length := by
  unfold withinLimits
  decide

theorem lowerCasePost_framed_iff :
    withinLimits smallGateway lowerCasePost.text.length ∧
      (FramedOnce echoServices smallGateway lowerCasePost [] ↔ PlainlyFramed lowerCasePost []) :=
  ⟨smallGateway_limits, framedOnce_iff echoServices smallGateway lowerCasePost [] smallGateway_limits⟩

/-- **Handled twice**: with the name in lower case, a read that ends with the header block has the
    request handled without its body, and the next read has it handled again. -/
theorem lowerCase_handled_twice :
    let reads : List (Activity Int) :=
      [.read 1 (lowerCasePost.head ++ headerEnd), .read 2 lowerCasePost.body]
    Delivers reads lowerCasePost.text ∧
      (run (connectionStep echoServices) (.accepted smallGateway) reads).handled.map GatewayRequest.body =
        [[], str "hi"] ∧
      ¬ FramedOnce echoServices smallGateway lowerCasePost [] := by
  intro reads
  have hreads : Delivers reads lowerCasePost.text := ⟨by decide, by decide⟩
  have hbodies : (run (connectionStep echoServices) (.accepted smallGateway) reads).handled.map
      GatewayRequest.body = [[], str "hi"] := by
    decide
  refine ⟨hreads, hbodies, ?_⟩
  rintro ⟨request, -, hruns⟩
  have hone := hruns reads (by rwa [List.append_nil])
  rw [hone] at hbodies
  have hlengths : 1 = 2 := congrArg List.length hbodies
  omega

end SmolClaw.Gateway
