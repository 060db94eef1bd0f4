/-
  Requests and responses of the gateway (`include/sc/gateway.h`), and their HTTP/1.1 text
  (`parse_http_request` and `write_http_response`, `src/gateway/gateway.c`).

  1. **Request line** — three stretches between blanks; the path is what stands between the first two.
  2. **Headers** — five names count, compared byte by byte; a later header of a name replaces an
     earlier one.
  3. **Body** — EVERYTHING behind the first empty line, whatever its announced length.
-/
import SmolClaw.Core.Text
import SmolClaw.Core.Double
import SmolClaw.Lib.Infix

namespace SmolClaw.Gateway

open Lib.Infix

/-! ## Messages -/

/-- `sc_gateway_method` -/
inductive GatewayMethod where
  | get
  | post
  | put
  | delete
  deriving DecidableEq, Repr

/-- `sc_gateway_request` -/
structure GatewayRequest where
  method : GatewayMethod
  path : Bytes
  body : Bytes := []
  authToken : Bytes := []
  idempotencyKey : Bytes := []
  requestId : Bytes := []
  sessionId : Bytes := []
  origin : Bytes := []
  deriving DecidableEq, Repr

/-- `sc_gateway_response`, filled in (`status` is 0 before). -/
structure GatewayResponse where
  status : Nat
  body : Bytes
  contentType : Bytes
  deriving DecidableEq, Repr

/-- `response_set_typed` -/
def responseSetTyped (status : Nat) (body contentType : Bytes) : GatewayResponse :=
  ⟨status, body, contentType⟩

/-- `response_set` -/
def responseSet (status : Nat) (body : Bytes) : GatewayResponse :=
  responseSetTyped status body (str "text/plain")

/-- `response_copy` -/
def responseCopy (src : GatewayResponse) : GatewayResponse :=
  responseSetTyped src.status src.body
    (if src.contentType.isEmpty then str "text/plain" else src.contentType)

/-- A status from 200 to 299. -/
def GatewayResponse.successful (r : GatewayResponse) : Bool := 200 ≤ r.status && r.status < 300

/-- `route_is_mutation` -/
def routeIsMutation (request : GatewayRequest) : Bool :=
  match request.method with
  | .get => false
  | .post | .put | .delete => true

/-! ## Reading -/

/-- The line end of HTTP. -/
def crlf : Bytes := [13, 10]

/-- The end of the header block. -/
def headerEnd : Bytes := [13, 10, 13, 10]

/-- `trim_header_value` -/
def trimHeaderValue (value : Bytes) : Bytes :=
  let isBlank (c : UInt8) : Bool := c == chr ' ' || c == chr '\t'
  ((value.dropWhile isBlank).reverse.dropWhile isBlank).reverse

/-- The method names. -/
def methodNamed (name : Bytes) : Option GatewayMethod :=
  if name = str "GET" then some .get
  else if name = str "POST" then some .post
  else if name = str "PUT" then some .put
  else if name = str "DELETE" then some .delete
  else none

/-- The request line: the bytes before the first blank, and those between the first two. -/
def requestLine (line : Bytes) : Option (Bytes × Bytes) :=
  let method := line.takeWhile (· ≠ chr ' ')
  let behind := line.drop (method.length + 1)
  let path := behind.takeWhile (· ≠ chr ' ')
  -- a path that is not followed by a blank, or an empty one, is refused
  if behind.contains (chr ' ') && !path.isEmpty then some (method, path) else none

/-- What one header line does to the request; a line without a colon does nothing. -/
def applyHeader (request : GatewayRequest) (line : Bytes) : GatewayRequest :=
  if line.contains (chr ':') then
    let name := line.takeWhile (· ≠ chr ':')
    let value := trimHeaderValue (line.drop (name.length + 1))
    if name = str "Authorization" ∧ str "Bearer " <+: value then
      { request with authToken := value.drop 7 }
    else if name = str "X-Request-Id" then { request with requestId := value }
    else if name = str "X-Session-Id" then { request with sessionId := value }
    else if name = str "Origin" then { request with origin := value }
    else if name = str "Idempotency-Key" then { request with idempotencyKey := value }
    else request
  else request

/-- The lines of a header block, each up to the next CR LF. -/
def crlfLines : Bytes → Bytes → List Bytes
  | line, [] => [line]
  | line, [c] => [line ++ [c]]
  | line, c :: d :: rest =>
    if c = 13 ∧ d = 10 then line :: crlfLines [] rest else crlfLines (line ++ [c]) (d :: rest)

/-- `parse_http_request` -/
def parseHttpRequest (raw : Bytes) : Res GatewayRequest :=
  if raw.isEmpty then Status.invalidArgument "sc.gateway_http.parse_invalid_argument"
  else if raw.contains 0 then Status.parse "sc.gateway_http.embedded_nul"
  else match firstInfix headerEnd raw with
    | none => Status.parse "sc.gateway_http.invalid_request"
    | some (head, behind) =>
      match crlfLines [] head with
      | [] => Status.parse "sc.gateway_http.invalid_request"
      | line :: headers =>
        match requestLine line with
        | none => Status.parse "sc.gateway_http.invalid_request_line"
        | some (method, path) =>
          match methodNamed method with
          | none => Status.parse "sc.gateway_http.unsupported_method"
          | some method =>
            .ok (headers.foldl applyHeader { method, path, body := behind.drop 4 })

/-! ## Writing -/

/-- `write_http_response` -/
def writeHttpResponse (response : GatewayResponse) : Bytes :=
  str "HTTP/1.1 " ++ decimal response.status ++ str "\r\nContent-Type: " ++
    (if response.contentType.isEmpty then str "text/plain" else response.contentType) ++
    str "\r\nContent-Length: " ++ decimal response.body.length ++ headerEnd ++ response.body

end SmolClaw.Gateway
