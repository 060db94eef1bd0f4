/-
  One HTTP connection of the gateway's listener (`gateway_read_cb` and its helpers,
  `src/gateway/gateway.c`).

  1. **Completeness** — the buffer holds a request when it is as long as the header block and the
     length announced in it.  The announcement is the FIRST `Content-Length:` found anywhere in the
     header bytes, compared byte by byte.

  2. **Reading** — every read appends to the buffer, and a complete buffer is handled WHOLE: what lies
     behind the announced length belongs to the body.  Nothing stops the reading when a response is
     queued; the connection is closed when that response has been written.
-/
import SmolClaw.Gateway.Authority

namespace SmolClaw.Gateway

open Lib.Infix Lib.Run

variable {E C D : Type}

/-! ## Completeness -/

/-- The header the completeness check looks for. -/
def contentLengthHeader : Bytes := str "Content-Length:"

/-- The digit loop of `gateway_http_content_length`: the number and what follows it, none on an
    overflow of `size_t`. -/
def scanLength : Nat → Bytes → Option (Nat × Bytes)
  | value, [] => some (value, [])
  | value, c :: s =>
    if isDigit c then
      if 2 ^ 64 ≤ 10 * value + (c.toNat - 48) then none
      else scanLength (10 * value + (c.toNat - 48)) s
    else some (value, c :: s)

/-- A blank or a tab. -/
def isHeaderBlank (c : UInt8) : Bool := c == chr ' ' || c == chr '\t'

/-- What may follow the digits. -/
def endsLength : Bytes → Bool
  | [] => true
  | c :: _ => c == 13 || isHeaderBlank c

/-- The number at the start of the text behind the header's name. -/
def lengthValue (text : Bytes) : Option Nat :=
  match scanLength 0 (text.dropWhile isHeaderBlank) with
  | none => none
  | some (value, rest) =>
    -- as long as before: there was no digit
    if rest.length = (text.dropWhile isHeaderBlank).length then none
    else if endsLength rest then some value else none

/-- `gateway_http_content_length` on the bytes before the header end; none where it returns false. -/
def gatewayHttpContentLength (head : Bytes) : Option Nat :=
  match firstInfix contentLengthHeader head with
  | none => some 0
  | some (_, found) => lengthValue (found.drop contentLengthHeader.length)

/-- What `gateway_http_request_complete` says about a buffer. -/
inductive Completeness where
  | incomplete
  | invalid
  | complete
  deriving DecidableEq, Repr

/-- `gateway_http_request_complete` -/
def gatewayHttpRequestComplete (raw : Bytes) : Completeness :=
  match firstInfix headerEnd raw with
  | none => .incomplete
  | some (head, _) =>
    match gatewayHttpContentLength head with
    | none => .invalid
    | some length =>
      if 2 ^ 64 ≤ head.length + 4 + length then .invalid
      else if head.length + 4 + length ≤ raw.length then .complete
      else .incomplete

/-! ## Reading -/

/-- `gateway_client` with its server, and what became of its requests. -/
structure Connection (C : Type) where
  server : Server C
  /-- the bytes read so far -/
  request : Bytes := []
  /-- `uv_close` was called: libuv delivers no further read -/
  closed : Bool := false
  /-- the responses handed to `uv_write` whose callback is to come -/
  writes : List Bytes := []
  /-- the requests that reached `sc_gateway_handle_request`; the code keeps no such list -/
  handled : List GatewayRequest := []

/-- A client the listener has just accepted. -/
def Connection.accepted (server : Server C) : Connection C := { server }

/-- `max_header_bytes` of `gateway_read_cb` -/
def maxHeaderBytes : Nat := 16 * 1024

/-- The read does not fit: the sum of the limits overflows, or the buffer would exceed it. -/
def tooLarge (conn : Connection C) (chunk : Bytes) : Bool :=
  2 ^ 64 ≤ conn.server.maxBodyBytes + maxHeaderBytes ||
    conn.server.maxBodyBytes + maxHeaderBytes < conn.request.length + chunk.length

/-- The text sent when handling fails. -/
def listenerError : Bytes :=
  str "HTTP/1.1 500\r\nContent-Type: text/plain\r\nContent-Length: 15\r\n\r\nlistener error"

/-- The requests a call of `sc_gateway_handle_http` hands on. -/
def handedOn (raw : Bytes) : List GatewayRequest :=
  match parseHttpRequest raw with
  | .ok request => [request]
  | .error _ => []

section Read

variable (sv : Services E C D)

/-- The end of `gateway_read_cb`: the whole buffer is handled and the response queued. -/
def respond (env : E) (conn : Connection C) : Connection C :=
  { conn with
    server := (handleHttp sv env conn.server conn.request).1
    writes := conn.writes ++ [match (handleHttp sv env conn.server conn.request).2 with
      | .ok response => response
      | .error _ => listenerError]
    handled := conn.handled ++ handedOn conn.request }

/-- `gateway_read_cb`; a read of nothing is `nread = 0`. -/
def gatewayReadCb (env : E) (conn : Connection C) (chunk : Bytes) : Connection C :=
  if !chunk.isEmpty && tooLarge conn chunk then { conn with closed := true }
  else
    match gatewayHttpRequestComplete (conn.request ++ chunk) with
    | .incomplete => { conn with request := conn.request ++ chunk }
    | .invalid => { conn with request := conn.request ++ chunk, closed := true }
    | .complete => respond sv env { conn with request := conn.request ++ chunk }

/-- `gateway_write_cb`, when a response is under way -/
def gatewayWriteCb (conn : Connection C) : Connection C :=
  if conn.writes.isEmpty then conn
  else { conn with writes := conn.writes.tail, closed := true }

/-- What happens around a connection. -/
inductive Activity (E : Type) where
  /-- bytes arrive -/
  | read (env : E) (chunk : Bytes)
  /-- reading fails or ends: `nread < 0` -/
  | failed
  /-- a response has been written -/
  | written
  /-- the same server answers another client -/
  | elsewhere (env : E) (call : Call)

/-- The connection after an activity; a closed one reads nothing more. -/
def connectionStep (conn : Connection C) : Activity E → Connection C
  | .read env chunk => if conn.closed then conn else gatewayReadCb sv env conn chunk
  | .failed => { conn with closed := true }
  | .written => gatewayWriteCb conn
  | .elsewhere env call => { conn with server := callStep sv conn.server (env, call) }

end Read

end SmolClaw.Gateway
