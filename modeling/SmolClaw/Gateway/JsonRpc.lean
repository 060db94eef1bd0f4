/-
  The JSON-RPC texts of the gateway (`src/gateway/gateway.c`): which request a call is routed as, and
  how its answer is written.

  1. **Request** — six methods name a route each; `params` supplies body, token, key, session and
     origin of the routed request (`requestFromJsonrpcParams`).

  2. **Answer** — written by hand around the id and the routed body.  The body of a success is escaped
     in `"`, `\` and LF only; the id and the message of an error are written AS THEY ARE.
-/
import SmolClaw.Gateway.Message
import SmolClaw.Json.Parse

namespace SmolClaw.Gateway

/-! ## Requests -/

/-- `json_param_str`: the empty string stands for a parameter that is missing or no string. -/
def jsonParamStr (params : Option Json) (name : String) : Bytes :=
  ((params.bind fun p => Json.asStr (p.objectGet (str name)))).getD []

/-- `request_from_jsonrpc_params` -/
def requestFromJsonrpcParams (path : Bytes) (method : GatewayMethod) (params : Option Json) :
    GatewayRequest where
  method := method
  path := path
  body := jsonParamStr params "body"
  authToken := jsonParamStr params "auth_token"
  idempotencyKey := jsonParamStr params "idempotency_key"
  requestId := jsonParamStr params "request_id"
  sessionId := jsonParamStr params "session_id"
  origin := jsonParamStr params "origin"

/-- The route a method of `jsonrpc_handle_method` stands for. -/
def jsonrpcRoute (method : Bytes) : Option (Bytes × GatewayMethod) :=
  if method = str "gateway.status" then some (str "/status", .get)
  else if method = str "gateway.health" then some (str "/health", .get)
  else if method = str "gateway.chat" then some (str "/ws/chat", .post)
  else if method = str "gateway.config.get" then some (str "/config/get", .get)
  else if method = str "gateway.config.set" then some (str "/config/set", .post)
  else if method = str "gateway.sessions" then some (str "/sessions", .get)
  else none

/-! ## Answers -/

/-- `jsonrpc_id_to_string`: a string is put between quotes as it is, a number is printed with `%.0f`
    into 64 bytes, and everything else is `null`. -/
def jsonrpcIdToString (id : Option Json) : Bytes :=
  match id with
  | some (.string text) => chr '"' :: text ++ [chr '"']
  | some (.number number) => (formatFixed0 number).take 63
  | _ => str "null"

/-- The bytes a byte of the result becomes. -/
def escapeResultByte (b : UInt8) : Bytes :=
  if b = chr '"' ∨ b = chr '\\' then [chr '\\', b]
  else if b = chr '\n' then str "\\n"
  else [b]

/-- `append_jsonrpc_result` -/
def appendJsonrpcResult (id : Option Json) (resultText : Bytes) : Bytes :=
  str "\x7b\"jsonrpc\":\"2.0\",\"id\":" ++ jsonrpcIdToString id ++ str ",\"result\":\"" ++
    resultText.flatMap escapeResultByte ++ str "\"\x7d"

/-- `append_jsonrpc_error` -/
def appendJsonrpcError (id : Option Json) (code : Int) (message : Bytes) : Bytes :=
  str "\x7b\"jsonrpc\":\"2.0\",\"id\":" ++ jsonrpcIdToString id ++ str ",\"error\":\x7b\"code\":" ++
    decimalInt code ++ str ",\"message\":\"" ++ message ++ str "\"\x7d\x7d"

/-- The answer `jsonrpc_handle_method` writes for a routed response. -/
def jsonrpcAnswer (id : Option Json) (response : GatewayResponse) : Bytes :=
  if response.successful then appendJsonrpcResult id response.body
  else appendJsonrpcError id response.status response.body

/-! ## Calls -/

/-- What a request text asks for: an answer that needs no routing, or a routed request. -/
inductive JsonrpcCall where
  /-- `append_jsonrpc_error` without routing -/
  | fail (id : Option Json) (code : Int) (message : String)
  /-- `ping` -/
  | ping (id : Option Json)
  | route (id : Option Json) (request : GatewayRequest)

/-- The method of a well-formed call: `jsonrpc_handle_method` up to the routed request. -/
def jsonrpcMethodCall (method : Bytes) (params id : Option Json) : JsonrpcCall :=
  if method = str "ping" then .ping id
  else
    match jsonrpcRoute method with
    | some (path, verb) => .route id (requestFromJsonrpcParams path verb params)
    | none => .fail id (-32601) "method not found"

/-- The checks of `sc_gateway_jsonrpc_handle`, in its order. -/
def jsonrpcCall (requestJson : Bytes) : JsonrpcCall :=
  match jsonParse requestJson with
  | .ok (.object members) =>
    let root := Json.object members
    let id := root.objectGet (str "id")
    match Json.asStr (root.objectGet (str "method")) with
    | some method =>
      if Json.asStr (root.objectGet (str "jsonrpc")) = some (str "2.0") then
        jsonrpcMethodCall method (root.objectGet (str "params")) id
      else .fail id (-32600) "invalid request"
    | none => .fail id (-32600) "invalid request"
  | _ => .fail none (-32700) "parse error"

end SmolClaw.Gateway
