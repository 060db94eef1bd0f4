/-
  The gateway server (`src/gateway/gateway.c`): its state, its routes, the gates in front of them, the
  handlers behind them, and `sc_gateway_handle_request`, which every entry point goes through.

  1. **Services** — the agent, the ACP server, the configuration, the static files, the clock and the
     random source are parameters.  Each call has an environment `E` of its own that decides what they
     do in it, so they may answer anything, differently every time.

  2. **State** — what handlers read and change; the agent's observer may append events during a turn.

  3. **Nesting** — `POST /jsonrpc` routes a request of its own.  `serve inner` is one level of
     `sc_gateway_handle_request` with `inner` for the nested call.  A nested request never asks for
     `/jsonrpc` (`nested_not_jsonrpc`), so two levels are all there are (`handleRequest_eq`).
-/
import SmolClaw.Gateway.Events
import SmolClaw.Gateway.JsonRpc

namespace SmolClaw.Gateway

/-! ## Services -/

/-- `sc_turn`: what the gateway fills in. -/
structure Turn where
  input : Bytes
  sessionId : Bytes
  cancelRequested : Bool

/-- Why `openat` fails: `ELOOP` or `ENOTDIR`, or anything else. -/
inductive OpenError where
  | notDirectory
  | other
  deriving DecidableEq, Repr

/-- The parts outside the gateway.  `E` is the environment of a call, `C` a configuration and `D` an
    open file. -/
structure Services (E C D : Type) where
  /-- `time(nullptr)`; a call is short and reads one time. -/
  time : E → Int
  /-- `sc_random_bytes`, 32 of them -/
  randomBytes : E → Res (Vector UInt8 32)
  /-- `sc_agent_process_message`: the events observed during the turn, and its output -/
  processMessage : E → Turn → List ObserverEvent × Res Bytes
  /-- `sc_acp_handle_line` -/
  acpHandleLine : E → Bytes → List ObserverEvent × Res Bytes
  /-- `sc_config_get_prop` -/
  configGetProp : C → Bytes → Res Bytes
  /-- `sc_config_set_prop` -/
  configSetProp : C → Bytes → Bytes → C × Res Unit
  /-- `open` of a static root -/
  openRoot : E → Bytes → Option D
  /-- `openat` without following links, of a directory or of any file -/
  openAt : E → D → Bytes → Bool → Except OpenError D
  /-- `S_ISREG` -/
  isRegular : E → D → Bool
  /-- the whole file, unless `fstat` or `read` fail -/
  contents : E → D → Option Bytes

/-! ## State -/

/-- `sc_gateway_session_state` -/
inductive SessionState where
  | idle
  | running
  | aborted
  deriving DecidableEq, Repr

/-- `sc_gateway_session`, its times left out. -/
structure GatewaySession where
  id : Bytes
  state : SessionState
  abortRequested : Bool
  lastOutput : Bytes
  deriving DecidableEq, Repr

/-- `idempotency_entry` -/
structure IdempotencyEntry where
  key : Bytes
  response : GatewayResponse
  deriving DecidableEq, Repr

/-- `gateway_static_root` -/
structure StaticRoot where
  urlPrefix : Bytes
  filesystemRoot : Bytes
  deriving DecidableEq, Repr

/-- `sc_gateway_server`, the listener apart. -/
structure Server (C : Type) where
  /-- whether there is an agent -/
  agent : Bool
  config : Option C
  /-- whether there is an ACP server -/
  acp : Bool
  pairingCode : Bytes
  authToken : Bytes
  pairingOrigin : Bytes
  running : Bool
  maxBodyBytes : Nat
  rateLimit : Nat
  requestCount : Nat
  requestWindowStarted : Int
  pairingAttemptCount : Nat
  pairingWindowStarted : Int
  pairingAttemptLimit : Nat
  pairingTtlSecs : Nat
  pairingCreatedAt : Int
  pairingUsed : Bool
  timeoutMs : Int
  maxSseEvents : Nat
  maxWsMessageBytes : Nat
  maxWsQueuedMessages : Nat
  wsQueuedMessages : Nat
  sessions : List GatewaySession
  events : List GatewayEvent
  idempotency : List IdempotencyEntry
  staticRoots : List StaticRoot
  websocketEnabled : Bool
  jsonrpcEnabled : Bool

/-- `sc_gateway_options`: what the modelled functions read. -/
structure GatewayOptions (C : Type) where
  agent : Bool := false
  config : Option C := none
  pairingCode : Bytes := []
  authToken : Bytes := []
  maxBodyBytes : Nat := 0
  rateLimit : Nat := 0
  timeoutMs : Int := 0
  pairingTtlSecs : Nat := 0
  pairingAttemptLimit : Nat := 0
  pairingOrigin : Bytes := []
  maxSseEvents : Nat := 0
  maxWsMessageBytes : Nat := 0
  maxWsQueuedMessages : Nat := 0
  staticRoots : List StaticRoot := []

/-- `sc_gateway_server_new`, at the time `now`: zero stands for the default. -/
def gatewayServerNew {C : Type} (now : Int) (options : GatewayOptions C) : Server C where
  agent := options.agent
  config := options.config
  acp := true
  pairingCode := options.pairingCode
  authToken := options.authToken
  pairingOrigin := options.pairingOrigin
  running := false
  maxBodyBytes := if options.maxBodyBytes = 0 then 65536 else options.maxBodyBytes
  rateLimit := if options.rateLimit = 0 then 1024 else options.rateLimit
  requestCount := 0
  requestWindowStarted := now
  pairingAttemptCount := 0
  pairingWindowStarted := now
  pairingAttemptLimit := if options.pairingAttemptLimit = 0 then 5 else options.pairingAttemptLimit
  pairingTtlSecs := if options.pairingTtlSecs = 0 then 300 else options.pairingTtlSecs
  pairingCreatedAt := now
  pairingUsed := false
  timeoutMs := if options.timeoutMs = 0 then 30000 else options.timeoutMs
  maxSseEvents := if options.maxSseEvents = 0 then 128 else options.maxSseEvents
  maxWsMessageBytes := if options.maxWsMessageBytes = 0 then 65536 else options.maxWsMessageBytes
  maxWsQueuedMessages := if options.maxWsQueuedMessages = 0 then 16 else options.maxWsQueuedMessages
  wsQueuedMessages := 0
  sessions := []
  events := []
  idempotency := []
  staticRoots := options.staticRoots
  websocketEnabled := true
  jsonrpcEnabled := true

/-- `sc_gateway_server_start`, once the address is allowed and the listener is up -/
def gatewayServerStart {C : Type} (server : Server C) : Server C := { server with running := true }

/-! ## Routes -/

/-- `sc_gateway_auth_mode` -/
inductive AuthMode where
  | none
  | pairing
  | bearer
  deriving DecidableEq, Repr

/-- The handlers, by the names of the route table. -/
inductive Handler where
  | handleStatus
  | handleHealth
  | handlePair
  | handleChat
  | handleJsonrpcRoute
  | handleAcpRoute
  | handleSse
  | handleSessions
  | handleAbort
  | handleDisconnect
  | handleConfigGet
  | handleConfigSet
  | handleStatic
  deriving DecidableEq, Repr

/-- `gateway_route` -/
structure GatewayRoute where
  method : GatewayMethod
  path : Bytes
  authMode : AuthMode
  requestSizeLimit : Nat
  handler : Handler
  deriving DecidableEq, Repr

/-- `gateway_routes` -/
def gatewayRoutes : List GatewayRoute :=
  [⟨.get, str "/status", .none, 0, .handleStatus⟩,
    ⟨.get, str "/health", .none, 0, .handleHealth⟩,
    ⟨.post, str "/pair", .pairing, 128, .handlePair⟩,
    ⟨.post, str "/ws/chat", .bearer, 0, .handleChat⟩,
    ⟨.post, str "/jsonrpc", .bearer, 0, .handleJsonrpcRoute⟩,
    ⟨.post, str "/acp", .bearer, 0, .handleAcpRoute⟩,
    ⟨.get, str "/sse/events", .bearer, 0, .handleSse⟩,
    ⟨.get, str "/sessions", .bearer, 0, .handleSessions⟩,
    ⟨.post, str "/sessions/abort", .bearer, 256, .handleAbort⟩,
    ⟨.post, str "/sessions/disconnect", .bearer, 256, .handleDisconnect⟩,
    ⟨.get, str "/config/get", .bearer, 512, .handleConfigGet⟩,
    ⟨.post, str "/config/set", .bearer, 4096, .handleConfigSet⟩,
    ⟨.get, str "/static/*", .none, 0, .handleStatic⟩]

/-- The roots of `static_find_root` and `route_path_matches_static`: the prefix, then a `/` or nothing. -/
def StaticRoot.matchesPath (root : StaticRoot) (path : Bytes) : Bool :=
  !root.urlPrefix.isEmpty && root.urlPrefix.isPrefixOf path &&
    (path.length == root.urlPrefix.length || (path.drop root.urlPrefix.length).head? == some (chr '/'))

variable {E C D : Type}

/-- `route_path_matches_static` -/
def routePathMatchesStatic (server : Server C) (path : Bytes) : Bool :=
  !path.isEmpty && server.staticRoots.any (·.matchesPath path)

/-- Whether a path is the route's. -/
def routeMatches (server : Server C) (route : GatewayRoute) (path : Bytes) : Bool :=
  if route.path = str "/static/*" then routePathMatchesStatic server path else path == route.path

/-- `route_find`: the first route of the path and the method; without one, whether the path has a
    route at all. -/
def routeFind (server : Server C) (path : Bytes) (method : GatewayMethod) : Except Bool GatewayRoute :=
  match gatewayRoutes.find? fun r => routeMatches server r path && r.method == method with
  | some route => .ok route
  | none => .error (gatewayRoutes.any fun r => routeMatches server r path)

/-! ## Gates -/

/-- `token_matches` -/
def tokenMatches (server : Server C) (token : Bytes) : Bool :=
  !server.authToken.isEmpty && server.authToken == token

/-- The routes whose POST needs no idempotency key. -/
def keyOptional (path : Bytes) : Bool :=
  path == str "/pair" || path == str "/ws/chat" || path == str "/jsonrpc" || path == str "/acp"

/-- The pairing window of `enforce_gates`: `none` when it is full. -/
def countPairingAttempt (now : Int) (server : Server C) : Server C × Bool :=
  let server :=
    if now < server.pairingWindowStarted ∨ 60 ≤ now - server.pairingWindowStarted then
      { server with pairingWindowStarted := now, pairingAttemptCount := 0 }
    else server
  if server.pairingAttemptLimit ≤ server.pairingAttemptCount then (server, false)
  else ({ server with pairingAttemptCount := server.pairingAttemptCount + 1 }, true)

/-- The request window of `enforce_gates`. -/
def countRequest (now : Int) (server : Server C) : Server C × Bool :=
  let server :=
    if now < server.requestWindowStarted ∨ 60 ≤ now - server.requestWindowStarted then
      { server with requestWindowStarted := now, requestCount := 0 }
    else server
  if server.rateLimit ≤ server.requestCount then (server, false)
  else ({ server with requestCount := server.requestCount + 1 }, true)

/-- `route_limit` of `enforce_gates` -/
def routeLimit (server : Server C) (route : GatewayRoute) : Nat :=
  if route.requestSizeLimit = 0 ∨ server.maxBodyBytes < route.requestSizeLimit then server.maxBodyBytes
  else route.requestSizeLimit

/-- The gates of `enforce_gates` in front of the rate windows. -/
def earlyGates (server : Server C) (route : GatewayRoute) (request : GatewayRequest) :
    Option GatewayResponse :=
  if server.timeoutMs ≤ 0 then some (responseSet 504 (str "gateway timeout"))
  else if !server.running && request.path != str "/status" then
    some (responseSet 503 (str "gateway stopped"))
  else if routeLimit server route < request.body.length then some (responseSet 413 (str "body too large"))
  else if route.authMode == .bearer && !tokenMatches server request.authToken then
    some (responseSet 401 (str "unauthorized"))
  else none

/-- The gate of `enforce_gates` behind the rate windows. -/
def keyGate (request : GatewayRequest) : Option GatewayResponse :=
  if routeIsMutation request && request.idempotencyKey.isEmpty && !keyOptional request.path then
    some (responseSet 409 (str "idempotency key required"))
  else none

/-- `enforce_gates`: the response of the gate that refuses, if one does. -/
def enforceGates (now : Int) (server : Server C) (route : GatewayRoute) (request : GatewayRequest) :
    Server C × Option GatewayResponse :=
  match earlyGates server route request with
  | some refusal => (server, some refusal)
  | none =>
    if route.authMode = .pairing then
      let counted := countPairingAttempt now server
      (counted.1, if counted.2 then keyGate request
        else some (responseSet 429 (str "pairing rate limit exceeded")))
    else
      let counted := countRequest now server
      (counted.1, if counted.2 then keyGate request
        else some (responseSet 429 (str "rate limit exceeded")))

/-! ## Sessions -/

/-- `session_find_mut` -/
def sessionFind (server : Server C) (sessionId : Bytes) : Option GatewaySession :=
  server.sessions.find? (·.id == sessionId)

/-- A change of the session that `session_find_mut` finds. -/
def updateSession (sessionId : Bytes) (change : GatewaySession → GatewaySession) :
    List GatewaySession → List GatewaySession
  | [] => []
  | s :: sessions => if s.id = sessionId then change s :: sessions else s :: updateSession sessionId change sessions

/-- `session_get_or_create`: the id is not empty. -/
def sessionGetOrCreate (server : Server C) (sessionId : Bytes) : Server C × GatewaySession :=
  match sessionFind server sessionId with
  | some session => (server, session)
  | none =>
    let session : GatewaySession := ⟨sessionId, .idle, false, []⟩
    ({ server with sessions := server.sessions ++ [session] }, session)

/-- `sc_gateway_session_abort` -/
def sessionAbort (server : Server C) (sessionId : Bytes) : Server C × Res Unit :=
  match sessionFind server sessionId with
  | none => (server, Status.invalidArgument "sc.gateway_session.not_found")
  | some _ =>
    ({ server with
        sessions := updateSession sessionId (fun s => { s with abortRequested := true, state := .aborted })
          server.sessions }, .ok ())

/-- `session_remove` (`sc_gateway_session_disconnect`) -/
def sessionRemove (server : Server C) (sessionId : Bytes) : Server C × Res Unit :=
  if sessionId.isEmpty then (server, Status.invalidArgument "sc.gateway_session.invalid_argument")
  else
    match sessionFind server sessionId with
    | none => (server, Status.invalidArgument "sc.gateway_session.not_found")
    | some _ => ({ server with sessions := server.sessions.eraseP (·.id == sessionId) }, .ok ())

/-! ## Handlers -/

/-- Events the agent's observer appends during a turn. -/
def observeAll (server : Server C) (emitted : List ObserverEvent) : Server C :=
  { server with events := emitted.foldl (gatewayObserverEmit server.maxSseEvents) server.events }

/-- `pairing_expired` -/
def pairingExpired (now : Int) (server : Server C) : Bool :=
  server.pairingTtlSecs != 0 &&
    (decide (now < server.pairingCreatedAt) ||
      decide ((server.pairingTtlSecs : Int) < now - server.pairingCreatedAt))

/-- `gateway_generate_auth_token`: 64 hexadecimal digits. -/
def gatewayGenerateAuthToken (random : Vector UInt8 32) : Bytes := random.toList.flatMap hexByte

/-- `handle_pair` -/
def handlePair (now : Int) (random : Res (Vector UInt8 32)) (server : Server C)
    (request : GatewayRequest) : Server C × Res GatewayResponse :=
  if server.pairingCode.isEmpty || server.pairingCode != request.body then
    (server, .ok (responseSet 401 (str "pairing denied")))
  else if pairingExpired now server then (server, .ok (responseSet 401 (str "pairing expired")))
  else if server.pairingUsed then (server, .ok (responseSet 409 (str "pairing replayed")))
  else if !server.pairingOrigin.isEmpty && server.pairingOrigin != request.origin then
    (server, .ok (responseSet 401 (str "pairing origin denied")))
  else if server.authToken.isEmpty then
    match random with
    | .error e => (server, .error e)
    | .ok bytes =>
      let token := gatewayGenerateAuthToken bytes
      ({ server with authToken := token, pairingUsed := true }, .ok (responseSet 200 token))
  else ({ server with pairingUsed := true }, .ok (responseSet 200 server.authToken))

/-- `handle_status` -/
def handleStatus (server : Server C) : GatewayResponse :=
  responseSet 200 (if server.running then str "running" else str "stopped")

/-- `handle_health` -/
def handleHealth (server : Server C) : GatewayResponse :=
  responseSet (if server.running then 200 else 503) (if server.running then str "ok" else str "stopped")

/-- The turn of `handle_chat`, in a session that is not aborted. -/
def chatTurn (sv : Services E C D) (env : E) (server : Server C) (sessionId input : Bytes) :
    Server C × Res GatewayResponse :=
  let running := { server with
    sessions := updateSession sessionId (fun s => { s with state := .running }) server.sessions }
  let turn : Turn := ⟨input, sessionId, false⟩
  let outcome := sv.processMessage env turn
  let observed := observeAll running outcome.1
  let finish (change : GatewaySession → GatewaySession) : Server C :=
    { observed with sessions := updateSession sessionId change observed.sessions }
  match outcome.2 with
  | .ok output =>
    (finish fun s => { s with lastOutput := output, state := .idle }, .ok (responseSet 200 output))
  | .error e =>
    if e.code = .cancelled then
      (finish fun s => { s with state := .aborted }, .ok (responseSet 499 (str "chat failed")))
    else (finish fun s => { s with state := .idle }, .ok (responseSet 500 (str "chat failed")))

/-- The session of a chat request. -/
def chatSessionId (request : GatewayRequest) : Bytes :=
  if request.sessionId.isEmpty then str "default" else request.sessionId

/-- `handle_chat` -/
def handleChat (sv : Services E C D) (env : E) (server : Server C) (request : GatewayRequest) :
    Server C × Res GatewayResponse :=
  if !server.agent then (server, .ok (responseSet 503 (str "agent unavailable")))
  else
    let found := sessionGetOrCreate server (chatSessionId request)
    if found.2.abortRequested then (found.1, .ok (responseSet 409 (str "session aborted")))
    else chatTurn sv env found.1 (chatSessionId request) request.body

/-- `handle_acp_route` -/
def handleAcpRoute (sv : Services E C D) (env : E) (server : Server C) (request : GatewayRequest) :
    Server C × Res GatewayResponse :=
  if !server.acp then (server, .ok (responseSet 503 (str "acp unavailable")))
  else
    let outcome := sv.acpHandleLine env request.body
    (observeAll server outcome.1,
      outcome.2.map fun line => responseSetTyped 200 line (str "application/json"))

/-- `handle_sessions` -/
def handleSessions (server : Server C) : GatewayResponse :=
  responseSet 200 (server.sessions.flatMap fun s => s.id ++ [chr '\n'])

/-- The session `handle_abort` and `handle_disconnect` mean. -/
def sessionMeant (request : GatewayRequest) : Bytes :=
  if request.sessionId.isEmpty then request.body else request.sessionId

/-- A session operation as a response. -/
def sessionResponse (done : Bytes) : Server C × Res Unit → Server C × Res GatewayResponse
  | (server, .ok _) => (server, .ok (responseSet 200 done))
  | (server, .error _) => (server, .ok (responseSet 404 (str "session not found")))

/-- `handle_abort` -/
def handleAbort (server : Server C) (request : GatewayRequest) : Server C × Res GatewayResponse :=
  sessionResponse (str "aborted") (sessionAbort server (sessionMeant request))

/-- `handle_disconnect` -/
def handleDisconnect (server : Server C) (request : GatewayRequest) : Server C × Res GatewayResponse :=
  sessionResponse (str "disconnected") (sessionRemove server (sessionMeant request))

/-- `handle_config_get` -/
def handleConfigGet (sv : Services E C D) (server : Server C) (request : GatewayRequest) :
    GatewayResponse :=
  match server.config with
  | none => responseSet 503 (str "config unavailable")
  | some config =>
    match sv.configGetProp config request.body with
    | .ok value => responseSet 200 value
    | .error _ => responseSet 404 (str "config path not found")

/-- `parse_assignment`: the first `=` separates a path from a value, neither of them empty. -/
def parseAssignment (body : Bytes) : Option (Bytes × Bytes) :=
  let path := body.takeWhile (· ≠ chr '=')
  let value := body.drop (path.length + 1)
  if path.isEmpty || value.isEmpty then none else some (path, value)

/-- `handle_config_set` -/
def handleConfigSet (sv : Services E C D) (server : Server C) (request : GatewayRequest) :
    Server C × Res GatewayResponse :=
  match server.config with
  | none => (server, .ok (responseSet 503 (str "config unavailable")))
  | some config =>
    match parseAssignment request.body with
    | none => (server, .ok (responseSet 400 (str "invalid assignment")))
    | some (path, value) =>
      let outcome := sv.configSetProp config path value
      let changed := { server with config := some outcome.1 }
      match outcome.2 with
      | .ok _ => (changed, .ok (responseSet 200 (str "updated")))
      | .error _ => (changed, .ok (responseSet 400 (str "config rejected")))

/-! ### Static files -/

/-- `static_path_has_encoded_traversal`: `%2e`, `%2f` or `%5c`, in either case. -/
def staticPathHasEncodedTraversal : Bytes → Bool
  | [] => false
  | c :: rest =>
    let escapes : Bool :=
      match rest with
      | a :: b :: _ =>
        (a == chr '2' && [chr 'e', chr 'E', chr 'f', chr 'F'].contains b) ||
          (a == chr '5' && [chr 'c', chr 'C'].contains b)
      | _ => false
    (c == chr '%' && escapes) || staticPathHasEncodedTraversal rest

/-- The stretches between slashes. -/
def pathSegments : Bytes → Bytes → List Bytes
  | segment, [] => [segment]
  | segment, c :: rest =>
    if c = chr '/' then segment :: pathSegments [] rest else pathSegments (segment ++ [c]) rest

/-- `static_relative_path_safe` -/
def staticRelativePathSafe (relative : Bytes) : Bool :=
  !relative.isEmpty && !staticPathHasEncodedTraversal relative && !relative.contains (chr '\\') &&
    (pathSegments [] relative).all fun s => s != [] && s != str "." && s != str ".."

/-- `static_find_root`: the first root of the path, and the path below it. -/
def staticFindRoot (server : Server C) (path : Bytes) : Option (StaticRoot × Bytes) :=
  (server.staticRoots.find? (·.matchesPath path)).map fun root =>
    let below := path.drop root.urlPrefix.length
    let relative := if below.head? = some (chr '/') then below.tail else below
    (root, if relative.isEmpty then str "index.html" else relative)

/-- The walk of `static_open_file` from directory to directory; `openat` sees a C string. -/
def staticWalk (sv : Services E C D) (env : E) : D → List Bytes → Res D
  | fd, [] => .ok fd
  | fd, segment :: rest =>
    if segment.isEmpty || decide (255 < segment.length) then
      Status.securityDenied "sc.gateway_static.unsafe_path"
    else
      match sv.openAt env fd (segment.takeWhile (· ≠ 0)) (!rest.isEmpty) with
      | .error .notDirectory => Status.securityDenied "sc.gateway_static.unsafe_path"
      | .error .other => Status.io "sc.gateway_static.not_found"
      | .ok child => staticWalk sv env child rest

/-- `static_open_file` -/
def staticOpenFile (sv : Services E C D) (env : E) (root : StaticRoot) (relative : Bytes) : Res D :=
  if root.filesystemRoot.isEmpty || relative.isEmpty then
    Status.invalidArgument "sc.gateway_static.open_invalid_argument"
  else
    match sv.openRoot env root.filesystemRoot with
    | none => Status.io "sc.gateway_static.root_open_failed"
    | some fd =>
      match staticWalk sv env fd (pathSegments [] relative) with
      | .error e => .error e
      | .ok file =>
        if sv.isRegular env file then .ok file
        else Status.securityDenied "sc.gateway_static.unsafe_path"

/-- `static_read_fd` -/
def staticReadFd (sv : Services E C D) (env : E) (fd : D) (maxBytes : Nat) : Res Bytes :=
  match sv.contents env fd with
  | none => Status.io "sc.gateway_static.read_failed"
  | some text =>
    if maxBytes < text.length then Status.http "sc.gateway_static.response_too_large" else .ok text

/-- `static_content_type` -/
def staticContentType (path : Bytes) : Bytes :=
  if (str ".html").isSuffixOf path then str "text/html"
  else if (str ".css").isSuffixOf path then str "text/css"
  else if (str ".js").isSuffixOf path then str "application/javascript"
  else if (str ".json").isSuffixOf path then str "application/json"
  else if (str ".txt").isSuffixOf path then str "text/plain"
  else if (str ".svg").isSuffixOf path then str "image/svg+xml"
  else str "application/octet-stream"

/-- `handle_static` -/
def handleStatic (sv : Services E C D) (env : E) (server : Server C) (request : GatewayRequest) :
    Res GatewayResponse :=
  match staticFindRoot server request.path with
  | none => .ok (responseSet 404 (str "not found"))
  | some (root, relative) =>
    if !staticRelativePathSafe relative then .ok (responseSet 403 (str "forbidden"))
    else
      match staticOpenFile sv env root relative >>= fun fd => staticReadFd sv env fd server.maxBodyBytes with
      | .ok body => .ok (responseSetTyped 200 body (staticContentType relative))
      | .error e =>
        if e.code = .securityDenied then .ok (responseSet 403 (str "forbidden"))
        else if e.code = .io then .ok (responseSet 404 (str "not found"))
        else .error e

/-! ## Requests -/

/-- `idempotency_find`, for a key that is not empty -/
def idempotencyFind (server : Server C) (key : Bytes) : Option IdempotencyEntry :=
  server.idempotency.find? (·.key == key)

/-- A mutating request with a key. -/
def keyed (request : GatewayRequest) : Bool := routeIsMutation request && !request.idempotencyKey.isEmpty

/-- `idempotency_store` and the test in front of it. -/
def idempotencyStore (request : GatewayRequest) (outcome : Server C × Res GatewayResponse) :
    Server C × Res GatewayResponse :=
  match outcome.2 with
  | .error _ => outcome
  | .ok response =>
    if keyed request && response.successful then
      ({ outcome.1 with
          idempotency := outcome.1.idempotency ++ [⟨request.idempotencyKey, responseCopy response⟩] },
        outcome.2)
    else outcome

section Serve

variable (sv : Services E C D) (env : E)

/-- `sc_gateway_jsonrpc_handle`, with `inner` for the routed request -/
def jsonrpcHandleWith (inner : Server C → GatewayRequest → Server C × Res GatewayResponse)
    (server : Server C) (requestJson : Bytes) : Server C × Res Bytes :=
  if requestJson.isEmpty then (server, Status.invalidArgument "sc.gateway_jsonrpc.invalid_argument")
  else if !server.jsonrpcEnabled then (server, Status.unsupported "sc.gateway_jsonrpc.disabled")
  else
    match jsonrpcCall requestJson with
    | .fail id code message => (server, .ok (appendJsonrpcError id code (str message)))
    | .ping id => (server, .ok (appendJsonrpcResult id (str "pong")))
    | .route id request => ((inner server request).1, (inner server request).2.map (jsonrpcAnswer id))

/-- The handler of a route, with `inner` for a nested request -/
def runHandler (inner : Server C → GatewayRequest → Server C × Res GatewayResponse)
    (handler : Handler) (server : Server C) (request : GatewayRequest) :
    Server C × Res GatewayResponse :=
  match handler with
  | .handleStatus => (server, .ok (handleStatus server))
  | .handleHealth => (server, .ok (handleHealth server))
  | .handlePair => handlePair (sv.time env) (sv.randomBytes env) server request
  | .handleChat => handleChat sv env server request
  | .handleJsonrpcRoute =>
    ((jsonrpcHandleWith inner server request.body).1,
      (jsonrpcHandleWith inner server request.body).2.map fun text =>
        responseSetTyped 200 text (str "application/json"))
  | .handleAcpRoute => handleAcpRoute sv env server request
  | .handleSse => (server, .ok (handleSse server.events request.sessionId))
  | .handleSessions => (server, .ok (handleSessions server))
  | .handleAbort => handleAbort server request
  | .handleDisconnect => handleDisconnect server request
  | .handleConfigGet => (server, .ok (handleConfigGet sv server request))
  | .handleConfigSet => handleConfigSet sv server request
  | .handleStatic => (server, handleStatic sv env server request)

/-- `sc_gateway_handle_request`, with `inner` for a nested request -/
def serve (inner : Server C → GatewayRequest → Server C × Res GatewayResponse) (server : Server C)
    (request : GatewayRequest) : Server C × Res GatewayResponse :=
  match routeFind server request.path request.method with
  | .error pathMatched =>
    (server, .ok (responseSet (if pathMatched then 405 else 404)
      (if pathMatched then str "method not allowed" else str "not found")))
  | .ok route =>
    let gated := enforceGates (sv.time env) server route request
    match gated.2 with
    | some refusal => (gated.1, .ok refusal)
    | none =>
      match (if keyed request then idempotencyFind gated.1 request.idempotencyKey else none) with
      | some cached => (gated.1, .ok (responseCopy cached.response))
      | none => idempotencyStore request (runHandler sv env inner route.handler gated.1 request)

/-- `sc_gateway_handle_request`: the nested request of a nested request does not exist. -/
def handleRequest : Server C → GatewayRequest → Server C × Res GatewayResponse :=
  serve sv env (serve sv env fun server _ => (server, Status.unsupported "sc.gateway_jsonrpc.disabled"))

/-- `sc_gateway_jsonrpc_handle` -/
def jsonrpcHandle (server : Server C) (requestJson : Bytes) : Server C × Res Bytes :=
  jsonrpcHandleWith (handleRequest sv env) server requestJson

end Serve

/-! ## What a request does -/

/-- The gates touch the two rate windows only. -/
theorem enforceGates_frame (now : Int) (server : Server C) (route : GatewayRoute)
    (request : GatewayRequest) :
    ∃ count window attempts pairing, (enforceGates now server route request).1 =
      { server with requestCount := count, requestWindowStarted := window,
                    pairingAttemptCount := attempts, pairingWindowStarted := pairing } := by
  have hself : ∃ count window attempts pairing, server =
      { server with requestCount := count, requestWindowStarted := window,
                    pairingAttemptCount := attempts, pairingWindowStarted := pairing } :=
    ⟨_, _, _, _, rfl⟩
  have hpairing : ∃ attempts pairing, (countPairingAttempt now server).1 =
      { server with pairingAttemptCount := attempts, pairingWindowStarted := pairing } := by
    unfold countPairingAttempt
    split <;> dsimp only <;> split <;> exact ⟨_, _, rfl⟩
  have hrequest : ∃ count window, (countRequest now server).1 =
      { server with requestCount := count, requestWindowStarted := window } := by
    unfold countRequest
    split <;> dsimp only <;> split <;> exact ⟨_, _, rfl⟩
  obtain ⟨attempts, pairing, hpairing⟩ := hpairing
  obtain ⟨count, window, hrequest⟩ := hrequest
  unfold enforceGates
  split
  · exact hself
  split
  · exact ⟨_, _, _, _, hpairing⟩
  · exact ⟨_, _, _, _, hrequest⟩

/-- What a request may change of the server: the rate windows, sessions, configuration, events, token
    and stored responses; and that the pairing code, once used, stays used. -/
def Framed (s t : Server C) : Prop :=
  ∃ count window attempts pairing sessions config events token used entries,
    (s.pairingUsed = true → used = true) ∧
    t = { s with requestCount := count, requestWindowStarted := window,
                 pairingAttemptCount := attempts, pairingWindowStarted := pairing,
                 sessions := sessions, config := config, events := events, authToken := token,
                 pairingUsed := used, idempotency := entries }

theorem Framed.refl (s : Server C) : Framed s s := ⟨_, _, _, _, _, _, _, _, _, _, id, rfl⟩

theorem Framed.trans {s t u : Server C} (hst : Framed s t) (htu : Framed t u) : Framed s u := by
  obtain ⟨_, _, _, _, _, _, _, _, _, _, hused, rfl⟩ := hst
  obtain ⟨_, _, _, _, _, _, _, _, _, _, hused', rfl⟩ := htu
  exact ⟨_, _, _, _, _, _, _, _, _, _, fun h => hused' (hused h), rfl⟩

theorem enforceGates_framed (now : Int) (server : Server C) (route : GatewayRoute)
    (request : GatewayRequest) : Framed server (enforceGates now server route request).1 := by
  obtain ⟨_, _, _, _, hframe⟩ := enforceGates_frame now server route request
  rw [hframe]
  exact ⟨_, _, _, _, _, _, _, _, _, _, id, rfl⟩

/-- Storing a response changes the stored responses only. -/
theorem idempotencyStore_frame (request : GatewayRequest) (outcome : Server C × Res GatewayResponse) :
    ∃ entries, (idempotencyStore request outcome).1 = { outcome.1 with idempotency := entries } := by
  unfold idempotencyStore
  split
  · exact ⟨_, rfl⟩
  · split <;> exact ⟨_, rfl⟩

theorem idempotencyStore_snd (request : GatewayRequest) (outcome : Server C × Res GatewayResponse) :
    (idempotencyStore request outcome).2 = outcome.2 := by
  unfold idempotencyStore
  split
  · rfl
  · split <;> rfl

/-- Pairing sets the token and uses the code up. -/
theorem handlePair_frame (now : Int) (random : Res (Vector UInt8 32)) (server : Server C)
    (request : GatewayRequest) :
    ∃ token used, (server.pairingUsed = true → used = true) ∧
      (handlePair now random server request).1 =
        { server with authToken := token, pairingUsed := used } := by
  unfold handlePair
  split_ifs
  · exact ⟨_, _, id, rfl⟩
  · exact ⟨_, _, id, rfl⟩
  · exact ⟨_, _, id, rfl⟩
  · exact ⟨_, _, id, rfl⟩
  · cases random with
    | error e => exact ⟨_, _, id, rfl⟩
    | ok bytes => exact ⟨_, _, fun _ => rfl, rfl⟩
  · exact ⟨_, _, fun _ => rfl, rfl⟩

theorem handleChat_frame (sv : Services E C D) (env : E) (server : Server C) (request : GatewayRequest) :
    ∃ sessions events, (handleChat sv env server request).1 =
      { server with sessions := sessions, events := events } := by
  have hturn : ∀ (s : Server C) (sessionId input : Bytes), ∃ sessions events,
      (chatTurn sv env s sessionId input).1 = { s with sessions := sessions, events := events } := by
    intro s sessionId input
    unfold chatTurn
    dsimp only
    split
    · exact ⟨_, _, rfl⟩
    · split <;> exact ⟨_, _, rfl⟩
  have hcreate : ∀ sessionId, ∃ sessions, (sessionGetOrCreate server sessionId).1 =
      { server with sessions := sessions } := by
    intro sessionId
    unfold sessionGetOrCreate
    split <;> exact ⟨_, rfl⟩
  obtain ⟨_, hcreate⟩ := hcreate (chatSessionId request)
  obtain ⟨_, _, hturn⟩ :=
    hturn (sessionGetOrCreate server (chatSessionId request)).1 (chatSessionId request) request.body
  unfold handleChat
  dsimp only
  split
  · exact ⟨_, _, rfl⟩
  split
  · exact ⟨_, _, hcreate⟩
  · rw [hturn, hcreate]
    exact ⟨_, _, rfl⟩

theorem sessionResponse_fst (done : Bytes) (outcome : Server C × Res Unit) :
    (sessionResponse done outcome).1 = outcome.1 := by
  obtain ⟨server, result⟩ := outcome
  cases result <;> rfl

theorem handleAbort_frame (server : Server C) (request : GatewayRequest) :
    ∃ sessions, (handleAbort server request).1 = { server with sessions := sessions } := by
  rw [handleAbort, sessionResponse_fst, sessionAbort]
  split <;> exact ⟨_, rfl⟩

theorem handleDisconnect_frame (server : Server C) (request : GatewayRequest) :
    ∃ sessions, (handleDisconnect server request).1 = { server with sessions := sessions } := by
  rw [handleDisconnect, sessionResponse_fst, sessionRemove]
  split
  · exact ⟨_, rfl⟩
  · split <;> exact ⟨_, rfl⟩

theorem handleConfigSet_frame (sv : Services E C D) (server : Server C) (request : GatewayRequest) :
    ∃ config, (handleConfigSet sv server request).1 = { server with config := config } := by
  unfold handleConfigSet
  split
  · exact ⟨_, rfl⟩
  split
  · exact ⟨_, rfl⟩
  · dsimp only
    split <;> exact ⟨_, rfl⟩

/-- **What a handler changes**, pairing and nested requests apart: sessions, configuration, events. -/
theorem runHandler_frame (sv : Services E C D) (env : E)
    (inner : Server C → GatewayRequest → Server C × Res GatewayResponse) {handler : Handler}
    (hpair : handler ≠ .handlePair) (hplain : handler ≠ .handleJsonrpcRoute) (server : Server C)
    (request : GatewayRequest) :
    ∃ sessions config events, (runHandler sv env inner handler server request).1 =
      { server with sessions := sessions, config := config, events := events } := by
  cases handler with
  | handlePair => exact absurd rfl hpair
  | handleJsonrpcRoute => exact absurd rfl hplain
  | handleChat =>
    obtain ⟨_, _, hframe⟩ := handleChat_frame sv env server request
    exact ⟨_, _, _, hframe⟩
  | handleAcpRoute =>
    show ∃ sessions config events, (handleAcpRoute sv env server request).1 = _
    unfold handleAcpRoute
    split <;> exact ⟨_, _, _, rfl⟩
  | handleAbort =>
    obtain ⟨_, hframe⟩ := handleAbort_frame server request
    exact ⟨_, _, _, hframe⟩
  | handleDisconnect =>
    obtain ⟨_, hframe⟩ := handleDisconnect_frame server request
    exact ⟨_, _, _, hframe⟩
  | handleConfigSet =>
    obtain ⟨_, hframe⟩ := handleConfigSet_frame sv server request
    exact ⟨_, _, _, hframe⟩
  | handleStatus | handleHealth | handleSse | handleSessions | handleConfigGet | handleStatic =>
    exact ⟨_, _, _, rfl⟩

theorem jsonrpcHandleWith_framed {inner : Server C → GatewayRequest → Server C × Res GatewayResponse}
    (hinner : ∀ s r, Framed s (inner s r).1) (server : Server C) (requestJson : Bytes) :
    Framed server (jsonrpcHandleWith inner server requestJson).1 := by
  unfold jsonrpcHandleWith
  split
  · exact .refl server
  split
  · exact .refl server
  split
  · exact .refl server
  · exact .refl server
  · exact hinner _ _

theorem runHandler_framed (sv : Services E C D) (env : E)
    {inner : Server C → GatewayRequest → Server C × Res GatewayResponse}
    (hinner : ∀ s r, Framed s (inner s r).1) (handler : Handler) (server : Server C)
    (request : GatewayRequest) : Framed server (runHandler sv env inner handler server request).1 := by
  by_cases hpair : handler = .handlePair
  · obtain ⟨_, _, hused, hframe⟩ := handlePair_frame (sv.time env) (sv.randomBytes env) server request
    rw [hpair]
    exact ⟨_, _, _, _, _, _, _, _, _, _, hused, hframe⟩
  by_cases hjsonrpc : handler = .handleJsonrpcRoute
  · rw [hjsonrpc]
    exact jsonrpcHandleWith_framed hinner server request.body
  · obtain ⟨_, _, _, hframe⟩ := runHandler_frame sv env inner hpair hjsonrpc server request
    rw [hframe]
    exact ⟨_, _, _, _, _, _, _, _, _, _, id, rfl⟩

/-- **The token gate**: a bearer route is passed with the server's own, non-empty token only. -/
theorem enforceGates_bearer {now : Int} {server : Server C} {route : GatewayRoute}
    {request : GatewayRequest} (hmode : route.authMode = .bearer)
    (hpass : (enforceGates now server route request).2 = none) :
    tokenMatches server request.authToken = true := by
  by_contra hwrong
  have hgate : (route.authMode == .bearer && !tokenMatches server request.authToken) = true := by
    rw [hmode, Bool.eq_false_of_not_eq_true hwrong]
    rfl
  have hearly : ∃ refusal, earlyGates server route request = some refusal := by
    unfold earlyGates
    rw [if_pos hgate]
    split_ifs <;> exact ⟨_, rfl⟩
  obtain ⟨refusal, hearly⟩ := hearly
  rw [enforceGates, hearly] at hpass
  exact nomatch hpass

/-- The refusals of the gates. -/
def gateRefusals : List GatewayResponse :=
  [responseSet 504 (str "gateway timeout"), responseSet 503 (str "gateway stopped"),
    responseSet 413 (str "body too large"), responseSet 401 (str "unauthorized"),
    responseSet 429 (str "pairing rate limit exceeded"), responseSet 429 (str "rate limit exceeded"),
    responseSet 409 (str "idempotency key required")]

/-- **A gate refuses with one of its texts.** -/
theorem enforceGates_refusals {now : Int} {server : Server C} {route : GatewayRoute}
    {request : GatewayRequest} {refusal : GatewayResponse}
    (h : (enforceGates now server route request).2 = some refusal) : refusal ∈ gateRefusals := by
  have hkey : ∀ {r}, keyGate request = some r → r ∈ gateRefusals := by
    intro r hr
    unfold keyGate at hr
    split_ifs at hr
    obtain rfl := Option.some.inj hr
    exact List.mem_of_getElem? (i := 6) rfl
  unfold enforceGates at h
  split at h
  · next r hr =>
    obtain rfl := Option.some.inj h
    unfold earlyGates at hr
    split_ifs at hr <;> obtain rfl := Option.some.inj hr
    · exact List.mem_of_getElem? (i := 0) rfl
    · exact List.mem_of_getElem? (i := 1) rfl
    · exact List.mem_of_getElem? (i := 2) rfl
    · exact List.mem_of_getElem? (i := 3) rfl
  · split at h <;> dsimp only at h <;> split at h
    · exact hkey h
    · obtain rfl := Option.some.inj h
      exact List.mem_of_getElem? (i := 4) rfl
    · exact hkey h
    · obtain rfl := Option.some.inj h
      exact List.mem_of_getElem? (i := 5) rfl

/-- A route that is found is in the table, and has the method and the path asked for. -/
theorem routeFind_ok {server : Server C} {path : Bytes} {method : GatewayMethod} {route : GatewayRoute}
    (h : routeFind server path method = .ok route) :
    route ∈ gatewayRoutes ∧ route.method = method ∧ routeMatches server route path = true := by
  unfold routeFind at h
  split at h
  · next found hfind =>
    obtain rfl := Except.ok.inj h
    have hmatch := List.find?_some hfind
    rw [Bool.and_eq_true, beq_iff_eq] at hmatch
    exact ⟨List.mem_of_find?_eq_some hfind, hmatch.2, hmatch.1⟩
  · exact nomatch h

/-- How `sc_gateway_handle_request` answers: without a route, by a gate, from the stored responses, or
    by the handler. -/
inductive Answer where
  | unrouted
  | refused
  | replayed
  | handled
  deriving DecidableEq, Repr

/-- The way a request is going to be answered. -/
def answerTo (sv : Services E C D) (env : E) (server : Server C) (request : GatewayRequest) : Answer :=
  match routeFind server request.path request.method with
  | .error _ => .unrouted
  | .ok route =>
    match (enforceGates (sv.time env) server route request).2 with
    | some _ => .refused
    | none =>
      if keyed request && (idempotencyFind server request.idempotencyKey).isSome then .replayed
      else .handled

/-- What `sc_gateway_handle_request` does, answer by answer. -/
inductive Served (sv : Services E C D) (env : E)
    (inner : Server C → GatewayRequest → Server C × Res GatewayResponse) (server : Server C)
    (request : GatewayRequest) : Answer → Server C × Res GatewayResponse → Prop
  | unrouted (pathMatched : Bool) (hroute : routeFind server request.path request.method = .error pathMatched) :
      Served sv env inner server request .unrouted
        (server, .ok (responseSet (if pathMatched then 405 else 404)
          (if pathMatched then str "method not allowed" else str "not found")))
  | refused (route : GatewayRoute) (refusal : GatewayResponse)
      (hroute : routeFind server request.path request.method = .ok route)
      (hgate : (enforceGates (sv.time env) server route request).2 = some refusal) :
      Served sv env inner server request .refused
        ((enforceGates (sv.time env) server route request).1, .ok refusal)
  | replayed (route : GatewayRoute) (cached : IdempotencyEntry)
      (hroute : routeFind server request.path request.method = .ok route)
      (hgate : (enforceGates (sv.time env) server route request).2 = none) (hkeyed : keyed request = true)
      (hfind : idempotencyFind server request.idempotencyKey = some cached) :
      Served sv env inner server request .replayed
        ((enforceGates (sv.time env) server route request).1, .ok (responseCopy cached.response))
  | handled (route : GatewayRoute) (hroute : routeFind server request.path request.method = .ok route)
      (hgate : (enforceGates (sv.time env) server route request).2 = none)
      (hfind : keyed request = true → idempotencyFind server request.idempotencyKey = none) :
      Served sv env inner server request .handled
        (idempotencyStore request (runHandler sv env inner route.handler
          (enforceGates (sv.time env) server route request).1 request))

/-- **The inversion of `sc_gateway_handle_request`.** -/
theorem serve_served (sv : Services E C D) (env : E)
    (inner : Server C → GatewayRequest → Server C × Res GatewayResponse) (server : Server C)
    (request : GatewayRequest) :
    Served sv env inner server request (answerTo sv env server request)
      (serve sv env inner server request) := by
  unfold serve answerTo
  cases hroute : routeFind server request.path request.method with
  | error pathMatched => exact .unrouted pathMatched hroute
  | ok route =>
    dsimp only
    have hsame : idempotencyFind (enforceGates (sv.time env) server route request).1
        request.idempotencyKey = idempotencyFind server request.idempotencyKey := by
      obtain ⟨_, _, _, _, hframe⟩ := enforceGates_frame (sv.time env) server route request
      rw [hframe]
      rfl
    rw [hsame]
    cases hgate : (enforceGates (sv.time env) server route request).2 with
    | some refusal => exact .refused route refusal hroute hgate
    | none =>
      by_cases hkeyed : keyed request = true
      · rw [if_pos hkeyed, hkeyed, Bool.true_and]
        cases hfind : idempotencyFind server request.idempotencyKey with
        | none => exact .handled route hroute hgate fun _ => hfind
        | some cached => exact .replayed route cached hroute hgate hkeyed hfind
      · rw [if_neg hkeyed, Bool.eq_false_of_not_eq_true hkeyed, Bool.false_and]
        exact .handled route hroute hgate fun h => absurd h hkeyed

/-- **The frame of a request.** -/
theorem serve_framed (sv : Services E C D) (env : E)
    {inner : Server C → GatewayRequest → Server C × Res GatewayResponse}
    (hinner : ∀ s r, Framed s (inner s r).1) (server : Server C) (request : GatewayRequest) :
    Framed server (serve sv env inner server request).1 := by
  have hserved := serve_served sv env inner server request
  generalize serve sv env inner server request = outcome, answerTo sv env server request = answer
    at hserved ⊢
  cases hserved with
  | unrouted => exact .refl server
  | refused route => exact enforceGates_framed (sv.time env) server route request
  | replayed route => exact enforceGates_framed (sv.time env) server route request
  | handled route =>
    have hrun := (enforceGates_framed (sv.time env) server route request).trans
      (runHandler_framed sv env hinner route.handler
        (enforceGates (sv.time env) server route request).1 request)
    obtain ⟨_, hstore⟩ := idempotencyStore_frame request
      (runHandler sv env inner route.handler (enforceGates (sv.time env) server route request).1 request)
    rw [hstore]
    exact hrun.trans ⟨_, _, _, _, _, _, _, _, _, _, id, rfl⟩

theorem handleRequest_framed (sv : Services E C D) (env : E) (server : Server C)
    (request : GatewayRequest) : Framed server (handleRequest sv env server request).1 :=
  serve_framed sv env (fun s r => serve_framed sv env (fun s _ => .refl s) s r) server request

/-! ## Nesting -/

/-- A routed request of a JSON-RPC call is one of six. -/
theorem jsonrpcCall_route {requestJson : Bytes} {id : Option Json} {request : GatewayRequest}
    (h : jsonrpcCall requestJson = .route id request) :
    ∃ name, jsonrpcRoute name = some (request.path, request.method) := by
  unfold jsonrpcCall at h
  split at h
  · dsimp only at h
    split at h
    · split at h
      · unfold jsonrpcMethodCall at h
        split at h
        · exact nomatch h
        · next method _ _ _ =>
          cases hroute : jsonrpcRoute method with
          | none => rw [hroute] at h; exact nomatch h
          | some target =>
            rw [hroute] at h
            obtain ⟨-, rfl⟩ := JsonrpcCall.route.inj h
            exact ⟨method, hroute⟩
      · exact nomatch h
    · exact nomatch h
  · exact nomatch h

/-- No method is routed to `/jsonrpc` or to `/pair`. -/
theorem jsonrpcRoute_ne {name path : Bytes} {method : GatewayMethod}
    (h : jsonrpcRoute name = some (path, method)) : path ≠ str "/jsonrpc" ∧ path ≠ str "/pair" := by
  unfold jsonrpcRoute at h
  split_ifs at h <;> obtain rfl := (Prod.mk.inj (Option.some.inj h)).1 <;> decide

/-- **A nested request is not nested again.** -/
theorem nested_not_jsonrpc {server : Server C} {requestJson : Bytes} {id : Option Json}
    {request : GatewayRequest} (h : jsonrpcCall requestJson = .route id request) {route : GatewayRoute}
    (hroute : routeFind server request.path request.method = .ok route) :
    route.handler ≠ .handleJsonrpcRoute := by
  obtain ⟨name, hname⟩ := jsonrpcCall_route h
  obtain ⟨htable, -, hmatch⟩ := routeFind_ok hroute
  intro hjsonrpc
  have hpath : route.path = str "/jsonrpc" := by
    have hall : ∀ r ∈ gatewayRoutes, r.handler = .handleJsonrpcRoute → r.path = str "/jsonrpc" := by
      decide
    exact hall route htable hjsonrpc
  rw [routeMatches, hpath, if_neg (by decide), beq_iff_eq] at hmatch
  exact (jsonrpcRoute_ne hname).1 hmatch

/-- Only the handler of the route looks at nested requests. -/
theorem serve_congr {sv : Services E C D} {env : E}
    {inner inner' : Server C → GatewayRequest → Server C × Res GatewayResponse} {server : Server C}
    {request : GatewayRequest}
    (h : ∀ route, routeFind server request.path request.method = .ok route → ∀ s,
      runHandler sv env inner route.handler s request = runHandler sv env inner' route.handler s request) :
    serve sv env inner server request = serve sv env inner' server request := by
  unfold serve
  cases hroute : routeFind server request.path request.method with
  | error pathMatched => rfl
  | ok route => simp only [h route hroute]

/-- A nested request is served alike whatever stands for a request nested in it. -/
theorem serve_nested (sv : Services E C D) (env : E)
    (inner inner' : Server C → GatewayRequest → Server C × Res GatewayResponse) (server : Server C)
    {requestJson : Bytes} {id : Option Json} {request : GatewayRequest}
    (h : jsonrpcCall requestJson = .route id request) :
    serve sv env inner server request = serve sv env inner' server request := by
  refine serve_congr fun route hroute s => ?_
  have hplain := nested_not_jsonrpc h hroute
  cases hhandler : route.handler <;> first | rfl | exact absurd hhandler hplain

/-- **`sc_gateway_handle_request` calls itself**: two levels of `serve` are all levels. -/
theorem handleRequest_eq (sv : Services E C D) (env : E) :
    handleRequest sv env = serve sv env (handleRequest sv env) := by
  have hjsonrpc : ∀ (inner inner' : Server C → GatewayRequest → Server C × Res GatewayResponse)
      (server : Server C) (text : Bytes),
      jsonrpcHandleWith (serve sv env inner) server text = jsonrpcHandleWith (serve sv env inner') server text := by
    intro inner inner' server text
    unfold jsonrpcHandleWith
    cases hcall : jsonrpcCall text with
    | fail => rfl
    | ping => rfl
    | route id request =>
      dsimp only
      rw [serve_nested sv env inner inner' server hcall]
  funext server request
  refine serve_congr fun route _ s => ?_
  show runHandler sv env (serve sv env _) route.handler s request =
    runHandler sv env (serve sv env (serve sv env _)) route.handler s request
  cases route.handler <;> first | rfl | (simp only [runHandler]; rw [hjsonrpc])

/-! ## A small gateway -/

/-- Services whose environment is the time: an agent that echoes, an accepting configuration, no
    files. -/
def echoServices : Services Int Unit Unit where
  time now := now
  randomBytes _ := .ok (Vector.replicate 32 0)
  processMessage _ turn := ([], .ok turn.input)
  acpHandleLine _ line := ([], .ok line)
  configGetProp _ _ := .ok (str "value")
  configSetProp config _ _ := (config, .ok ())
  openRoot _ _ := none
  openAt _ _ _ _ := .error .other
  isRegular _ _ := false
  contents _ _ := none

/-- A started gateway with the pairing code `code` and the token `token`. -/
def smallGateway : Server Unit :=
  gatewayServerStart (gatewayServerNew 0
    { agent := true, config := some (), pairingCode := str "code", authToken := str "token" })

end SmolClaw.Gateway
