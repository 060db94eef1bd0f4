/-
  Who changes the gateway's sessions and configuration.

  1. **Entry points** — raw HTTP, a request structure, JSON-RPC and websocket text.  All but one path
     through them end in `sc_gateway_handle_request`, where the token gate stands.

  2. **One request** — without the server's token no session and no configuration value changes
     (`serve_unauthenticated`), because only handlers behind the gate touch them
     (`open_handler_frame`); no request changes the number of queued websocket messages
     (`handleRequest_queued`).

  3. **The exception** — the websocket text `[disconnect]` removes a session before any gate.  A run
     respects authority exactly as long as nobody without the token uses it (`authority_iff`).
-/
import SmolClaw.Lib.Run
import SmolClaw.Gateway.Server

namespace SmolClaw.Gateway

open Lib.Run

variable {E C D : Type}

/-! ## Entry points -/

/-- The calls of the four entry points. -/
inductive Call where
  | http (raw : Bytes)
  | request (request : GatewayRequest)
  | jsonrpc (requestJson : Bytes)
  | websocket (text authToken sessionId : Bytes)
  deriving DecidableEq, Repr

section Entry

variable (sv : Services E C D) (env : E)

/-- `sc_gateway_handle_http` -/
def handleHttp (server : Server C) (raw : Bytes) : Server C × Res Bytes :=
  match parseHttpRequest raw with
  | .error e => (server, .error e)
  | .ok request =>
    ((handleRequest sv env server request).1, (handleRequest sv env server request).2.map writeHttpResponse)

/-- The request of a websocket text. -/
def websocketRequest (text authToken sessionId : Bytes) : GatewayRequest where
  method := .post
  path := if sessionId = str "acp" then str "/acp" else str "/ws/chat"
  body := text
  authToken := authToken
  sessionId := sessionId
  requestId := str "websocket"

/-- The answer of `sc_gateway_websocket_receive_text` to a response. -/
def websocketAnswer (response : GatewayResponse) : Res Bytes :=
  if response.status = 200 then .ok response.body
  else Status.http "sc.gateway_websocket.request_failed"

/-- `sc_gateway_websocket_receive_text` -/
def websocketReceiveText (server : Server C) (text authToken sessionId : Bytes) :
    Server C × Res Bytes :=
  if !server.websocketEnabled then (server, Status.unsupported "sc.gateway_websocket.disabled")
  else if text = str "[disconnect]" then
    ((sessionRemove server sessionId).1, (sessionRemove server sessionId).2.map fun _ => [])
  else if server.maxWsMessageBytes < text.length then
    (server, Status.invalidArgument "sc.gateway_websocket.message_too_large")
  else if server.maxWsQueuedMessages ≤ server.wsQueuedMessages then
    (server, Status.timeout "sc.gateway_websocket.backpressure")
  else
    let queued := { server with wsQueuedMessages := server.wsQueuedMessages + 1 }
    let outcome := handleRequest sv env queued (websocketRequest text authToken sessionId)
    ({ outcome.1 with wsQueuedMessages := outcome.1.wsQueuedMessages - 1 },
      outcome.2 >>= websocketAnswer)

/-- The server after a call. -/
def callStep (server : Server C) : E × Call → Server C
  | (env, .http raw) => (handleHttp sv env server raw).1
  | (env, .request request) => (handleRequest sv env server request).1
  | (env, .jsonrpc requestJson) => (jsonrpcHandle sv env server requestJson).1
  | (env, .websocket text authToken sessionId) =>
    (websocketReceiveText sv env server text authToken sessionId).1

end Entry

/-- The token a call presents: in the header, the request, the parameters or the argument. -/
def callToken : Call → Option Bytes
  | .http raw =>
    match parseHttpRequest raw with
    | .ok request => some request.authToken
    | .error _ => none
  | .request request => some request.authToken
  | .jsonrpc requestJson =>
    match jsonrpcCall requestJson with
    | .route _ request => some request.authToken
    | _ => none
  | .websocket _ authToken _ => some authToken

/-- The call presents the server's own, non-empty token. -/
def presentsToken (server : Server C) (call : Call) : Bool := (callToken call).any (tokenMatches server)

/-! ## One request -/

/-- The list of sessions and the configuration are the same. -/
structure SameSessions (s t : Server C) : Prop where
  sessions : t.sessions = s.sessions
  config : t.config = s.config

theorem SameSessions.refl (s : Server C) : SameSessions s s := ⟨rfl, rfl⟩

theorem enforceGates_same (now : Int) (server : Server C) (route : GatewayRoute)
    (request : GatewayRequest) :
    SameSessions server (enforceGates now server route request).1 := by
  obtain ⟨_, _, _, _, hframe⟩ := enforceGates_frame now server route request
  rw [hframe]
  exact ⟨rfl, rfl⟩

/-- The handlers in front of the token gate. -/
theorem open_handlers : ∀ route ∈ gatewayRoutes, route.authMode ≠ .bearer →
    route.handler = .handleStatus ∨ route.handler = .handleHealth ∨ route.handler = .handlePair ∨
      route.handler = .handleStatic := by
  decide

/-- **The open handlers** touch no session and no configuration. -/
theorem open_handler_frame (sv : Services E C D) (env : E)
    (inner : Server C → GatewayRequest → Server C × Res GatewayResponse) {route : GatewayRoute}
    (htable : route ∈ gatewayRoutes) (hopen : route.authMode ≠ .bearer) (server : Server C)
    (request : GatewayRequest) :
    SameSessions server (runHandler sv env inner route.handler server request).1 := by
  rcases open_handlers route htable hopen with h | h | h | h
  · rw [h]; exact .refl server
  · rw [h]; exact .refl server
  · rw [h]
    obtain ⟨_, _, -, hframe⟩ := handlePair_frame (sv.time env) (sv.randomBytes env) server request
    show SameSessions server (handlePair (sv.time env) (sv.randomBytes env) server request).1
    rw [hframe]
    exact ⟨rfl, rfl⟩
  · rw [h]; exact .refl server

/-- **Without the token** a request changes no session and no configuration. -/
theorem serve_unauthenticated (sv : Services E C D) (env : E)
    (inner : Server C → GatewayRequest → Server C × Res GatewayResponse) (server : Server C)
    (request : GatewayRequest) (htoken : tokenMatches server request.authToken = false) :
    SameSessions server (serve sv env inner server request).1 := by
  have hserved := serve_served sv env inner server request
  generalize serve sv env inner server request = outcome, answerTo sv env server request = answer
    at hserved ⊢
  cases hserved with
  | unrouted => exact .refl server
  | refused route => exact enforceGates_same (sv.time env) server route request
  | replayed route => exact enforceGates_same (sv.time env) server route request
  | handled route hroute hgate hfind =>
    have hopen : route.authMode ≠ .bearer := by
      intro hmode
      rw [enforceGates_bearer hmode hgate] at htoken
      exact nomatch htoken
    have hgates := enforceGates_same (sv.time env) server route request
    have hrun := open_handler_frame sv env inner (routeFind_ok hroute).1 hopen
      (enforceGates (sv.time env) server route request).1 request
    obtain ⟨_, hstore⟩ := idempotencyStore_frame request
      (runHandler sv env inner route.handler (enforceGates (sv.time env) server route request).1 request)
    rw [hstore]
    exact ⟨hrun.sessions.trans hgates.sessions, hrun.config.trans hgates.config⟩

/-- No request changes the number of queued messages. -/
theorem handleRequest_queued (sv : Services E C D) (env : E) (server : Server C)
    (request : GatewayRequest) :
    (handleRequest sv env server request).1.wsQueuedMessages = server.wsQueuedMessages := by
  obtain ⟨_, _, _, _, _, _, _, _, _, _, -, hframe⟩ := handleRequest_framed sv env server request
  rw [hframe]

theorem jsonrpcHandle_queued (sv : Services E C D) (env : E) (server : Server C) (requestJson : Bytes) :
    (jsonrpcHandle sv env server requestJson).1.wsQueuedMessages = server.wsQueuedMessages := by
  obtain ⟨_, _, _, _, _, _, _, _, _, _, -, hframe⟩ :=
    jsonrpcHandleWith_framed (handleRequest_framed sv env) server requestJson
  rw [jsonrpcHandle, hframe]

theorem sessionRemove_queued (server : Server C) (sessionId : Bytes) :
    (sessionRemove server sessionId).1.wsQueuedMessages = server.wsQueuedMessages := by
  unfold sessionRemove
  split
  · rfl
  · split <;> rfl

/-! ## Calls -/

/-- What a call may do: change sessions or configuration with the token only, and leave the number of
    queued websocket messages as it was. -/
def Authorized (sv : Services E C D) (server : Server C) (call : E × Call) : Prop :=
  (presentsToken server call.2 = true ∨ SameSessions server (callStep sv server call)) ∧
    (callStep sv server call).wsQueuedMessages = server.wsQueuedMessages

/-- The call is a websocket `[disconnect]` of a listed session without the token. -/
def openDisconnect (server : Server C) : Call → Bool
  | .websocket text authToken sessionId =>
    server.websocketEnabled && text == str "[disconnect]" && !sessionId.isEmpty &&
      server.sessions.any (·.id == sessionId) && !tokenMatches server authToken
  | _ => false

/-- A request respects authority. -/
theorem handleRequest_authorized (sv : Services E C D) (env : E) (server : Server C)
    (request : GatewayRequest) :
    tokenMatches server request.authToken = true ∨
      SameSessions server (handleRequest sv env server request).1 := by
  cases htoken : tokenMatches server request.authToken with
  | true => exact Or.inl rfl
  | false => exact Or.inr (serve_unauthenticated sv env _ server request htoken)

/-- Removing a listed session changes the list. -/
theorem eraseP_ne {sessions : List GatewaySession} {sessionId : Bytes}
    (h : sessions.any (·.id == sessionId) = true) :
    sessions.eraseP (·.id == sessionId) ≠ sessions := by
  obtain ⟨s, hs, hid⟩ := List.any_eq_true.mp h
  intro heq
  have hlength := List.length_eraseP_of_mem (p := (·.id == sessionId)) hs hid
  rw [heq] at hlength
  have hpos : 0 < sessions.length := List.length_pos_of_mem hs
  omega

theorem sessionRemove_fst (server : Server C) (sessionId : Bytes) :
    (sessionRemove server sessionId).1 =
      if !sessionId.isEmpty && server.sessions.any (·.id == sessionId) then
        { server with sessions := server.sessions.eraseP (·.id == sessionId) }
      else server := by
  unfold sessionRemove sessionFind
  cases hempty : sessionId.isEmpty with
  | true => rfl
  | false =>
    cases hfind : server.sessions.find? (·.id == sessionId) with
    | none =>
      have hnone : server.sessions.any (·.id == sessionId) = false := by
        rw [List.any_eq_false]
        exact List.find?_eq_none.mp hfind
      rw [hnone]
      rfl
    | some s =>
      have hsome : server.sessions.any (·.id == sessionId) = true :=
        List.any_eq_true.mpr ⟨s, List.mem_of_find?_eq_some hfind,
          List.find?_some (p := fun s : GatewaySession => s.id == sessionId) hfind⟩
      rw [hsome]
      rfl

/-- A websocket text respects authority unless it is an open disconnect. -/
theorem websocket_authorized_iff (sv : Services E C D) (env : E) (server : Server C)
    (text authToken sessionId : Bytes) :
    Authorized sv server (env, .websocket text authToken sessionId) ↔
      openDisconnect server (.websocket text authToken sessionId) = false := by
  have hpresents : presentsToken server (.websocket text authToken sessionId) =
      tokenMatches server authToken := Option.any_some ..
  unfold Authorized openDisconnect
  simp only [callStep, websocketReceiveText]
  rw [hpresents]
  by_cases henabled : server.websocketEnabled = true
  · have hon : ¬ (!server.websocketEnabled) = true := by rw [henabled]; decide
    rw [if_neg hon]
    by_cases hdisconnect : text = str "[disconnect]"
    · rw [if_pos hdisconnect]
      refine ⟨fun h => ?_, fun h => ⟨?_, sessionRemove_queued server sessionId⟩⟩
      · by_contra hopen
        rw [Bool.not_eq_false, Bool.and_eq_true, Bool.and_eq_true, Bool.and_eq_true] at hopen
        obtain ⟨⟨⟨-, hid⟩, hlisted⟩, hdenied⟩ := hopen
        rcases h.1 with htoken | hsame
        · rw [htoken] at hdenied
          exact nomatch hdenied
        · refine eraseP_ne hlisted ?_
          have hsessions := hsame.sessions
          rwa [sessionRemove_fst, hid, hlisted, if_pos (by rfl)] at hsessions
      · cases htoken : tokenMatches server authToken with
        | true => exact Or.inl rfl
        | false =>
          rw [htoken, hdisconnect, henabled] at h
          have hkeep : (!sessionId.isEmpty && server.sessions.any (·.id == sessionId)) = false := by
            simpa using h
          rw [sessionRemove_fst, hkeep]
          exact Or.inr (.refl server)
    · rw [if_neg hdisconnect]
      have hclosed : (server.websocketEnabled && text == str "[disconnect]" && !sessionId.isEmpty &&
          server.sessions.any (·.id == sessionId) && !tokenMatches server authToken) = false := by
        simp [hdisconnect]
      refine iff_of_true ?_ hclosed
      split
      · exact ⟨Or.inr (.refl server), rfl⟩
      split
      · exact ⟨Or.inr (.refl server), rfl⟩
      · -- the counter goes up, the request leaves it, and it goes down again
        let queued := { server with wsQueuedMessages := server.wsQueuedMessages + 1 }
        let request := websocketRequest text authToken sessionId
        have hauthorized := handleRequest_authorized sv env queued request
        have hqueued := handleRequest_queued sv env queued request
        refine ⟨hauthorized.imp_right fun hsame => ⟨hsame.sessions, hsame.config⟩, ?_⟩
        show (handleRequest sv env queued request).1.wsQueuedMessages - 1 = server.wsQueuedMessages
        rw [hqueued]
        rfl
  · have hoff : (!server.websocketEnabled) = true := by simpa using henabled
    rw [if_pos hoff]
    exact iff_of_true ⟨Or.inr (.refl server), rfl⟩ (by simp [Bool.eq_false_of_not_eq_true henabled])

/-- **One call** respects authority unless it is an open disconnect. -/
theorem authorized_iff (sv : Services E C D) (server : Server C) (call : E × Call) :
    Authorized sv server call ↔ openDisconnect server call.2 = false := by
  obtain ⟨env, call⟩ := call
  cases call with
  | http raw =>
    refine iff_of_true ?_ rfl
    unfold Authorized presentsToken callToken
    simp only [callStep, handleHttp]
    cases parseHttpRequest raw with
    | error e => exact ⟨Or.inr (.refl server), rfl⟩
    | ok request =>
      exact ⟨handleRequest_authorized sv env server request, handleRequest_queued sv env server request⟩
  | request request =>
    exact iff_of_true
      ⟨handleRequest_authorized sv env server request, handleRequest_queued sv env server request⟩ rfl
  | jsonrpc requestJson =>
    refine iff_of_true ⟨?_, jsonrpcHandle_queued sv env server requestJson⟩ rfl
    unfold presentsToken callToken
    simp only [callStep, jsonrpcHandle, jsonrpcHandleWith]
    cases jsonrpcCall requestJson with
    | fail => exact Or.inr (by split_ifs <;> exact .refl server)
    | ping => exact Or.inr (by split_ifs <;> exact .refl server)
    | route _ request =>
      refine (handleRequest_authorized sv env server request).imp_right fun hsame => ?_
      split_ifs
      · exact .refl server
      · exact .refl server
      · exact hsame
  | websocket text authToken sessionId => exact websocket_authorized_iff sv env server text authToken sessionId

/-- **Authority over a run**: sessions and configuration change in calls with the token only, and the
    queue counter is restored by every call, exactly when no call is an open disconnect. -/
theorem authority_iff (sv : Services E C D) (server : Server C) (calls : List (E × Call)) :
    EachStep (callStep sv) (Authorized sv) server calls ↔
      EachStep (callStep sv) (fun s call => openDisconnect s call.2 = false) server calls :=
  eachStep_congr (callStep sv) (I := fun _ => True) (fun _ _ _ => trivial)
    (fun s call _ => authorized_iff sv s call) calls server trivial

/-- **A stranger ends a session**: the owner of the token chats in a session, and a websocket text
    without the token removes it. -/
theorem stranger_disconnects :
    let chat : GatewayRequest :=
      { method := .post, path := str "/ws/chat", body := str "hi", authToken := str "token",
        sessionId := str "s" }
    let calls := [(1, Call.request chat), (2, .websocket (str "[disconnect]") [] (str "s"))]
    ¬ EachStep (callStep echoServices) (Authorized echoServices) smallGateway calls ∧
      (callStep echoServices smallGateway (1, .request chat)).sessions =
        [⟨str "s", .idle, false, str "hi"⟩] ∧
      (run (callStep echoServices) smallGateway calls).sessions = [] := by
  intro chat calls
  refine ⟨fun h => ?_, by decide, by decide⟩
  rcases h.2.1.1 with htoken | hsame
  · exact absurd htoken (by decide)
  · exact absurd hsame.sessions (by decide)

end SmolClaw.Gateway
