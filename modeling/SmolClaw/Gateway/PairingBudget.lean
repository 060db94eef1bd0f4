/-
  How often pairing codes are compared (`enforce_gates`, `src/gateway/gateway.c`).

  1. **Two windows** — `POST /pair` is counted in the pairing window, every other request in the request
     window (`enforceGates_pairing`, `enforceGates_other`).  The pairing window is `Lib.FixedWindow` with
     60 seconds.

  2. **One call** — whatever the entry point, a call leaves the pairing window alone or makes ONE attempt
     on it, and no code is compared unless the attempt passes (`gatewayStep_attempts`).  Requests that
     are routed by others never pair.

  3. **Runs** — over any stretch of time the comparisons are bounded by the windows that fit in it
     (`pairing_bounded`).
-/
import SmolClaw.Gateway.Authority
import SmolClaw.Gateway.Pairing
import SmolClaw.Lib.FixedWindow

namespace SmolClaw.Gateway

open Lib.Run Lib.FixedWindow

variable {E C D : Type}

/-! ## The two windows -/

/-- The window of the pairing attempts. -/
def pairingWindow (server : Server C) : Window := ⟨server.pairingWindowStarted, server.pairingAttemptCount⟩

/-- The window of all other requests. -/
def requestWindow (server : Server C) : Window := ⟨server.requestWindowStarted, server.requestCount⟩

/-- The pairing window is a fixed window of 60 seconds. -/
theorem countPairingAttempt_eq (now : Int) (server : Server C) :
    pairingWindow (countPairingAttempt now server).1 =
        ((pairingWindow server).attempt 60 server.pairingAttemptLimit now).1 ∧
      (countPairingAttempt now server).2 =
        ((pairingWindow server).attempt 60 server.pairingAttemptLimit now).2 ∧
      requestWindow (countPairingAttempt now server).1 = requestWindow server := by
  by_cases hover : now < server.pairingWindowStarted ∨ 60 ≤ now - server.pairingWindowStarted
  · have hroll : (pairingWindow server).roll 60 now = ⟨now, 0⟩ := if_pos hover
    rw [Window.attempt, hroll, countPairingAttempt, if_pos hover]
    dsimp only
    split <;> exact ⟨rfl, rfl, rfl⟩
  · have hroll : (pairingWindow server).roll 60 now = pairingWindow server := if_neg hover
    have hcount : (pairingWindow server).count = server.pairingAttemptCount := rfl
    rw [Window.attempt, hroll, countPairingAttempt, if_neg hover, hcount]
    split <;> exact ⟨rfl, rfl, rfl⟩

/-- The request window knows nothing of pairing. -/
theorem countRequest_pairingWindow (now : Int) (server : Server C) :
    pairingWindow (countRequest now server).1 = pairingWindow server := by
  unfold countRequest
  split <;> dsimp only <;> split <;> rfl

/-- **The pairing route** is counted in its own window, once, and passes only as an attempt that does. -/
theorem enforceGates_pairing (now : Int) (server : Server C) {route : GatewayRoute}
    (hmode : route.authMode = .pairing) (request : GatewayRequest) :
    requestWindow (enforceGates now server route request).1 = requestWindow server ∧
      ((pairingWindow (enforceGates now server route request).1 = pairingWindow server ∧
          (enforceGates now server route request).2 ≠ none) ∨
        (pairingWindow (enforceGates now server route request).1 =
            ((pairingWindow server).attempt 60 server.pairingAttemptLimit now).1 ∧
          ((enforceGates now server route request).2 = none →
            ((pairingWindow server).attempt 60 server.pairingAttemptLimit now).2 = true))) := by
  obtain ⟨hwindow, hpasses, hrequests⟩ := countPairingAttempt_eq now server
  rw [enforceGates]
  cases earlyGates server route request with
  | some refusal => exact ⟨rfl, Or.inl ⟨rfl, Option.some_ne_none refusal⟩⟩
  | none =>
    dsimp only
    rw [if_pos hmode]
    refine ⟨hrequests, Or.inr ⟨hwindow, fun hnone => ?_⟩⟩
    rw [← hpasses]
    by_contra hfull
    dsimp only at hnone
    rw [if_neg hfull] at hnone
    cases hnone

/-- Every other route is counted elsewhere. -/
theorem enforceGates_other (now : Int) (server : Server C) {route : GatewayRoute}
    (hmode : route.authMode ≠ .pairing) (request : GatewayRequest) :
    pairingWindow (enforceGates now server route request).1 = pairingWindow server := by
  rw [enforceGates]
  cases earlyGates server route request with
  | some refusal => rfl
  | none =>
    dsimp only
    rw [if_neg hmode]
    exact countRequest_pairingWindow now server

/-! ## One request -/

/-- The pairing route is the route of `POST /pair`. -/
theorem pairing_route {server : Server C} {request : GatewayRequest} {route : GatewayRoute}
    (hroute : routeFind server request.path request.method = .ok route) :
    route.authMode = .pairing ↔ isPairing request = true := by
  have hpost : ∀ r ∈ gatewayRoutes, (r.authMode = .pairing → r.method = .post ∧ r.path = str "/pair") ∧
      (r.method = .post → r.path ≠ str "/static/*" ∧ (r.path = str "/pair" → r.authMode = .pairing)) := by
    decide
  obtain ⟨htable, hmethod, hmatch⟩ := routeFind_ok hroute
  obtain ⟨hmode, hback⟩ := hpost route htable
  rw [isPairing, Bool.and_eq_true, beq_iff_eq, beq_iff_eq]
  constructor
  · intro hpairing
    obtain ⟨hmpost, hpath⟩ := hmode hpairing
    rw [routeMatches, hpath, if_neg (by decide), beq_iff_eq] at hmatch
    exact ⟨hmethod.symm.trans hmpost, hmatch⟩
  · rintro ⟨hmpost, hpath⟩
    obtain ⟨hfixed, hpairing⟩ := hback (hmethod.trans hmpost)
    rw [routeMatches, if_neg hfixed, beq_iff_eq] at hmatch
    exact hpairing (hmatch.symm.trans hpath)

/-- A request that a JSON-RPC text routes is no pairing. -/
theorem nestedCall_not_pairing {server : Server C} {requestJson : Bytes} {nested : GatewayRequest}
    (h : nestedCall server requestJson = some nested) : isPairing nested = false := by
  obtain ⟨id, hid⟩ := nestedCall_some h
  obtain ⟨name, hname⟩ := jsonrpcCall_route hid
  rw [isPairing, beq_eq_false_iff_ne.mpr (jsonrpcRoute_ne hname).2, Bool.and_false]

/-- A JSON-RPC text leaves the pairing window alone. -/
theorem jsonrpc_pairingWindow {inner : Server C → GatewayRequest → Server C × Res GatewayResponse}
    (hinner : ∀ s r, isPairing r = false → pairingWindow (inner s r).1 = pairingWindow s)
    (server : Server C) (requestJson : Bytes) :
    pairingWindow (jsonrpcHandleWith inner server requestJson).1 = pairingWindow server := by
  rw [jsonrpcHandleWith_fst]
  cases hcall : nestedCall server requestJson with
  | none => rfl
  | some nested => exact hinner server nested (nestedCall_not_pairing hcall)

/-- Pairing itself counts nothing. -/
theorem handlePair_windows (now : Int) (random : Res (Vector UInt8 32)) (server : Server C)
    (request : GatewayRequest) :
    pairingWindow (handlePair now random server request).1 = pairingWindow server ∧
      requestWindow (handlePair now random server request).1 = requestWindow server := by
  obtain ⟨_, _, -, hframe⟩ := handlePair_frame now random server request
  rw [hframe]
  exact ⟨rfl, rfl⟩

/-- A handler leaves the pairing window alone, where a request nested in it does. -/
theorem runHandler_pairingWindow (sv : Services E C D) (env : E)
    {inner : Server C → GatewayRequest → Server C × Res GatewayResponse}
    (hinner : ∀ s r, isPairing r = false → pairingWindow (inner s r).1 = pairingWindow s)
    (handler : Handler) (server : Server C) (request : GatewayRequest) :
    pairingWindow (runHandler sv env inner handler server request).1 = pairingWindow server := by
  by_cases hpair : handler = .handlePair
  · rw [hpair]
    exact (handlePair_windows (sv.time env) (sv.randomBytes env) server request).1
  by_cases hjsonrpc : handler = .handleJsonrpcRoute
  · rw [hjsonrpc]
    exact jsonrpc_pairingWindow hinner server request.body
  · obtain ⟨_, _, _, hframe⟩ := runHandler_frame sv env inner hpair hjsonrpc server request
    rw [hframe]
    rfl

/-- Storing a response leaves every window alone. -/
theorem idempotencyStore_windows (request : GatewayRequest) (outcome : Server C × Res GatewayResponse) :
    pairingWindow (idempotencyStore request outcome).1 = pairingWindow outcome.1 ∧
      requestWindow (idempotencyStore request outcome).1 = requestWindow outcome.1 := by
  obtain ⟨_, hstore⟩ := idempotencyStore_frame request outcome
  rw [hstore]
  exact ⟨rfl, rfl⟩

/-- **A request that is no pairing** leaves the pairing window alone. -/
theorem serve_other (sv : Services E C D) (env : E)
    {inner : Server C → GatewayRequest → Server C × Res GatewayResponse}
    (hinner : ∀ s r, isPairing r = false → pairingWindow (inner s r).1 = pairingWindow s)
    (server : Server C) {request : GatewayRequest} (hother : isPairing request = false) :
    pairingWindow (serve sv env inner server request).1 = pairingWindow server := by
  have hmode : ∀ route, routeFind server request.path request.method = .ok route →
      route.authMode ≠ .pairing := by
    intro route hroute hpairing
    rw [(pairing_route hroute).mp hpairing] at hother
    exact nomatch hother
  have hserved := serve_served sv env inner server request
  generalize serve sv env inner server request = outcome, answerTo sv env server request = answer
    at hserved ⊢
  cases hserved with
  | unrouted => rfl
  | refused route refusal hroute => exact enforceGates_other _ server (hmode route hroute) request
  | replayed route cached hroute => exact enforceGates_other _ server (hmode route hroute) request
  | handled route hroute =>
    rw [(idempotencyStore_windows request _).1, runHandler_pairingWindow sv env hinner]
    exact enforceGates_other _ server (hmode route hroute) request

theorem handleRequest_other (sv : Services E C D) (env : E) (server : Server C) {request : GatewayRequest}
    (hother : isPairing request = false) :
    pairingWindow (handleRequest sv env server request).1 = pairingWindow server :=
  serve_other sv env (fun s _ hr => serve_other sv env (fun _ _ _ => rfl) s hr) server hother

/-- The request compares its body with the pairing code: the handler of the pairing route runs. -/
def comparesCode (sv : Services E C D) (env : E) (server : Server C) (request : GatewayRequest) : Bool :=
  isPairing request && answerTo sv env server request == .handled

/-- **A pairing** leaves the request window alone, and the pairing window alone or makes one attempt
    on it; only an attempt that passes gets to the code. -/
theorem handleRequest_pairing (sv : Services E C D) (env : E) (server : Server C) {request : GatewayRequest}
    (hpair : isPairing request = true) :
    requestWindow (handleRequest sv env server request).1 = requestWindow server ∧
      ((pairingWindow (handleRequest sv env server request).1 = pairingWindow server ∧
          comparesCode sv env server request = false) ∨
        (pairingWindow (handleRequest sv env server request).1 =
            ((pairingWindow server).attempt 60 server.pairingAttemptLimit (sv.time env)).1 ∧
          (comparesCode sv env server request = true →
            ((pairingWindow server).attempt 60 server.pairingAttemptLimit (sv.time env)).2 = true))) := by
  have hgates : ∀ route, routeFind server request.path request.method = .ok route → _ := fun route hroute =>
    enforceGates_pairing (sv.time env) server ((pairing_route hroute).mpr hpair) request
  rw [comparesCode, hpair, Bool.true_and]
  have hserved := handleRequest_served sv env server request
  rw [show (visitIn sv env server request).answer = answerTo sv env server request from rfl] at hserved
  generalize handleRequest sv env server request = outcome, answerTo sv env server request = answer
    at hserved ⊢
  cases hserved with
  | unrouted => exact ⟨rfl, Or.inl ⟨rfl, rfl⟩⟩
  | refused route refusal hroute =>
    obtain ⟨hrequests, hsame | hattempt⟩ := hgates route hroute
    · exact ⟨hrequests, Or.inl ⟨hsame.1, rfl⟩⟩
    · exact ⟨hrequests, Or.inr ⟨hattempt.1, nofun⟩⟩
  | replayed route cached hroute =>
    obtain ⟨hrequests, hsame | hattempt⟩ := hgates route hroute
    · exact ⟨hrequests, Or.inl ⟨hsame.1, rfl⟩⟩
    · exact ⟨hrequests, Or.inr ⟨hattempt.1, nofun⟩⟩
  | handled route hroute hgate =>
    obtain ⟨hpairing, hrequests'⟩ := idempotencyStore_windows request
      (runHandler sv env (handleRequest sv env) route.handler
        (enforceGates (sv.time env) server route request).1 request)
    have hrun := handlePair_windows (sv.time env) (sv.randomBytes env)
      (enforceGates (sv.time env) server route request).1 request
    rw [hpairing, hrequests', routeFind_pairing hpair hroute]
    show requestWindow (handlePair _ _ _ _).1 = _ ∧ (pairingWindow (handlePair _ _ _ _).1 = _ ∧ _ ∨
      pairingWindow (handlePair _ _ _ _).1 = _ ∧ _)
    rw [hrun.1, hrun.2]
    obtain ⟨hrequests, hsame | hattempt⟩ := hgates route hroute
    · exact absurd hgate hsame.2
    · exact ⟨hrequests, Or.inr ⟨hattempt.1, fun _ => hattempt.2 hgate⟩⟩

/-! ## One call -/

section Calls

variable (sv : Services E C D) (env : E)

/-- The request a call routes, and the server it meets. -/
def routedBy (server : Server C) : Call → Option (Server C × GatewayRequest)
  | .http raw =>
    match parseHttpRequest raw with
    | .ok request => some (server, request)
    | .error _ => none
  | .request request => some (server, request)
  | .jsonrpc requestJson => (nestedCall server requestJson).map fun nested => (server, nested)
  | .websocket text authToken sessionId =>
    if !server.websocketEnabled || text == str "[disconnect]" ||
        decide (server.maxWsMessageBytes < text.length) ||
        decide (server.maxWsQueuedMessages ≤ server.wsQueuedMessages) then none
    else
      some ({ server with wsQueuedMessages := server.wsQueuedMessages + 1 },
        websocketRequest text authToken sessionId)

/-- All requests of a call: the one that is routed, and before it the one that is nested in it. -/
def requestsOf (server : Server C) (call : Call) : List (Server C × GatewayRequest) :=
  (routedBy server call).toList.flatMap fun n => (nestedIn sv env n.1 n.2).toList ++ [n]

/-- How often a call compares a pairing code. -/
def comparisons (server : Server C) (call : Call) : Nat :=
  (requestsOf sv env server call).countP fun n => comparesCode sv env n.1 n.2

end Calls

/-- From `s` to `t` the pairing window is left alone, or meets one attempt: at most that attempt, if it
    passes, compares a code. -/
structure OneAttempt (now : Int) (s t : Server C) (compared : Nat) : Prop where
  limit : t.pairingAttemptLimit = s.pairingAttemptLimit
  attempts : (pairingWindow t = pairingWindow s ∧ compared = 0) ∨
    (pairingWindow t = ((pairingWindow s).attempt 60 s.pairingAttemptLimit now).1 ∧
      compared ≤ if ((pairingWindow s).attempt 60 s.pairingAttemptLimit now).2 = true then 1 else 0)

/-- Nothing happens. -/
theorem OneAttempt.none {now : Int} {s t : Server C} (hlimit : t.pairingAttemptLimit = s.pairingAttemptLimit)
    (hsame : pairingWindow t = pairingWindow s) : OneAttempt now s t 0 :=
  ⟨hlimit, Or.inl ⟨hsame, rfl⟩⟩

/-- **One request**, with the one that is nested in it. -/
theorem handleRequest_attempts (sv : Services E C D) (env : E) (server : Server C)
    (request : GatewayRequest) :
    OneAttempt (sv.time env) server (handleRequest sv env server request).1
      (((nestedIn sv env server request).toList ++ [(server, request)]).countP
        fun n => comparesCode sv env n.1 n.2) := by
  have hlimit : (handleRequest sv env server request).1.pairingAttemptLimit = server.pairingAttemptLimit := by
    obtain ⟨_, _, _, _, _, _, _, _, _, _, -, hframe⟩ := handleRequest_framed sv env server request
    rw [hframe]
  have hnested : (nestedIn sv env server request).toList.countP
      (fun n => comparesCode sv env n.1 n.2) = 0 := by
    rw [List.countP_eq_zero]
    intro n hn
    rw [comparesCode, nested_not_pairing (Option.mem_toList.mp hn), Bool.false_and]
    exact Bool.false_ne_true
  rw [List.countP_append, hnested, Nat.zero_add]
  cases hpair : isPairing request with
  | false =>
    have hno : comparesCode sv env server request = false := by rw [comparesCode, hpair, Bool.false_and]
    rw [List.countP_cons_of_neg (by rw [hno]; exact Bool.false_ne_true)]
    exact .none hlimit (handleRequest_other sv env server hpair)
  | true =>
    refine ⟨hlimit, ?_⟩
    obtain ⟨-, ⟨hsame, hno⟩ | ⟨hattempt, hpasses⟩⟩ := handleRequest_pairing sv env server hpair
    · rw [List.countP_cons_of_neg (by rw [hno]; exact Bool.false_ne_true)]
      exact Or.inl ⟨hsame, rfl⟩
    · refine Or.inr ⟨hattempt, ?_⟩
      by_cases hcompares : comparesCode sv env server request = true
      · rw [if_pos (hpasses hcompares)]
        exact List.countP_le_length
      · have hzero : [(server, request)].countP (fun n => comparesCode sv env n.1 n.2) = 0 :=
          List.countP_cons_of_neg hcompares
        rw [hzero]
        exact Nat.zero_le _

/-- Removing a session counts nothing. -/
theorem sessionRemove_window (server : Server C) (sessionId : Bytes) :
    (sessionRemove server sessionId).1.pairingAttemptLimit = server.pairingAttemptLimit ∧
      pairingWindow (sessionRemove server sessionId).1 = pairingWindow server := by
  rw [sessionRemove_fst]
  split <;> exact ⟨rfl, rfl⟩

/-- A websocket text, the queue it stands in included. -/
theorem websocket_attempts (sv : Services E C D) (env : E) (server : Server C)
    (text authToken sessionId : Bytes) :
    OneAttempt (sv.time env) server (websocketReceiveText sv env server text authToken sessionId).1
      (comparisons sv env server (.websocket text authToken sessionId)) := by
  have hrefused : ∀ t : Server C, t.pairingAttemptLimit = server.pairingAttemptLimit →
      pairingWindow t = pairingWindow server → routedBy server (.websocket text authToken sessionId) = none →
      OneAttempt (sv.time env) server t
        (comparisons sv env server (.websocket text authToken sessionId)) := by
    intro t hlimit hsame hnone
    rw [comparisons, requestsOf, hnone]
    exact .none hlimit hsame
  unfold websocketReceiveText
  split
  · next hdisabled => exact hrefused _ rfl rfl (if_pos (by rw [hdisabled]; rfl))
  next henabled =>
    split
    · next hdisconnect =>
      obtain ⟨hlimit, hsame⟩ := sessionRemove_window server sessionId
      exact hrefused _ hlimit hsame (if_pos (by rw [hdisconnect, beq_self_eq_true, Bool.or_true]; rfl))
    next htext =>
      split
      · next hlong => exact hrefused _ rfl rfl (if_pos (by rw [decide_eq_true hlong, Bool.or_true]; rfl))
      next hshort =>
        split
        · next hfull => exact hrefused _ rfl rfl (if_pos (by rw [decide_eq_true hfull, Bool.or_true]))
        next hroom =>
          have hrouted : routedBy server (.websocket text authToken sessionId) =
              some ({ server with wsQueuedMessages := server.wsQueuedMessages + 1 },
                websocketRequest text authToken sessionId) := by
            refine if_neg ?_
            rw [Bool.eq_false_of_not_eq_true henabled, beq_eq_false_iff_ne.mpr htext,
              decide_eq_false hshort, decide_eq_false hroom]
            exact Bool.false_ne_true
          rw [comparisons, requestsOf, hrouted, Option.toList_some, List.flatMap_singleton]
          obtain ⟨hlimit, hattempts⟩ := handleRequest_attempts sv env
            { server with wsQueuedMessages := server.wsQueuedMessages + 1 }
            (websocketRequest text authToken sessionId)
          exact ⟨hlimit, hattempts⟩

/-- **One call** of any entry point. -/
theorem callStep_attempts (sv : Services E C D) (env : E) (server : Server C) (call : Call) :
    OneAttempt (sv.time env) server (callStep sv server (env, call)) (comparisons sv env server call) := by
  have hnone : OneAttempt (sv.time env) server server 0 := .none rfl rfl
  cases call with
  | http raw =>
    simp only [callStep, handleHttp, comparisons, requestsOf, routedBy]
    cases parseHttpRequest raw with
    | error e => exact hnone
    | ok request =>
      simp only [Option.toList_some, List.flatMap_singleton]
      exact handleRequest_attempts sv env server request
  | request request =>
    simp only [callStep, comparisons, requestsOf, routedBy, Option.toList_some, List.flatMap_singleton]
    exact handleRequest_attempts sv env server request
  | jsonrpc requestJson =>
    simp only [callStep, jsonrpcHandle, jsonrpcHandleWith_fst, comparisons, requestsOf, routedBy]
    cases nestedCall server requestJson with
    | none => exact hnone
    | some nested =>
      simp only [Option.map_some, Option.getD_some, Option.toList_some, List.flatMap_singleton]
      exact handleRequest_attempts sv env server nested
  | websocket text authToken sessionId => exact websocket_attempts sv env server text authToken sessionId

/-! ## Runs -/

/-- `sc_gateway_server_stop`, the listener apart -/
def gatewayServerStop (server : Server C) : Server C := { server with running := false }

/-- What happens to a server. -/
inductive GatewayAction (E : Type) where
  | call (env : E) (call : Call)
  | start
  | stop

/-- The time of an action, where it reads one. -/
def GatewayAction.time (sv : Services E C D) : GatewayAction E → Option Int
  | .call env _ => some (sv.time env)
  | .start | .stop => none

/-- A server, and the times at which a pairing code was compared. -/
structure PairingHistory (C : Type) where
  server : Server C
  compared : List Int

/-- One more action. -/
def gatewayStep (sv : Services E C D) (h : PairingHistory C) : GatewayAction E → PairingHistory C
  | .call env call =>
    ⟨callStep sv h.server (env, call),
      h.compared ++ List.replicate (comparisons sv env h.server call) (sv.time env)⟩
  | .start => ⟨gatewayServerStart h.server, h.compared⟩
  | .stop => ⟨gatewayServerStop h.server, h.compared⟩

/-- The comparisons in the stretch of `length` seconds from `first`. -/
def comparedWithin (first : Int) (length : Nat) (h : PairingHistory C) : Nat :=
  h.compared.countP fun time => decide (first ≤ time ∧ time ≤ first + length)

/-- **What a history keeps**, for one stretch: its comparisons are among the attempts that passed. -/
structure PairingCounted (limit : Nat) (first : Int) (length : Nat) (h : PairingHistory C) (last : Int) :
    Prop where
  limit_eq : h.server.pairingAttemptLimit = limit
  counted : Lib.FixedWindow.Counted 60 limit first length (pairingWindow h.server) last
    (comparedWithin first length h)

variable {limit length : Nat} {first last : Int}

/-- **Every call keeps the count.** -/
theorem PairingCounted.call {h : PairingHistory C} (hk : PairingCounted limit first length h last)
    (sv : Services E C D) (env : E) (call : Call) (hle : last ≤ sv.time env) :
    PairingCounted limit first length (gatewayStep sv h (.call env call)) (sv.time env) := by
  obtain ⟨hlimit, hattempts⟩ := callStep_attempts sv env h.server call
  refine ⟨hlimit.trans hk.limit_eq, ?_⟩
  have hcount : comparedWithin first length (gatewayStep sv h (.call env call)) =
      comparedWithin first length h +
        if decide (first ≤ sv.time env ∧ sv.time env ≤ first + length) = true
        then comparisons sv env h.server call else 0 := by
    rw [comparedWithin, gatewayStep, List.countP_append, List.countP_replicate]
    rfl
  rw [hk.limit_eq] at hattempts
  rw [hcount]
  show Lib.FixedWindow.Counted 60 limit first length (pairingWindow (callStep sv h.server (env, call))) _ _
  rcases hattempts with ⟨hsame, hzero⟩ | ⟨hattempt, hone⟩
  · rw [hsame, hzero, ite_self, Nat.add_zero]
    exact hk.counted.wait hle
  · rw [hattempt]
    refine (hk.counted.attempt (by decide) hle).mono (Nat.add_le_add_left ?_ _)
    by_cases hin : first ≤ sv.time env ∧ sv.time env ≤ first + length
    · rw [if_pos (decide_eq_true hin)]
      refine hone.trans ?_
      split
      · next hpasses => rw [if_pos ⟨hpasses, hin⟩]
      · exact Nat.zero_le _
    · rw [if_neg (by rw [decide_eq_false hin]; exact Bool.false_ne_true)]
      exact Nat.zero_le _

/-- **Runs**: what is counted stays counted. -/
theorem PairingCounted.run (sv : Services E C D) :
    ∀ (actions : List (GatewayAction E)) {h : PairingHistory C} {last : Int},
      PairingCounted limit first length h last →
        (last :: actions.filterMap (GatewayAction.time sv)).Pairwise (· ≤ ·) →
        ∃ last', PairingCounted limit first length (run (gatewayStep sv) h actions) last' := by
  intro actions
  induction actions with
  | nil => exact fun hk _ => ⟨_, hk⟩
  | cons action actions ih =>
    intro h last hk hordered
    cases action with
    | call env call =>
      obtain ⟨hlast, hrest⟩ := List.pairwise_cons.mp hordered
      exact ih (hk.call sv env call (hlast _ List.mem_cons_self)) hrest
    | start => exact ih ⟨hk.limit_eq, hk.counted⟩ hordered
    | stop => exact ih ⟨hk.limit_eq, hk.counted⟩ hordered

/-- **Brute force is bounded**: in any stretch of `T` seconds at most `limit * (T / 60 + 2)` requests get
    to the pairing code, whatever else the server is asked; and no request is counted in both windows. -/
theorem pairing_bounded (sv : Services E C D) (created : Int) (options : GatewayOptions C)
    (actions : List (GatewayAction E))
    (hordered : (created :: actions.filterMap (GatewayAction.time sv)).Pairwise (· ≤ ·)) :
    (∀ (first : Int) (T : Nat),
        comparedWithin first T (run (gatewayStep sv) ⟨gatewayServerNew created options, []⟩ actions) ≤
          (gatewayServerNew created options).pairingAttemptLimit * (T / 60 + 2)) ∧
      ∀ (env : E) (server : Server C) (request : GatewayRequest),
        (isPairing request = true →
          requestWindow (handleRequest sv env server request).1 = requestWindow server) ∧
        (isPairing request = false →
          pairingWindow (handleRequest sv env server request).1 = pairingWindow server) := by
  refine ⟨fun first T => ?_, fun env server request =>
    ⟨fun hpair => (handleRequest_pairing sv env server hpair).1, handleRequest_other sv env server⟩⟩
  have hnew : PairingCounted (gatewayServerNew created options).pairingAttemptLimit first T
      ⟨gatewayServerNew created options, []⟩ created :=
    ⟨rfl, .zero (Nat.zero_le _) (le_refl created)⟩
  obtain ⟨_, hkept⟩ := hnew.run sv actions hordered
  exact hkept.counted.bound

/-- Two guesses, the server started in between. -/
theorem pairing_bounded_guesses :
    comparedWithin 0 60 (run (gatewayStep echoServices) ⟨gatewayServerNew 0 { pairingCode := str "code" }, []⟩
      [.call 1 (.request strangersPairing), .start, .call 2 (.request strangersPairing),
        .call 3 (.request strangersPairing)]) ≤ 5 * (60 / 60 + 2) :=
  (pairing_bounded echoServices 0 { pairingCode := str "code" } _ (by decide)).1 0 60

end SmolClaw.Gateway
