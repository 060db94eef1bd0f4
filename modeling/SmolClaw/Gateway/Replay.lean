/-
  Stored responses and their replay (`idempotency_find`, `idempotency_store`, `src/gateway/gateway.c`).

  1. **Visits** — every request that goes through `sc_gateway_handle_request`, the one nested in a
     `POST /jsonrpc` included, leaves a visit: the request, how it was answered, the response.  A
     history is the server with the visits so far, in the order of their COMPLETION (`record`).

  2. **Store** — the stored responses are exactly those of the handled, successful visits with a key,
     in that order (`kept_record`), so a replay returns the response of the FIRST of them with the key
     (`visit_replayed`).

  3. **Soundness** — a replay is sound when that first visit asked for the same method and path.  The
     code looks up by key alone, so this is a condition on the requests: `replay_run`.
-/
import SmolClaw.Lib.Run
import SmolClaw.Gateway.Server

namespace SmolClaw.Gateway

open Lib.Run

variable {E C D : Type}

/-! ## Visits -/

/-- A request and what became of it. -/
structure Visit where
  request : GatewayRequest
  /-- the mode of its route, if it has one -/
  authMode : Option AuthMode
  /-- whether it presents the server's token -/
  authorized : Bool
  answer : Answer
  result : Res GatewayResponse

section Visiting

variable (sv : Services E C D) (env : E)

/-- The visit of a request. -/
def visitIn (server : Server C) (request : GatewayRequest) : Visit where
  request := request
  authMode :=
    match routeFind server request.path request.method with
    | .ok route => some route.authMode
    | .error _ => none
  authorized := tokenMatches server request.authToken
  answer := answerTo sv env server request
  result := (handleRequest sv env server request).2

/-- The request a JSON-RPC text has routed. -/
def nestedCall (server : Server C) (requestJson : Bytes) : Option GatewayRequest :=
  if requestJson.isEmpty || !server.jsonrpcEnabled then none
  else
    match jsonrpcCall requestJson with
    | .route _ nested => some nested
    | _ => none

/-- The request a request has routed while it is handled, and the server it then meets. -/
def nestedIn (server : Server C) (request : GatewayRequest) : Option (Server C × GatewayRequest) :=
  match routeFind server request.path request.method with
  | .error _ => none
  | .ok route =>
    if answerTo sv env server request = .handled ∧ route.handler = .handleJsonrpcRoute then
      (nestedCall server request.body).map fun nested =>
        ((enforceGates (sv.time env) server route request).1, nested)
    else none

/-- The visits of a request: the nested one completes first. -/
def visits (server : Server C) (request : GatewayRequest) : List Visit :=
  ((nestedIn sv env server request).map fun n => visitIn sv env n.1 n.2).toList ++
    [visitIn sv env server request]

end Visiting

/-- A server and the visits so far. -/
structure History (C : Type) where
  server : Server C
  log : List Visit

/-- One more request. -/
def record (sv : Services E C D) (h : History C) (call : E × GatewayRequest) : History C :=
  ⟨(handleRequest sv call.1 h.server call.2).1, h.log ++ visits sv call.1 h.server call.2⟩

/-! ## What is stored -/

/-- The entry `idempotency_store` makes of a handled request. -/
def entryOf (request : GatewayRequest) (result : Res GatewayResponse) : Option IdempotencyEntry :=
  match result with
  | .ok response =>
    if keyed request && response.successful then some ⟨request.idempotencyKey, responseCopy response⟩
    else none
  | .error _ => none

/-- The entry a visit leaves. -/
def Visit.stored (v : Visit) : Option IdempotencyEntry :=
  if v.answer = .handled then entryOf v.request v.result else none

/-- A visit leaves an entry with the key. -/
def Visit.stores (v : Visit) (key : Bytes) : Bool := v.stored.any (·.key == key)

/-- The visit answered with 200 to 299. -/
def Visit.successful (v : Visit) : Bool :=
  match v.result with
  | .ok response => response.successful
  | .error _ => false

theorem idempotencyStore_eq (request : GatewayRequest) (outcome : Server C × Res GatewayResponse) :
    (idempotencyStore request outcome).1.idempotency =
      outcome.1.idempotency ++ (entryOf request outcome.2).toList := by
  obtain ⟨server, result⟩ := outcome
  cases result with
  | error e => exact (List.append_nil _).symm
  | ok response =>
    simp only [idempotencyStore, entryOf]
    split
    · rfl
    · exact (List.append_nil _).symm

/-- A visit, with what its request did. -/
theorem handleRequest_served (sv : Services E C D) (env : E) (server : Server C)
    (request : GatewayRequest) :
    Served sv env (handleRequest sv env) server request (visitIn sv env server request).answer
      (handleRequest sv env server request) := by
  have hserved := serve_served sv env (handleRequest sv env) server request
  rwa [← handleRequest_eq] at hserved

theorem stored_of_ne {v : Visit} (h : v.answer ≠ .handled) : v.stored = none := if_neg h

/-- The gates store nothing. -/
theorem enforceGates_idempotency (now : Int) (server : Server C) (route : GatewayRoute)
    (request : GatewayRequest) :
    (enforceGates now server route request).1.idempotency = server.idempotency := by
  obtain ⟨_, _, _, _, hframe⟩ := enforceGates_frame now server route request
  rw [hframe]

/-- A handler stores nothing, nested requests apart. -/
theorem runHandler_idempotency (sv : Services E C D) (env : E)
    (inner : Server C → GatewayRequest → Server C × Res GatewayResponse) {handler : Handler}
    (hplain : handler ≠ .handleJsonrpcRoute) (server : Server C) (request : GatewayRequest) :
    (runHandler sv env inner handler server request).1.idempotency = server.idempotency := by
  by_cases hpair : handler = .handlePair
  · obtain ⟨_, _, -, hframe⟩ := handlePair_frame (sv.time env) (sv.randomBytes env) server request
    rw [hpair]
    show (handlePair (sv.time env) (sv.randomBytes env) server request).1.idempotency = _
    rw [hframe]
  · obtain ⟨_, _, _, hframe⟩ := runHandler_frame sv env inner hpair hplain server request
    rw [hframe]

/-- A handled request stores what its handler stored, then its own entry. -/
theorem handled_idempotency {sv : Services E C D} {env : E} {server : Server C}
    {request : GatewayRequest} {route : GatewayRoute}
    (hanswer : (visitIn sv env server request).answer = .handled)
    (houtcome : handleRequest sv env server request = idempotencyStore request
      (runHandler sv env (handleRequest sv env) route.handler
        (enforceGates (sv.time env) server route request).1 request)) :
    (handleRequest sv env server request).1.idempotency =
      (runHandler sv env (handleRequest sv env) route.handler
        (enforceGates (sv.time env) server route request).1 request).1.idempotency ++
        (visitIn sv env server request).stored.toList := by
  have hstored : (visitIn sv env server request).stored =
      entryOf request (handleRequest sv env server request).2 := if_pos hanswer
  rw [hstored, houtcome, idempotencyStore_eq, idempotencyStore_snd]

/-- A request that routes no other leaves its own entry. -/
theorem handleRequest_idempotency {sv : Services E C D} {env : E} {server : Server C}
    {request : GatewayRequest}
    (hplain : ∀ route, routeFind server request.path request.method = .ok route →
      answerTo sv env server request = .handled → route.handler ≠ .handleJsonrpcRoute) :
    (handleRequest sv env server request).1.idempotency =
      server.idempotency ++ (visitIn sv env server request).stored.toList := by
  have hserved := handleRequest_served sv env server request
  generalize houtcome : handleRequest sv env server request = outcome,
    hanswer : (visitIn sv env server request).answer = answer at hserved
  cases hserved with
  | unrouted =>
    rw [stored_of_ne (by rw [hanswer]; decide)]
    exact (List.append_nil _).symm
  | refused route =>
    rw [stored_of_ne (by rw [hanswer]; decide), enforceGates_idempotency]
    exact (List.append_nil _).symm
  | replayed route =>
    rw [stored_of_ne (by rw [hanswer]; decide), enforceGates_idempotency]
    exact (List.append_nil _).symm
  | handled route hroute =>
    rw [← houtcome, handled_idempotency hanswer houtcome,
      runHandler_idempotency sv env _ (hplain route hroute hanswer), enforceGates_idempotency]

/-- The server after a JSON-RPC text is the one its nested request leaves. -/
theorem jsonrpcHandleWith_fst (inner : Server C → GatewayRequest → Server C × Res GatewayResponse)
    (server : Server C) (requestJson : Bytes) :
    (jsonrpcHandleWith inner server requestJson).1 =
      ((nestedCall server requestJson).map fun nested => (inner server nested).1).getD server := by
  unfold jsonrpcHandleWith nestedCall
  cases requestJson.isEmpty <;> cases server.jsonrpcEnabled <;>
    simp only [Bool.true_or, Bool.false_or, Bool.not_true, Bool.not_false, Bool.false_eq_true, if_true,
      if_false, Option.map_none, Option.getD_none]
  cases jsonrpcCall requestJson <;> rfl

/-- A routed request is the one the text asks for. -/
theorem nestedCall_some {server : Server C} {requestJson : Bytes} {nested : GatewayRequest}
    (h : nestedCall server requestJson = some nested) :
    ∃ id, jsonrpcCall requestJson = .route id nested := by
  unfold nestedCall at h
  split at h
  · exact nomatch h
  · split at h
    · next id found hcall =>
      obtain rfl := Option.some.inj h
      exact ⟨id, hcall⟩
    · exact nomatch h

/-- **The store follows the visits**: a request adds the entries its visits leave, in their order. -/
theorem visits_stored (sv : Services E C D) (env : E) (server : Server C) (request : GatewayRequest) :
    (handleRequest sv env server request).1.idempotency =
      server.idempotency ++ (visits sv env server request).filterMap Visit.stored := by
  have hsingle : ∀ v : Visit, [v].filterMap Visit.stored = v.stored.toList := by
    intro v
    cases hv : v.stored with
    | none => rw [List.filterMap_cons_none hv]; rfl
    | some e => rw [List.filterMap_cons_some hv]; rfl
  by_cases hjsonrpc : ∃ route, routeFind server request.path request.method = .ok route ∧
      answerTo sv env server request = .handled ∧ route.handler = .handleJsonrpcRoute
  · obtain ⟨route, hroute, hanswer, hhandler⟩ := hjsonrpc
    let gated := (enforceGates (sv.time env) server route request).1
    have hgated : gated.idempotency = server.idempotency := enforceGates_idempotency _ _ _ _
    have hvisits : visits sv env server request =
        ((nestedCall server request.body).map fun nested => visitIn sv env gated nested).toList ++
          [visitIn sv env server request] := by
      rw [visits, nestedIn, hroute]
      simp only [hanswer, hhandler, and_self, if_true, Option.map_map]
      rfl
    -- what the handler stored is what the nested request stored
    have hrun : (runHandler sv env (handleRequest sv env) route.handler gated request).1.idempotency =
        server.idempotency ++ (((nestedCall server request.body).map fun nested =>
          visitIn sv env gated nested).toList).filterMap Visit.stored := by
      rw [hhandler]
      show (jsonrpcHandleWith (handleRequest sv env) gated request.body).1.idempotency = _
      have hcall : nestedCall gated request.body = nestedCall server request.body := by
        obtain ⟨_, _, _, _, hframe⟩ := enforceGates_frame (sv.time env) server route request
        show nestedCall (enforceGates (sv.time env) server route request).1 request.body = _
        rw [hframe]
        rfl
      rw [jsonrpcHandleWith_fst, hcall]
      cases hnested : nestedCall server request.body with
      | none => rw [Option.map_none, Option.getD_none, hgated]; exact (List.append_nil _).symm
      | some nested =>
        obtain ⟨id, hid⟩ := nestedCall_some hnested
        have hplain : (handleRequest sv env gated nested).1.idempotency =
            gated.idempotency ++ (visitIn sv env gated nested).stored.toList :=
          handleRequest_idempotency fun route hroute _ => nested_not_jsonrpc hid hroute
        rw [Option.map_some, Option.getD_some, hplain, hgated, Option.map_some, Option.toList_some, hsingle]
    have hserved := handleRequest_served sv env server request
    generalize houtcome : handleRequest sv env server request = outcome,
      hanswer' : (visitIn sv env server request).answer = answer at hserved
    obtain rfl : answer = .handled := hanswer'.symm.trans hanswer
    cases hserved with
    | handled route' hroute' =>
      obtain rfl : route = route' := Except.ok.inj (hroute.symm.trans hroute')
      rw [← houtcome, handled_idempotency hanswer' houtcome, hrun, hvisits, List.filterMap_append, hsingle,
        List.append_assoc]
  · have hnone : nestedIn sv env server request = none := by
      unfold nestedIn
      split
      · rfl
      · next route hroute => exact if_neg fun h => hjsonrpc ⟨route, hroute, h⟩
    have hplain : ∀ route, routeFind server request.path request.method = .ok route →
        answerTo sv env server request = .handled → route.handler ≠ .handleJsonrpcRoute :=
      fun route hroute hanswer hhandler => hjsonrpc ⟨route, hroute, hanswer, hhandler⟩
    rw [visits, hnone, handleRequest_idempotency hplain, ← hsingle]
    rfl

/-! ## What is returned -/

/-- A result that, when it is a response, has a content type. -/
def Typed (result : Res GatewayResponse) : Prop := ∀ r, result = .ok r → r.contentType ≠ []

theorem Typed.set (status : Nat) (body : Bytes) : Typed (.ok (responseSet status body)) := by
  rintro r h
  obtain rfl := Except.ok.inj h
  exact (by decide : str "text/plain" ≠ [])

theorem Typed.error (e : ScError) : Typed (.error e) := fun _ h => nomatch h

theorem Typed.json (result : Res Bytes) :
    Typed (result.map fun text => responseSetTyped 200 text (str "application/json")) := by
  intro r h
  cases result with
  | error e => exact nomatch h
  | ok text =>
    obtain rfl := Except.ok.inj h
    exact (by decide : str "application/json" ≠ [])

/-- A response with a content type is copied as it is. -/
theorem responseCopy_eq {r : GatewayResponse} (h : r.contentType ≠ []) : responseCopy r = r := by
  have hempty : ¬ r.contentType.isEmpty = true := fun he => h (List.isEmpty_iff.mp he)
  rw [responseCopy, if_neg hempty]
  rfl

theorem sessionResponse_typed (done : Bytes) (outcome : Server C × Res Unit) :
    Typed (sessionResponse done outcome).2 := by
  obtain ⟨server, result⟩ := outcome
  cases result <;> exact .set _ _

/-- **Every response of a handler has a content type.** -/
theorem runHandler_typed (sv : Services E C D) (env : E)
    (inner : Server C → GatewayRequest → Server C × Res GatewayResponse) (handler : Handler)
    (server : Server C) (request : GatewayRequest) :
    Typed (runHandler sv env inner handler server request).2 := by
  cases handler with
  | handleStatus | handleHealth | handleSessions => exact .set _ _
  | handlePair =>
    show Typed (handlePair (sv.time env) (sv.randomBytes env) server request).2
    unfold handlePair
    split_ifs
    · exact .set _ _
    · exact .set _ _
    · exact .set _ _
    · exact .set _ _
    · cases sv.randomBytes env with
      | error e => exact .error e
      | ok bytes => exact .set _ _
    · exact .set _ _
  | handleChat =>
    show Typed (handleChat sv env server request).2
    unfold handleChat
    dsimp only
    split
    · exact .set _ _
    split
    · exact .set _ _
    · unfold chatTurn
      dsimp only
      split
      · exact .set _ _
      · split <;> exact .set _ _
  | handleJsonrpcRoute => exact .json _
  | handleAcpRoute =>
    show Typed (handleAcpRoute sv env server request).2
    unfold handleAcpRoute
    split
    · exact .set _ _
    · exact .json _
  | handleSse =>
    intro r h
    obtain rfl := Except.ok.inj h
    exact (by decide : str "text/event-stream" ≠ [])
  | handleAbort => exact sessionResponse_typed _ _
  | handleDisconnect => exact sessionResponse_typed _ _
  | handleConfigGet =>
    show Typed (.ok (handleConfigGet sv server request))
    unfold handleConfigGet
    split
    · exact .set _ _
    · split <;> exact .set _ _
  | handleConfigSet =>
    show Typed (handleConfigSet sv server request).2
    unfold handleConfigSet
    split
    · exact .set _ _
    split
    · exact .set _ _
    · dsimp only
      split <;> exact .set _ _
  | handleStatic =>
    show Typed (handleStatic sv env server request)
    unfold handleStatic
    split
    · exact .set _ _
    split
    · exact .set _ _
    · next relative _ _ =>
      split
      · intro r h
        obtain rfl := Except.ok.inj h
        show staticContentType relative ≠ []
        unfold staticContentType
        split_ifs <;> decide
      · split_ifs
        · exact .set _ _
        · exact .set _ _
        · exact .error _

/-- A gate refuses with no success. -/
theorem enforceGates_refusal {now : Int} {server : Server C} {route : GatewayRoute}
    {request : GatewayRequest} {refusal : GatewayResponse}
    (h : (enforceGates now server route request).2 = some refusal) : refusal.successful = false := by
  have hall : ∀ r ∈ gateRefusals, r.successful = false := by decide
  exact hall refusal (enforceGates_refusals h)

/-! ## The invariant of histories -/

/-- The first visit that left an entry with the key. -/
def firstStored (log : List Visit) (key : Bytes) : Option Visit := log.find? (·.stores key)

theorem firstStored_some {log : List Visit} {key : Bytes} {w : Visit}
    (h : firstStored log key = some w) : w ∈ log ∧ w.stores key = true :=
  ⟨List.mem_of_find?_eq_some h, List.find?_some (p := fun v : Visit => v.stores key) h⟩

/-- Every successful visit with a key left an entry, or an earlier one did. -/
def Backed (log : List Visit) : Prop :=
  ∀ pre v post, log = pre ++ v :: post → keyed v.request = true → v.successful = true →
    ∃ w ∈ pre ++ [v], w.stores v.request.idempotencyKey = true

theorem Backed.concat {log : List Visit} {v : Visit} (h : Backed log)
    (hv : keyed v.request = true → v.successful = true →
      ∃ w ∈ log ++ [v], w.stores v.request.idempotencyKey = true) : Backed (log ++ [v]) := by
  intro pre u post heq
  rcases List.eq_nil_or_concat post with rfl | ⟨more, z, rfl⟩
  · obtain ⟨rfl, hlast⟩ := List.append_inj' heq rfl
    obtain rfl := (List.cons.inj hlast).1
    exact hv
  · rw [List.concat_eq_append, ← List.cons_append, ← List.append_assoc] at heq
    exact h pre u more (List.append_inj' heq rfl).1

/-- **What a history keeps**: the stored responses are those of its visits, and they are typed. -/
structure Kept (h : History C) : Prop where
  entries : h.server.idempotency = h.log.filterMap Visit.stored
  typed : ∀ v ∈ h.log, v.answer = .handled → Typed v.result
  backed : Backed h.log

section Steps

variable {sv : Services E C D} {env : E} {server : Server C} {log : List Visit} {request : GatewayRequest}

theorem visitIn_typed (h : (visitIn sv env server request).answer = .handled) :
    Typed (visitIn sv env server request).result := by
  have hserved := handleRequest_served sv env server request
  rw [h] at hserved
  show Typed (handleRequest sv env server request).2
  generalize handleRequest sv env server request = outcome at hserved
  cases hserved with
  | handled route =>
    rw [idempotencyStore_snd]
    exact runHandler_typed sv env _ route.handler _ request

/-- A replayed visit returns what the first visit with its key returned. -/
theorem visit_replayed (hentries : server.idempotency = log.filterMap Visit.stored)
    (htyped : ∀ v ∈ log, v.answer = .handled → Typed v.result)
    (hanswer : (visitIn sv env server request).answer = .replayed) :
    keyed request = true ∧ ∃ w, firstStored log request.idempotencyKey = some w ∧
      (visitIn sv env server request).result = w.result := by
  have hserved := handleRequest_served sv env server request
  rw [hanswer] at hserved
  show _ ∧ ∃ w : Visit, _ ∧ (handleRequest sv env server request).2 = w.result
  generalize handleRequest sv env server request = outcome at hserved
  cases hserved with
  | replayed route cached hroute hgate hkeyed hfind =>
    refine ⟨hkeyed, ?_⟩
    rw [idempotencyFind, hentries, List.find?_filterMap] at hfind
    obtain ⟨w, hw, hstored⟩ := Option.bind_eq_some_iff.mp hfind
    refine ⟨w, hw, ?_⟩
    -- the entry is the copy of `w`'s response, which has a content type
    have hhandled : w.answer = .handled := by
      by_contra hne
      rw [stored_of_ne hne] at hstored
      exact nomatch hstored
    rw [Visit.stored, if_pos hhandled] at hstored
    cases hresult : w.result with
    | error e =>
      rw [hresult] at hstored
      exact nomatch hstored
    | ok r =>
      have hr := htyped w (List.mem_of_find?_eq_some hw) hhandled r hresult
      rw [hresult] at hstored
      simp only [entryOf] at hstored
      split at hstored
      · obtain rfl := Option.some.inj hstored
        rw [responseCopy_eq hr, responseCopy_eq hr]
      · exact nomatch hstored

/-- A handled visit with a key meets no entry with it. -/
theorem visit_handled (hentries : server.idempotency = log.filterMap Visit.stored)
    (hanswer : (visitIn sv env server request).answer = .handled) (hkeyed : keyed request = true) :
    ∀ w ∈ log, w.stores request.idempotencyKey = false := by
  have hserved := handleRequest_served sv env server request
  rw [hanswer] at hserved
  generalize handleRequest sv env server request = outcome at hserved
  cases hserved with
  | handled route hroute hgate hfind =>
    have hnone := hfind hkeyed
    rw [idempotencyFind, hentries, List.find?_filterMap] at hnone
    intro w hw
    by_contra hstores
    obtain ⟨e, he, hkey⟩ : ∃ e, w.stored = some e ∧ (e.key == request.idempotencyKey) = true := by
      rw [Bool.not_eq_false, Visit.stores, Option.any_eq_true] at hstores
      exact hstores
    cases hfirst : log.find? (fun a => Option.any (·.key == request.idempotencyKey) a.stored) with
    | none =>
      have habsent := List.find?_eq_none.mp hfirst w hw
      exact habsent (by rw [he]; exact hkey)
    | some first =>
      rw [hfirst] at hnone
      have hfound := List.find?_some hfirst
      rw [Option.bind_some] at hnone
      rw [hnone] at hfound
      exact nomatch hfound

/-- A visit that was not routed or was refused fails. -/
theorem visit_fails (h : (visitIn sv env server request).answer = .refused ∨
    (visitIn sv env server request).answer = .unrouted) : (visitIn sv env server request).successful = false := by
  have hserved := handleRequest_served sv env server request
  show (match (handleRequest sv env server request).2 with
    | .ok response => response.successful
    | .error _ => false) = false
  generalize handleRequest sv env server request = outcome, (visitIn sv env server request).answer = answer
    at hserved h
  cases hserved with
  | unrouted pathMatched => cases pathMatched <;> rfl
  | refused route refusal hroute hgate => exact enforceGates_refusal hgate
  | replayed | handled => rcases h with h | h <;> cases h

/-- A successful visit with a key leaves an entry or found one. -/
theorem visit_backed (hentries : server.idempotency = log.filterMap Visit.stored)
    (htyped : ∀ v ∈ log, v.answer = .handled → Typed v.result)
    (hkeyed : keyed request = true) (hsuccess : (visitIn sv env server request).successful = true) :
    ∃ w ∈ log ++ [visitIn sv env server request], w.stores request.idempotencyKey = true := by
  cases hanswer : (visitIn sv env server request).answer with
  | replayed =>
    obtain ⟨-, w, hw, -⟩ := visit_replayed hentries htyped hanswer
    exact ⟨w, List.mem_append_left _ (firstStored_some hw).1, (firstStored_some hw).2⟩
  | handled =>
    refine ⟨_, List.mem_append_right _ List.mem_cons_self, ?_⟩
    have hstored : (visitIn sv env server request).stored =
        entryOf request (visitIn sv env server request).result := if_pos hanswer
    unfold Visit.successful at hsuccess
    split at hsuccess
    · next r hresult =>
      rw [Visit.stores, hstored, hresult, entryOf, hkeyed, hsuccess]
      exact beq_self_eq_true _
    · exact nomatch hsuccess
  | refused =>
    rw [visit_fails (Or.inl hanswer)] at hsuccess
    exact nomatch hsuccess
  | unrouted =>
    rw [visit_fails (Or.inr hanswer)] at hsuccess
    exact nomatch hsuccess

end Steps

/-- The nested request of a request meets a server with the same stored responses. -/
theorem nestedIn_idempotency {sv : Services E C D} {env : E} {server gated : Server C}
    {request nested : GatewayRequest} (h : nestedIn sv env server request = some (gated, nested)) :
    gated.idempotency = server.idempotency := by
  unfold nestedIn at h
  split at h
  · exact nomatch h
  · split at h
    · obtain ⟨found, -, hpair⟩ := Option.map_eq_some_iff.mp h
      obtain ⟨rfl, -⟩ := Prod.mk.inj hpair
      exact enforceGates_idempotency _ _ _ _
    · exact nomatch h

/-- A visit of a request meets the stored responses of the visits before it. -/
theorem mem_visits {sv : Services E C D} {env : E} {server : Server C} {request : GatewayRequest}
    {v : Visit} (h : v ∈ visits sv env server request) :
    ∃ s r, v = visitIn sv env s r ∧ s.idempotency = server.idempotency := by
  rcases List.mem_append.mp h with hnested | houter
  · obtain ⟨n, hn, rfl⟩ := Option.map_eq_some_iff.mp (Option.mem_toList.mp hnested)
    exact ⟨n.1, n.2, rfl, nestedIn_idempotency hn⟩
  · exact ⟨server, request, List.mem_singleton.mp houter, rfl⟩

/-- **Every request keeps the invariant.** -/
theorem Kept.record {sv : Services E C D} {h : History C} (hk : Kept h) (call : E × GatewayRequest) :
    Kept (record sv h call) := by
  obtain ⟨env, request⟩ := call
  have hvisit : ∀ v ∈ visits sv env h.server request, ∀ more : List Visit,
      keyed v.request = true → v.successful = true →
        ∃ w ∈ (h.log ++ more) ++ [v], w.stores v.request.idempotencyKey = true := by
    intro v hv more hkeyed hsuccess
    obtain ⟨s, r, rfl, hs⟩ := mem_visits hv
    obtain ⟨w, hw, hstores⟩ := visit_backed (hs.trans hk.entries) hk.typed hkeyed hsuccess
    refine ⟨w, ?_, hstores⟩
    rcases List.mem_append.mp hw with hlog | hself
    · exact List.mem_append_left _ (List.mem_append_left _ hlog)
    · exact List.mem_append_right _ hself
  have hbacked : ∀ (vs done : List Visit), (∀ v ∈ vs, v ∈ visits sv env h.server request) →
      Backed (h.log ++ done) → Backed (h.log ++ done ++ vs) := by
    intro vs
    induction vs with
    | nil => intro done _ hd; rwa [List.append_nil]
    | cons v vs ih =>
      intro done hvs hd
      have hv := hd.concat (hvisit v (hvs v List.mem_cons_self) done)
      rw [List.append_assoc] at hv
      have hrest := ih (done ++ [v]) (fun u hu => hvs u (List.mem_cons_of_mem _ hu)) hv
      rwa [← List.append_assoc, List.append_assoc, List.singleton_append] at hrest
  refine ⟨?_, ?_, ?_⟩
  · show (handleRequest sv env h.server request).1.idempotency = _
    rw [visits_stored, hk.entries]
    exact (List.filterMap_append ..).symm
  · intro v hv hanswer
    rcases List.mem_append.mp hv with hold | hnew
    · exact hk.typed v hold hanswer
    · obtain ⟨s, r, rfl, -⟩ := mem_visits hnew
      exact visitIn_typed hanswer
  · have hnil := hbacked (visits sv env h.server request) [] (fun _ hv => hv)
    rw [List.append_nil] at hnil
    exact hnil hk.backed

/-! ## Soundness -/

/-- Same method, same path, same key. -/
def sameOperation (a b : GatewayRequest) : Bool :=
  a.method == b.method && a.path == b.path && a.idempotencyKey == b.idempotencyKey

/-- What replay owes a visit with a key: a request that reaches a handler or a stored response (no
    route and no gate refuses it) either runs its handler, which has not succeeded before, or returns
    what the FIRST success of the same method, path and key returned. -/
def ReplaySound (log : List Visit) (v : Visit) : Prop :=
  keyed v.request = true →
    (v.answer = .unrouted ∨ v.answer = .refused ∨ v.answer = .handled ∨
      ∃ w, log.find? (fun u => sameOperation u.request v.request && u.successful) = some w ∧
        v.result = w.result) ∧
    (v.answer = .handled →
      ∀ w ∈ log, sameOperation w.request v.request = true → w.answer = .handled → w.successful = false)

/-- The response stored first under the key of a replayed visit answered the same method and path. -/
def KeyOfOneOperation (log : List Visit) (v : Visit) : Prop :=
  v.answer = .replayed →
    (firstStored log v.request.idempotencyKey).all (fun w =>
      w.request.method == v.request.method && w.request.path == v.request.path) = true

instance (log : List Visit) (v : Visit) : Decidable (KeyOfOneOperation log v) :=
  inferInstanceAs (Decidable (_ → _))

theorem stores_iff (v : Visit) (key : Bytes) :
    v.stores key = true ↔
      v.answer = .handled ∧ keyed v.request = true ∧ v.successful = true ∧
        v.request.idempotencyKey = key := by
  unfold Visit.stores Visit.stored Visit.successful entryOf
  by_cases hanswer : v.answer = .handled
  · rw [if_pos hanswer]
    cases v.result with
    | error e => simp
    | ok r =>
      cases hkeyed : keyed v.request <;> cases hsuccess : r.successful <;> simp [hanswer, hsuccess]
  · rw [if_neg hanswer]
    simp [hanswer]

theorem keyed_congr {a b : GatewayRequest} (h : sameOperation a b = true) : keyed a = keyed b := by
  simp only [sameOperation, Bool.and_eq_true, beq_iff_eq] at h
  rw [keyed, keyed, routeIsMutation, routeIsMutation, h.1.1, h.2]

/-- **One visit**: under the condition on its key, replay is sound. -/
theorem visit_sound {sv : Services E C D} {env : E} {server : Server C} {log : List Visit}
    {request : GatewayRequest} (hentries : server.idempotency = log.filterMap Visit.stored)
    (htyped : ∀ v ∈ log, v.answer = .handled → Typed v.result) (hbacked : Backed log)
    (hkey : KeyOfOneOperation log (visitIn sv env server request)) :
    ReplaySound log (visitIn sv env server request) := by
  intro hkeyed
  have hstored : ∀ w ∈ log, sameOperation w.request request = true → w.answer = .handled →
      w.successful = true → w.stores request.idempotencyKey = true := by
    intro w _ hsame hanswer hsuccess
    have hw := hsame
    simp only [sameOperation, Bool.and_eq_true, beq_iff_eq] at hw
    exact (stores_iff w _).mpr ⟨hanswer, (keyed_congr hsame).trans hkeyed, hsuccess, hw.2⟩
  constructor
  · cases hanswer : (visitIn sv env server request).answer with
    | unrouted => exact Or.inl rfl
    | refused => exact Or.inr (Or.inl rfl)
    | handled => exact Or.inr (Or.inr (Or.inl rfl))
    | replayed =>
      obtain ⟨-, w, hw, hresult⟩ := visit_replayed hentries htyped hanswer
      refine Or.inr (Or.inr (Or.inr ⟨w, ?_, hresult⟩))
      have hroute := hkey hanswer
      rw [show (visitIn sv env server request).request = request from rfl, hw, Option.all_some,
        Bool.and_eq_true, beq_iff_eq, beq_iff_eq] at hroute
      obtain ⟨hmethod, hpath⟩ := hroute
      obtain ⟨-, -, hsuccess, hwkey⟩ := (stores_iff w _).mp (firstStored_some hw).2
      obtain ⟨-, before, after, rfl, hbefore⟩ := List.find?_eq_some_iff_append.mp hw
      refine List.find?_eq_some_iff_append.mpr ⟨?_, before, after, rfl, ?_⟩
      · have hsame : sameOperation w.request request = true := by
          simp only [sameOperation, Bool.and_eq_true, beq_iff_eq]
          exact ⟨⟨hmethod, hpath⟩, hwkey⟩
        show (sameOperation w.request request && w.successful) = true
        rw [hsame, hsuccess]
        rfl
      · -- an earlier success of the operation would be backed by an entry before `w`
        intro u hu
        by_contra hmatch
        rw [Bool.not_eq_true', Bool.not_eq_false, Bool.and_eq_true] at hmatch
        have hukeyed : keyed u.request = true := (keyed_congr hmatch.1).trans hkeyed
        have hukey : u.request.idempotencyKey = request.idempotencyKey := by
          have hsame := hmatch.1
          simp only [sameOperation, Bool.and_eq_true, beq_iff_eq] at hsame
          exact hsame.2
        obtain ⟨pre, post, rfl⟩ := List.append_of_mem hu
        obtain ⟨x, hx, hxstores⟩ := hbacked pre u (post ++ w :: after) (by simp) hukeyed hmatch.2
        have hxbefore : x ∈ pre ++ u :: post := by
          rcases List.mem_append.mp hx with hpre | hself
          · exact List.mem_append_left _ hpre
          · exact List.mem_append_right _ (List.mem_singleton.mp hself ▸ List.mem_cons_self)
        have hnot := hbefore x hxbefore
        rw [hukey] at hxstores
        rw [show (visitIn sv env server request).request = request from rfl] at *
        rw [hxstores] at hnot
        exact nomatch hnot
  · intro hanswer w hw hsame hhandled
    by_contra hsuccess
    have hnone := visit_handled hentries hanswer hkeyed w hw
    rw [hstored w hw hsame hhandled (Bool.eq_true_of_not_eq_false hsuccess)] at hnone
    exact nomatch hnone

/-- **Replay over a run** that starts without stored responses: as long as every replayed key was first
    stored by a request of the same method and path, all replays are sound. -/
theorem replay_run (sv : Services E C D) (server : Server C) (calls : List (E × GatewayRequest))
    (hfresh : server.idempotency = [])
    (hkeys : EachStep (record sv)
      (fun h call => ∀ v ∈ visits sv call.1 h.server call.2, KeyOfOneOperation h.log v) ⟨server, []⟩ calls) :
    EachStep (record sv)
      (fun h call => ∀ v ∈ visits sv call.1 h.server call.2, ReplaySound h.log v) ⟨server, []⟩ calls := by
  refine EachStep.imp (I := Kept) (fun h call hk _ => hk.record call) ?_ ?_ hkeys
  · intro h call hk hkey v hv
    have hvkey := hkey v hv
    obtain ⟨s, r, rfl, hs⟩ := mem_visits hv
    exact visit_sound (hs.trans hk.entries) hk.typed hk.backed hvkey
  · refine ⟨hfresh, fun v hv => absurd hv List.not_mem_nil, ?_⟩
    intro pre v post h
    exact absurd h.symm (List.append_ne_nil_of_right_ne_nil _ (List.cons_ne_nil _ _))

/-- A chat and a configuration change by the owner of the token, with one key. -/
def keyedChat : GatewayRequest :=
  { method := .post, path := str "/ws/chat", body := str "hi", authToken := str "token",
    idempotencyKey := str "k" }
def keyedSet : GatewayRequest :=
  { method := .post, path := str "/config/set", body := str "a=b", authToken := str "token",
    idempotencyKey := str "k" }

/-- The same chat twice: the second one is a sound replay. -/
theorem replay_run_retry :
    EachStep (record echoServices)
      (fun h call => ∀ v ∈ visits echoServices call.1 h.server call.2, ReplaySound h.log v)
      ⟨smallGateway, []⟩ [(1, keyedChat), (2, keyedChat)] :=
  replay_run echoServices smallGateway _ rfl ⟨by decide, by decide, trivial⟩

/-- **A key answers another route**: after a chat with key `k`, a configuration change with key `k` gets
    the chat's answer; its handler does not run. -/
theorem key_answers_other_route :
    ¬ EachStep (record echoServices)
        (fun h call => ∀ v ∈ visits echoServices call.1 h.server call.2, ReplaySound h.log v)
        ⟨smallGateway, []⟩ [(1, keyedChat), (2, keyedSet)] ∧
      (visitIn echoServices 2 (record echoServices ⟨smallGateway, []⟩ (1, keyedChat)).server keyedSet).result =
        .ok (responseSet 200 (str "hi")) := by
  refine ⟨fun h => ?_, by decide⟩
  have hsound := (h.2.1 _ (List.mem_append_right _ List.mem_cons_self) (by decide)).1
  rcases hsound with hun | href | hhan | ⟨w, hw, -⟩
  · exact absurd hun (by decide)
  · exact absurd href (by decide)
  · exact absurd hhan (by decide)
  · exact absurd (Option.isSome_of_eq_some hw) (by decide)

end SmolClaw.Gateway
