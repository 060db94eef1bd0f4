/-
  Pairing and the bearer token over a history of requests (`handle_pair`, `enforce_gates`,
  `idempotency_find`, `src/gateway/gateway.c`).

  1. **The handler** grants the token once, to the code, from the origin, in time
     (`handlePair_granted`); what it compares with never changes (`Framed`).

  2. **The gate** keeps bearer routes from requests without the token.

  3. **The stored responses** stand between the two: they are looked up BEHIND the gate of the route
     that is asked, so a `POST /pair` with a stored key gets the stored answer, whatever its body and
     whichever route produced it.  Without such a request, pairing is one-time and guarded, and no
     bearer answer leaves the owner of the token (`pairing_run`).
-/
import SmolClaw.Gateway.Replay

namespace SmolClaw.Gateway

open Lib.Run

variable {E C D : Type}

/-- `POST /pair` -/
def isPairing (request : GatewayRequest) : Bool := request.method == .post && request.path == str "/pair"

/-- The visit got a 200. -/
def Visit.granted (v : Visit) : Bool :=
  match v.result with
  | .ok response => response.status == 200
  | .error _ => false

/-! ## The handler -/

/-- **A granted pairing**: the code, in time, not used before, from the origin; and now it is used. -/
theorem handlePair_granted {now : Int} {random : Res (Vector UInt8 32)} {server : Server C}
    {request : GatewayRequest} {response : GatewayResponse}
    (h : (handlePair now random server request).2 = .ok response) (hstatus : response.status = 200) :
    request.body = server.pairingCode ∧ pairingExpired now server = false ∧
      server.pairingUsed = false ∧
      (server.pairingOrigin = [] ∨ request.origin = server.pairingOrigin) ∧
      (handlePair now random server request).1.pairingUsed = true := by
  have hrefused : ∀ {status : Nat} {body : Bytes}, status ≠ 200 →
      (Except.ok (responseSet status body) : Res GatewayResponse) ≠ .ok response := by
    rintro status body hne heq
    obtain rfl := Except.ok.inj heq
    exact hne hstatus
  unfold handlePair at h ⊢
  split at h
  · exact absurd h (hrefused (by decide))
  next hcode =>
    split at h
    · exact absurd h (hrefused (by decide))
    next hexpired =>
      split at h
      · exact absurd h (hrefused (by decide))
      next hused =>
        split at h
        · exact absurd h (hrefused (by decide))
        next horigin =>
          have hbody : request.body = server.pairingCode := by
            simp only [Bool.or_eq_true, not_or, bne_iff_ne, not_not] at hcode
            exact hcode.2.symm
          have hfrom : server.pairingOrigin = [] ∨ request.origin = server.pairingOrigin := by
            by_cases hset : server.pairingOrigin = []
            · exact Or.inl hset
            · have hnonempty : (!server.pairingOrigin.isEmpty) = true := by
                rw [Bool.not_eq_true', List.isEmpty_eq_false_iff]
                exact hset
              rw [hnonempty, Bool.true_and, bne_iff_ne, not_not] at horigin
              exact Or.inr horigin.symm
          refine ⟨hbody, Bool.eq_false_of_not_eq_true hexpired, Bool.eq_false_of_not_eq_true hused, hfrom, ?_⟩
          rw [if_neg hcode, if_neg hexpired, if_neg hused, if_neg horigin]
          split at h
          · next hempty =>
            rw [if_pos hempty]
            cases random with
            | error e => exact nomatch h
            | ok bytes => rfl
          · next hempty => rw [if_neg hempty]

/-! ## One request -/

/-- The answer a visit got was produced by a bearer route: by its own handler, or by that of the visit
    whose stored answer it got. -/
def BearerAnswer (log : List Visit) (v : Visit) : Prop :=
  (v.answer = .handled ∧ v.authMode = some .bearer) ∨
    (v.answer = .replayed ∧ ∃ w, firstStored log v.request.idempotencyKey = some w ∧
      w.authMode = some .bearer)

/-- `POST /pair` is the only mutating route without the bearer gate. -/
theorem pairing_of_open : ∀ route ∈ gatewayRoutes, route.authMode ≠ .bearer → route.method ≠ .get →
    route.path = str "/pair" ∧ route.method = .post := by
  decide

/-- **An unauthorized visit** gets no bearer answer unless it is a replayed `POST /pair`. -/
theorem unauthorized_visit {sv : Services E C D} {env : E} {server : Server C} {request : GatewayRequest}
    {log : List Visit} (htoken : (visitIn sv env server request).authorized = false)
    (hanswer : BearerAnswer log (visitIn sv env server request)) :
    isPairing request = true ∧ (visitIn sv env server request).answer = .replayed := by
  have hserved := handleRequest_served sv env server request
  have hopen : ∀ route, (enforceGates (sv.time env) server route request).2 = none →
      route.authMode ≠ .bearer := by
    intro route hgate hmode
    have hmatch : tokenMatches server request.authToken = false := htoken
    rw [enforceGates_bearer hmode hgate] at hmatch
    cases hmatch
  rcases hanswer with ⟨hhandled, hmode⟩ | ⟨hreplayed, -⟩
  · rw [hhandled] at hserved
    generalize handleRequest sv env server request = outcome at hserved
    cases hserved with
    | handled route hroute hgate =>
      simp only [visitIn, hroute] at hmode
      exact absurd (Option.some.inj hmode) (hopen route hgate)
  · refine ⟨?_, hreplayed⟩
    rw [hreplayed] at hserved
    generalize handleRequest sv env server request = outcome at hserved
    cases hserved with
    | replayed route cached hroute hgate hkeyed =>
      obtain ⟨htable, hmethod, hmatch⟩ := routeFind_ok hroute
      have hmutating : route.method ≠ .get := by
        intro hget
        rw [hget] at hmethod
        rw [keyed, routeIsMutation, ← hmethod] at hkeyed
        cases hkeyed
      obtain ⟨hpath, hpost⟩ := pairing_of_open route htable (hopen route hgate) hmutating
      rw [routeMatches, hpath, if_neg (by decide), beq_iff_eq] at hmatch
      rw [isPairing, hmatch, ← hmethod, hpost]
      rfl

/-- The route of `POST /pair` is the pairing route. -/
theorem routeFind_pairing {server : Server C} {request : GatewayRequest} (h : isPairing request = true)
    {route : GatewayRoute} (hroute : routeFind server request.path request.method = .ok route) :
    route.handler = .handlePair := by
  have hposts : ∀ r ∈ gatewayRoutes, r.method = .post →
      r.path ≠ str "/static/*" ∧ (r.path = str "/pair" → r.handler = .handlePair) := by
    decide
  rw [isPairing, Bool.and_eq_true, beq_iff_eq, beq_iff_eq] at h
  obtain ⟨htable, hmethod, hmatch⟩ := routeFind_ok hroute
  obtain ⟨hfixed, hhandler⟩ := hposts route htable (hmethod.trans h.1)
  rw [routeMatches, if_neg hfixed, beq_iff_eq, h.2] at hmatch
  exact hhandler hmatch.symm

/-- A nested request is no pairing. -/
theorem nested_not_pairing {sv : Services E C D} {env : E} {server : Server C} {request : GatewayRequest}
    {n : Server C × GatewayRequest} (h : nestedIn sv env server request = some n) :
    isPairing n.2 = false := by
  unfold nestedIn at h
  split at h
  · exact nomatch h
  · split at h
    · obtain ⟨nested, hcall, rfl⟩ := Option.map_eq_some_iff.mp h
      obtain ⟨id, hid⟩ := nestedCall_some hcall
      obtain ⟨name, hname⟩ := jsonrpcCall_route hid
      rw [isPairing, beq_eq_false_iff_ne.mpr (jsonrpcRoute_ne hname).2, Bool.and_false]
    · exact nomatch h

/-- What the server compares a pairing with. -/
structure SamePairing (s t : Server C) : Prop where
  code : t.pairingCode = s.pairingCode
  origin : t.pairingOrigin = s.pairingOrigin
  expired : ∀ now, pairingExpired now t = pairingExpired now s

theorem SamePairing.trans {s t u : Server C} (hst : SamePairing s t) (htu : SamePairing t u) :
    SamePairing s u :=
  ⟨htu.code.trans hst.code, htu.origin.trans hst.origin, fun now => (htu.expired now).trans (hst.expired now)⟩

/-- **No request changes what a pairing is compared with**, or makes a used code unused. -/
theorem Framed.pairing {s t : Server C} (h : Framed s t) :
    SamePairing s t ∧ (s.pairingUsed = true → t.pairingUsed = true) := by
  obtain ⟨_, _, _, _, _, _, _, _, _, _, hused, rfl⟩ := h
  exact ⟨⟨rfl, rfl, fun _ => rfl⟩, hused⟩

/-- A granted pairing that is not a replay is the handler's. -/
theorem pairing_visit {sv : Services E C D} {env : E} {server : Server C} {request : GatewayRequest}
    (hpair : isPairing request = true) (hfresh : (visitIn sv env server request).answer ≠ .replayed)
    (hgranted : (visitIn sv env server request).granted = true) :
    request.body = server.pairingCode ∧ pairingExpired (sv.time env) server = false ∧
      server.pairingUsed = false ∧
      (server.pairingOrigin = [] ∨ request.origin = server.pairingOrigin) ∧
      (handleRequest sv env server request).1.pairingUsed = true := by
  have hserved := handleRequest_served sv env server request
  obtain ⟨response, hresponse, hstatus⟩ : ∃ r, (handleRequest sv env server request).2 = .ok r ∧ r.status = 200 := by
    unfold Visit.granted at hgranted
    split at hgranted
    · next r hr => exact ⟨r, hr, beq_iff_eq.mp hgranted⟩
    · exact nomatch hgranted
  have hsuccess : ∀ r : GatewayResponse, r.status = 200 → r.successful = true := by
    intro r hr
    rw [GatewayResponse.successful, hr]
    rfl
  generalize houtcome : handleRequest sv env server request = outcome,
    hanswer : (visitIn sv env server request).answer = answer at hserved hresponse
  cases hserved with
  | unrouted pathMatched =>
    obtain rfl := Except.ok.inj hresponse
    cases pathMatched <;> exact absurd hstatus (by decide)
  | refused route refusal hroute hgate =>
    obtain rfl := Except.ok.inj hresponse
    have hno := enforceGates_refusal hgate
    rw [hsuccess _ hstatus] at hno
    exact nomatch hno
  | replayed => exact absurd hanswer hfresh
  | handled route hroute hgate =>
    rw [idempotencyStore_snd, routeFind_pairing hpair hroute] at hresponse
    obtain ⟨hbody, hexpired, hused, horigin, hnow⟩ := handlePair_granted hresponse hstatus
    obtain ⟨_, hstore⟩ := idempotencyStore_frame request
      (runHandler sv env (handleRequest sv env) route.handler
        (enforceGates (sv.time env) server route request).1 request)
    obtain ⟨_, _, _, _, hframe⟩ := enforceGates_frame (sv.time env) server route request
    rw [hframe] at hbody hexpired hused horigin
    refine ⟨hbody, hexpired, hused, horigin, ?_⟩
    rw [hstore, routeFind_pairing hpair hroute]
    exact hnow

/-! ## Histories -/

section History

variable (sv : Services E C D) (initial : Server C)

/-- What pairing owes a request after the visits so far: a 200 to `POST /pair` goes to the code, from
    the origin, in time, and to nobody before; and no visit without the token gets a bearer answer. -/
def PairingGuarded (h : History C) (call : E × GatewayRequest) : Prop :=
  (isPairing call.2 = true → (visitIn sv call.1 h.server call.2).granted = true →
    call.2.body = initial.pairingCode ∧
      (initial.pairingOrigin = [] ∨ call.2.origin = initial.pairingOrigin) ∧
      pairingExpired (sv.time call.1) initial = false ∧
      ∀ v ∈ h.log, isPairing v.request = true → v.granted = false) ∧
    ∀ v ∈ visits sv call.1 h.server call.2, v.authorized = false → ¬ BearerAnswer h.log v

/-- No `POST /pair` is answered from the stored responses. -/
def PairingNotReplayed (h : History C) (call : E × GatewayRequest) : Prop :=
  isPairing call.2 = true → answerTo sv call.1 h.server call.2 ≠ .replayed

/-- A granted pairing has used the code up, and nothing it is compared with has changed. -/
structure PairingKept (h : History C) : Prop where
  same : SamePairing initial h.server
  used : ∀ v ∈ h.log, isPairing v.request = true → v.granted = true → h.server.pairingUsed = true

theorem PairingKept.record {h : History C} {call : E × GatewayRequest} (hk : PairingKept initial h)
    (hfresh : PairingNotReplayed sv h call) : PairingKept initial (record sv h call) := by
  obtain ⟨env, request⟩ := call
  have hpairing := (handleRequest_framed sv env h.server request).pairing
  refine ⟨hk.same.trans hpairing.1, ?_⟩
  intro v hv hpair hgranted
  rcases List.mem_append.mp hv with hold | hnew
  · exact hpairing.2 (hk.used v hold hpair hgranted)
  · rcases List.mem_append.mp hnew with hnested | houter
    · obtain ⟨n, hn, rfl⟩ := Option.map_eq_some_iff.mp (Option.mem_toList.mp hnested)
      have hno := nested_not_pairing hn
      rw [show isPairing n.2 = true from hpair] at hno
      exact nomatch hno
    · obtain rfl := List.mem_singleton.mp houter
      exact (pairing_visit hpair (hfresh hpair) hgranted).2.2.2.2

/-- **Pairing over a run**: as long as no `POST /pair` is answered from the stored responses, pairing is
    one-time and guarded, and bearer answers stay with the owner of the token. -/
theorem pairing_run (calls : List (E × GatewayRequest))
    (hfresh : EachStep (record sv) (PairingNotReplayed sv) ⟨initial, []⟩ calls) :
    EachStep (record sv) (PairingGuarded sv initial) ⟨initial, []⟩ calls := by
  refine EachStep.imp (I := PairingKept initial) (fun h call hk hf => hk.record sv initial hf) ?_ ?_ hfresh
  · intro h call hk hf
    refine ⟨fun hpair hgranted => ?_, fun v hv htoken hbearer => ?_⟩
    · obtain ⟨hbody, hexpired, hused, horigin, -⟩ := pairing_visit hpair (hf hpair) hgranted
      rw [hk.same.code] at hbody
      rw [hk.same.origin] at horigin
      rw [hk.same.expired] at hexpired
      refine ⟨hbody, horigin, hexpired, fun v hv hvpair => ?_⟩
      by_contra hvgranted
      have hnow := hk.used v hv hvpair (Bool.eq_true_of_not_eq_false hvgranted)
      rw [hused] at hnow
      exact nomatch hnow
    · rcases List.mem_append.mp hv with hnested | houter
      · obtain ⟨n, hn, rfl⟩ := Option.map_eq_some_iff.mp (Option.mem_toList.mp hnested)
        have hno := nested_not_pairing hn
        rw [(unauthorized_visit htoken hbearer).1] at hno
        exact nomatch hno
      · obtain rfl := List.mem_singleton.mp houter
        obtain ⟨hpair, hreplayed⟩ := unauthorized_visit htoken hbearer
        exact hf hpair hreplayed
  · exact ⟨⟨rfl, rfl, fun _ => rfl⟩, fun v hv => absurd hv List.not_mem_nil⟩

end History

/-- A pairing with the code, and one of a stranger, with one key. -/
def ownersPairing : GatewayRequest :=
  { method := .post, path := str "/pair", body := str "code", idempotencyKey := str "k" }
def strangersPairing : GatewayRequest :=
  { method := .post, path := str "/pair", body := str "guess", idempotencyKey := str "k" }

/-- A stranger fails, and then the owner pairs. -/
theorem pairing_run_owner :
    EachStep (record echoServices) (PairingGuarded echoServices smallGateway) ⟨smallGateway, []⟩
      [(1, strangersPairing), (2, ownersPairing)] :=
  pairing_run echoServices smallGateway _
    ⟨fun _ => by decide, fun _ => by decide, trivial⟩

/-- **The store answers pairings**: a stranger whose key is stored gets the token that was granted, or
    the answer of a bearer route. -/
theorem stranger_paired :
    (¬ EachStep (record echoServices) (PairingGuarded echoServices smallGateway) ⟨smallGateway, []⟩
        [(1, ownersPairing), (2, strangersPairing)] ∧
      (visitIn echoServices 2 (record echoServices ⟨smallGateway, []⟩ (1, ownersPairing)).server
        strangersPairing).result = .ok (responseSet 200 (str "token"))) ∧
    ¬ EachStep (record echoServices) (PairingGuarded echoServices smallGateway) ⟨smallGateway, []⟩
        [(1, keyedChat), (2, strangersPairing)] ∧
      (visitIn echoServices 2 (record echoServices ⟨smallGateway, []⟩ (1, keyedChat)).server
        strangersPairing).result = .ok (responseSet 200 (str "hi")) := by
  refine ⟨⟨fun h => ?_, by decide⟩, fun h => ?_, by decide⟩
  · have hbody := (h.2.1.1 (by decide) (by decide)).1
    exact absurd hbody (by decide)
  · have hbody := (h.2.1.1 (by decide) (by decide)).1
    exact absurd hbody (by decide)

end SmolClaw.Gateway
