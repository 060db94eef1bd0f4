/-
  Retries and fall-over of a streamed request (`src/providers/reliable.c`, with the retry classes of
  `src/providers/provider_common.c` and `sc_provider_stream` of `src/contracts/contracts.c`).

  1. **Behaviour** — what a candidate's stream operation does is a parameter: attempt `k` emits some
     events to the callback it is given and returns some status.

  2. **Program** — two nested loops over ONE callback: `callStreamLoop` retries a candidate,
     `streamLoop` falls over to the next.  The callback's record is threaded through as `received`.

  3. **Schedule** — the attempts a call makes, said on the behaviours alone (`schedule`).
     `reliableStream_schedule` connects the two: the callback receives the events of EVERY attempt.

  4. **Result** — `deliveredOnce_iff`: a successful call delivers exactly the events of the attempt
     that succeeded iff the attempts before it failed without having emitted anything.
-/
import Mathlib.Data.List.Infix
import Mathlib.Data.List.Basic
import SmolClaw.Core.Status

namespace SmolClaw.Reliable

/-! ## Retry classes -/

/-- `sc_provider_retry_class` -/
inductive RetryClass where
  | none
  | transient
  | rateLimit
  | server
  | invalidCredentials
  | invalidRequest
  | securityDenied
  | cancelled
  deriving DecidableEq, Repr

/-- The `code` field of a status; `none` is `SC_OK`. -/
def codeOf {α : Type} (status : Res α) : Option StatusCode :=
  match status with
  | .ok _ => none
  | .error e => some e.code

/-- `sc_provider_classify_retry` -/
def classifyRetry (status : Res Unit) (httpStatus : Int) : RetryClass :=
  let code := codeOf status
  if code = some .cancelled then .cancelled
  else if code = some .securityDenied then .securityDenied
  else if code = some .invalidArgument ∨ code = some .parse then .invalidRequest
  else if httpStatus = 401 ∨ httpStatus = 403 then .invalidCredentials
  else if httpStatus = 408 ∨ code = some .timeout then .transient
  else if httpStatus = 429 then .rateLimit
  else if 500 ≤ httpStatus ∨ code = some .io ∨ code = some .http ∨ code = some .timeout then .server
  else .none

/-- `sc_provider_should_retry` -/
def shouldRetry (status : Res Unit) (httpStatus : Int) : Bool :=
  let c := classifyRetry status httpStatus
  c = .transient || c = .rateLimit || c = .server

/-! ## Candidates -/

variable {E : Type}

/-- What one stream operation does: the events it hands to the callback, and the status it returns. -/
structure Attempt (E : Type) where
  events : List E
  status : Res Unit
  deriving DecidableEq

/-- A candidate: the name in its vtab, and what its stream operation does at each attempt of a
    call, counted from 1. -/
structure Provider (E : Type) where
  name : Bytes
  stream : Nat → Attempt E

/-- The fields of `sc_provider_request` that are read here. -/
structure ProviderRequest where
  model : Bytes
  cancelRequested : Bool

/-- `reliable_provider` -/
structure ReliableProvider (E : Type) where
  providers : List (Provider E)
  maxRetries : UInt32

/-- `sc_provider_stream` -/
def providerStream (request : ProviderRequest) (p : Provider E) (attempt : Nat) : Attempt E :=
  if request.cancelRequested then ⟨[], Status.cancelled "sc.provider.cancelled"⟩
  else p.stream attempt

/-- `provider_matches_model` -/
def providerMatchesModel (p : Provider E) (model : Bytes) : Bool :=
  model ≠ [] && p.name ≠ [] && decide (p.name <:+: model)

/-! ## The program -/

/-- An attempt after which the retry loop is left: it succeeded, or its failure is not retried. -/
def Attempt.isFinal (a : Attempt E) : Bool := (codeOf a.status).isNone || !shouldRetry a.status 0

/-- The loop of `reliable_call_stream`: `left` turns, the next one attempt number `attempt`. -/
def callStreamLoop (maxRetries : Nat) (request : ProviderRequest) (p : Provider E) :
    Nat → Nat → List E → Res Unit × List E
  | 0, _, received => (Status.invalidArgument "sc.provider_reliable.null_provider", received)
  | left + 1, attempt, received =>
      let made := providerStream request p attempt
      if made.isFinal || maxRetries < attempt then (made.status, received ++ made.events)
      else callStreamLoop maxRetries request p left (attempt + 1) (received ++ made.events)

/-- `reliable_call_stream`; `max_retries + 1U` wraps, and then no attempt is made. -/
def reliableCallStream (r : ReliableProvider E) (request : ProviderRequest) (p : Provider E)
    (received : List E) : Res Unit × List E :=
  callStreamLoop r.maxRetries.toNat request p (r.maxRetries + 1).toNat 1 received

/-- The failures that end the call at once. -/
def endsCall (status : Res Unit) : Bool :=
  let code := codeOf status
  code = some .securityDenied || code = some .cancelled || code = some .invalidArgument ||
    code = some .parse

/-- `any_model_match` -/
def anyModelMatch (r : ReliableProvider E) (request : ProviderRequest) : Bool :=
  r.providers.any fun p => providerMatchesModel p request.model

/-- The candidates the loop of `reliable_stream` passes over. -/
def isSkipped (r : ReliableProvider E) (request : ProviderRequest) (p : Provider E) : Bool :=
  anyModelMatch r request && !providerMatchesModel p request.model

/-- The loop of `reliable_stream` over the candidates left. -/
def streamLoop (r : ReliableProvider E) (request : ProviderRequest) :
    List (Provider E) → Res Unit → List E → Res Unit × List E
  | [], last, received => (last, received)
  | p :: ps, last, received =>
      if isSkipped r request p then streamLoop r request ps last received
      else
        let (status, received) := reliableCallStream r request p received
        if (codeOf status).isNone || endsCall status then (status, received)
        else streamLoop r request ps status received

/-- `reliable_stream`: the status, and what the caller's callback was given. -/
def reliableStream (r : ReliableProvider E) (request : ProviderRequest) : Res Unit × List E :=
  streamLoop r request r.providers (Status.invalidArgument "sc.provider_reliable.empty") []

/-! ## The schedule of attempts -/

/-- A list up to and including the first element that stops it. -/
def takeThrough {α : Type} (stop : α → Bool) : List α → List α
  | [] => []
  | x :: xs => if stop x then [x] else x :: takeThrough stop xs

/-- The attempts made with one candidate. -/
def tries (r : ReliableProvider E) (request : ProviderRequest) (p : Provider E) : List (Attempt E) :=
  takeThrough Attempt.isFinal
    ((List.range' 1 (r.maxRetries + 1).toNat).map (providerStream request p))

/-- The last attempt succeeded, or failed in a way that ends the call (no attempt at all does). -/
def settles (made : List (Attempt E)) : Bool :=
  match made.getLast? with
  | some a => (codeOf a.status).isNone || endsCall a.status
  | none => true

def scheduleFrom (r : ReliableProvider E) (request : ProviderRequest) :
    List (Provider E) → List (Attempt E)
  | [] => []
  | p :: ps =>
      if isSkipped r request p then scheduleFrom r request ps
      else if settles (tries r request p) then tries r request p
      else tries r request p ++ scheduleFrom r request ps

/-- **The schedule**: the attempts a call makes, in order. -/
def schedule (r : ReliableProvider E) (request : ProviderRequest) : List (Attempt E) :=
  scheduleFrom r request r.providers

/-- The attempt returned `SC_OK`. -/
def Attempt.succeeds (a : Attempt E) : Bool := (codeOf a.status).isNone

theorem Attempt.isFinal_of_succeeds {a : Attempt E} (h : a.succeeds = true) : a.isFinal = true := by
  have hcode : (codeOf a.status).isNone = true := h
  rw [Attempt.isFinal, hcode, Bool.true_or]

/-- Nothing before the last element stops. -/
theorem takeThrough_dropLast {α : Type} {stop : α → Bool} (xs : List α) :
    ∀ x ∈ (takeThrough stop xs).dropLast, stop x = false := by
  induction xs with
  | nil => intro x hx; exact absurd hx List.not_mem_nil
  | cons y ys ih =>
    intro x hx
    rw [takeThrough] at hx
    split at hx
    · exact absurd hx List.not_mem_nil
    · rename_i hy
      cases hrest : takeThrough stop ys with
      | nil =>
        rw [hrest] at hx
        exact absurd hx List.not_mem_nil
      | cons z zs =>
        rw [hrest, List.dropLast_cons_cons] at hx
        rcases List.mem_cons.mp hx with rfl | hx
        · exact Bool.eq_false_iff.mpr hy
        · rw [hrest] at ih
          exact ih x hx

/-! ## The program follows the schedule -/

/-- **The retry loop** makes the attempts up to the first final one: it returns the status of the last
    and has handed on the events of all. -/
theorem callStreamLoop_eq (maxRetries : Nat) (request : ProviderRequest) (p : Provider E) :
    ∀ (left attempt : Nat) (received : List E), left + attempt = maxRetries + 1 →
      ∃ a, (takeThrough Attempt.isFinal
          ((List.range' attempt (left + 1)).map (providerStream request p))).getLast? = some a ∧
        callStreamLoop maxRetries request p (left + 1) attempt received = (a.status, received ++
          (takeThrough Attempt.isFinal
            ((List.range' attempt (left + 1)).map (providerStream request p))).flatMap (·.events)) := by
  intro left
  induction left with
  | zero =>
    intro attempt received hcount
    have hlast : (decide (maxRetries < attempt)) = true := decide_eq_true (by omega)
    have hmade : takeThrough Attempt.isFinal
        ((List.range' attempt (0 + 1)).map (providerStream request p))
          = [providerStream request p attempt] := by
      show (if _ then _ else _) = _
      split <;> rfl
    refine ⟨providerStream request p attempt, by rw [hmade]; rfl, ?_⟩
    rw [hmade, callStreamLoop, hlast, Bool.or_true]
    simp
  | succ left ih =>
    intro attempt received hcount
    have hlast : (decide (maxRetries < attempt)) = false := decide_eq_false (by omega)
    obtain ⟨a, ha, hrest⟩ := ih (attempt + 1)
      (received ++ (providerStream request p attempt).events) (by omega)
    rw [List.range'_succ, List.map_cons, takeThrough]
    by_cases hfinal : (providerStream request p attempt).isFinal = true
    · refine ⟨providerStream request p attempt, by rw [if_pos hfinal]; rfl, ?_⟩
      rw [if_pos hfinal, callStreamLoop, hfinal, Bool.true_or]
      simp
    · refine ⟨a, ?_, ?_⟩
      · rw [if_neg hfinal, List.getLast?_cons, ha]
        rfl
      · rw [if_neg hfinal, callStreamLoop, Bool.eq_false_iff.mpr hfinal, hlast]
        refine (if_neg Bool.false_ne_true).trans ?_
        rw [hrest, List.flatMap_cons, List.append_assoc]

/-- One candidate, unless the number of attempts wraps to none: its tries, and the status of the last. -/
theorem reliableCallStream_tries (r : ReliableProvider E) (request : ProviderRequest) (p : Provider E)
    (received : List E) :
    (reliableCallStream r request p received).2
        = received ++ (tries r request p).flatMap (·.events) ∧
      (((codeOf (reliableCallStream r request p received).1).isNone ||
        endsCall (reliableCallStream r request p received).1) = settles (tries r request p)) ∧
      ((codeOf (reliableCallStream r request p received).1).isNone = true ↔
        ∃ a, (tries r request p).getLast? = some a ∧ a.succeeds = true) := by
  rcases Nat.eq_zero_or_pos (r.maxRetries + 1).toNat with hzero | hpos
  · have htries : tries r request p = [] := by rw [tries, hzero]; rfl
    rw [reliableCallStream, hzero, htries]
    refine ⟨(List.append_nil received).symm, rfl, (nomatch ·), ?_⟩
    rintro ⟨a, ha, -⟩
    exact nomatch ha
  · obtain ⟨left, hleft⟩ : ∃ left, (r.maxRetries + 1).toNat = left + 1 :=
      ⟨(r.maxRetries + 1).toNat - 1, by omega⟩
    have hcount : left + 1 = r.maxRetries.toNat + 1 := by
      rw [← hleft, UInt32.toNat_add]
      have hlt := r.maxRetries.toNat_lt
      rw [UInt32.toNat_add] at hpos
      have hone : (1 : UInt32).toNat = 1 := rfl
      omega
    obtain ⟨a, ha, hloop⟩ := callStreamLoop_eq r.maxRetries.toNat request p left 1
      received hcount
    rw [reliableCallStream, tries, hleft, hloop, settles, ha]
    refine ⟨rfl, rfl, fun h => ⟨a, rfl, h⟩, ?_⟩
    rintro ⟨b, hb, hsucceeds⟩
    rw [Option.some.inj hb]
    exact hsucceeds

/-- Tries that do not settle the call all failed. -/
theorem tries_fail {r : ReliableProvider E} {request : ProviderRequest} {p : Provider E}
    (h : settles (tries r request p) = false) : ∀ a ∈ tries r request p, a.succeeds = false := by
  intro a ha
  have hne : tries r request p ≠ [] := List.ne_nil_of_mem ha
  have hsplit := List.dropLast_append_getLast hne
  rw [← hsplit] at ha
  rcases List.mem_append.mp ha with ha | ha
  · -- before the last one nothing is final, so nothing succeeded
    have hfinal := takeThrough_dropLast _ a ha
    rw [← Bool.not_eq_true] at hfinal ⊢
    exact fun hs => hfinal (Attempt.isFinal_of_succeeds hs)
  · rw [List.mem_singleton.mp ha]
    rw [settles, List.getLast?_eq_some_getLast hne] at h
    exact (Bool.or_eq_false_iff.mp h).1

/-- **Only the last attempt of a schedule can succeed.** -/
theorem scheduleFrom_dropLast (r : ReliableProvider E) (request : ProviderRequest) :
    ∀ (ps : List (Provider E)), ∀ a ∈ (scheduleFrom r request ps).dropLast, a.succeeds = false := by
  intro ps
  induction ps with
  | nil => intro a ha; exact absurd ha List.not_mem_nil
  | cons p ps ih =>
    intro a ha
    rw [scheduleFrom] at ha
    split at ha
    · exact ih a ha
    · split at ha
      · have hfinal := takeThrough_dropLast _ a ha
        rw [← Bool.not_eq_true] at hfinal ⊢
        exact fun hs => hfinal (Attempt.isFinal_of_succeeds hs)
      · rename_i hopen
        have hfail := tries_fail (Bool.eq_false_iff.mpr hopen)
        by_cases hrest : scheduleFrom r request ps = []
        · rw [hrest, List.append_nil] at ha
          exact hfail a (List.dropLast_subset _ ha)
        · rw [List.dropLast_append_of_ne_nil hrest] at ha
          rcases List.mem_append.mp ha with ha | ha
          · exact hfail a ha
          · exact ih a ha

/-- **The fall-over loop** follows the schedule of the candidates left. -/
theorem streamLoop_schedule (r : ReliableProvider E) (request : ProviderRequest) :
    ∀ (ps : List (Provider E)) (last : Res Unit) (received : List E), (codeOf last).isNone = false →
      (streamLoop r request ps last received).2
          = received ++ (scheduleFrom r request ps).flatMap (·.events) ∧
        ((codeOf (streamLoop r request ps last received).1).isNone = true ↔
          ∃ a ∈ scheduleFrom r request ps, a.succeeds = true) := by
  intro ps
  induction ps with
  | nil =>
    intro last received hlast
    refine ⟨(List.append_nil received).symm, fun h => ?_, ?_⟩
    · exact absurd (hlast.symm.trans h) Bool.false_ne_true
    · rintro ⟨a, ha, -⟩
      exact absurd ha List.not_mem_nil
  | cons p ps ih =>
    intro last received hlast
    rw [streamLoop, scheduleFrom]
    by_cases hskip : isSkipped r request p = true
    · rw [if_pos hskip, if_pos hskip]
      exact ih last received hlast
    · rw [if_neg hskip, if_neg hskip]
      obtain ⟨hevents, hsettles, hok⟩ := reliableCallStream_tries r request p received
      dsimp only
      rw [hsettles]
      by_cases hend : settles (tries r request p) = true
      · rw [if_pos hend, if_pos hend]
        refine ⟨hevents, hok.trans ⟨?_, ?_⟩⟩
        · rintro ⟨a, ha, hs⟩
          exact ⟨a, List.mem_of_getLast? ha, hs⟩
        · rintro ⟨a, ha, hs⟩
          have hne : tries r request p ≠ [] := List.ne_nil_of_mem ha
          rw [← List.dropLast_append_getLast hne] at ha
          rcases List.mem_append.mp ha with ha | ha
          · have hfinal := takeThrough_dropLast _ a ha
            exact absurd (hfinal.symm.trans (Attempt.isFinal_of_succeeds hs)) Bool.false_ne_true
          · rw [List.mem_singleton.mp ha] at hs
            exact ⟨_, List.getLast?_eq_some_getLast hne, hs⟩
      · rw [if_neg hend, if_neg hend]
        have hfailed : (codeOf (reliableCallStream r request p received).1).isNone = false := by
          rw [Bool.not_eq_true, ← hsettles, Bool.or_eq_false_iff] at hend
          exact hend.1
        obtain ⟨hrest, hlater⟩ := ih _ (reliableCallStream r request p received).2 hfailed
        refine ⟨?_, hlater.trans ⟨?_, ?_⟩⟩
        · rw [hrest, hevents, List.flatMap_append, List.append_assoc]
        · rintro ⟨a, ha, hs⟩
          exact ⟨a, List.mem_append_right _ ha, hs⟩
        · rintro ⟨a, ha, hs⟩
          rcases List.mem_append.mp ha with ha | ha
          · have hfail := tries_fail (Bool.eq_false_iff.mpr hend) a ha
            exact absurd (hfail.symm.trans hs) Bool.false_ne_true
          · exact ⟨a, ha, hs⟩

/-- **The callback receives the events of every attempt**, and the call succeeds iff one of them
    does. -/
theorem reliableStream_schedule (r : ReliableProvider E) (request : ProviderRequest) :
    (reliableStream r request).2 = (schedule r request).flatMap (·.events) ∧
      ((codeOf (reliableStream r request).1).isNone = true ↔
        ∃ a ∈ schedule r request, a.succeeds = true) := by
  have h := streamLoop_schedule r request r.providers
    (Status.invalidArgument "sc.provider_reliable.empty") [] rfl
  rw [List.nil_append] at h
  exact h

/-! ## Delivered once -/

/-- When the call succeeds, the callback was given exactly the events of the attempt that
    succeeded. -/
def DeliveredOnce (r : ReliableProvider E) (request : ProviderRequest) : Prop :=
  (codeOf (reliableStream r request).1).isNone = true →
    ∃ w ∈ schedule r request, w.succeeds = true ∧ (reliableStream r request).2 = w.events

/-- An attempt that fails before another one succeeds has emitted nothing. -/
def FailsSilently (r : ReliableProvider E) (request : ProviderRequest) : Prop :=
  ∀ w ∈ schedule r request, w.succeeds = true →
    ∀ a ∈ schedule r request, a.succeeds = false → a.events = []

/-- **Delivered once, exactly when the failures are silent**: no buffer stands between the attempts
    and the callback. -/
theorem deliveredOnce_iff (r : ReliableProvider E) (request : ProviderRequest) :
    DeliveredOnce r request ↔ FailsSilently r request := by
  obtain ⟨hevents, hok⟩ := reliableStream_schedule r request
  -- a schedule with a success is its failures, then the success
  have hsplit : ∀ w ∈ schedule r request, w.succeeds = true →
      ∃ failed, schedule r request = failed ++ [w] ∧ ∀ a ∈ failed, a.succeeds = false := by
    intro w hw hs
    have hne : schedule r request ≠ [] := List.ne_nil_of_mem hw
    have hlast := List.dropLast_append_getLast hne
    have hfail := scheduleFrom_dropLast r request r.providers
    rw [← hlast] at hw
    rcases List.mem_append.mp hw with hw | hw
    · exact absurd ((hfail w hw).symm.trans hs) Bool.false_ne_true
    · rw [List.mem_singleton.mp hw]
      exact ⟨(schedule r request).dropLast, hlast.symm, hfail⟩
  constructor
  · intro honce w hw hs a ha hfails
    obtain ⟨v, hv, hvs, hreceived⟩ := honce (hok.mpr ⟨w, hw, hs⟩)
    obtain ⟨failed, hschedule, -⟩ := hsplit v hv hvs
    rw [hevents, hschedule, List.flatMap_append, List.flatMap_singleton,
      List.append_left_eq_self] at hreceived
    rw [hschedule] at ha
    rcases List.mem_append.mp ha with ha | ha
    · exact List.flatMap_eq_nil_iff.mp hreceived a ha
    · rw [List.mem_singleton.mp ha] at hfails
      exact absurd (hfails.symm.trans hvs) Bool.false_ne_true
  · intro hsilent hsuccess
    obtain ⟨w, hw, hs⟩ := hok.mp hsuccess
    obtain ⟨failed, hschedule, hfail⟩ := hsplit w hw hs
    refine ⟨w, hw, hs, ?_⟩
    have hnone : failed.flatMap (·.events) = [] := by
      refine List.flatMap_eq_nil_iff.mpr fun a ha => ?_
      exact hsilent w hw hs a (by rw [hschedule]; exact List.mem_append_left _ ha) (hfail a ha)
    rw [hevents, hschedule, List.flatMap_append, hnone, List.flatMap_singleton, List.nil_append]

/-- A candidate whose first attempt breaks off after one delta. -/
def flakyProvider : Provider Bytes where
  name := str "flaky"
  stream attempt :=
    if attempt = 1 then ⟨[str "Hel"], Status.http "sc.provider_http.stream_request_failed"⟩
    else ⟨[str "Hello"], .ok ()⟩

/-- **The retried stream is delivered twice**: the delta of the broken attempt stays. -/
theorem retried_stream_delivered_twice :
    ¬ DeliveredOnce ⟨[flakyProvider], 2⟩ ⟨str "m", false⟩ := by
  intro h
  obtain ⟨w, hw, -, hreceived⟩ := h (by decide)
  have hschedule : schedule ⟨[flakyProvider], 2⟩ ⟨str "m", false⟩
      = [⟨[str "Hel"], Status.http "sc.provider_http.stream_request_failed"⟩,
        ⟨[str "Hello"], .ok ()⟩] := by decide
  have hevents : (reliableStream ⟨[flakyProvider], 2⟩ ⟨str "m", false⟩).2 = [str "Hel", str "Hello"] := by
    decide
  rw [hevents] at hreceived
  rw [hschedule] at hw
  rcases List.mem_cons.mp hw with rfl | hw
  · exact absurd hreceived (by decide)
  · rw [List.mem_singleton.mp hw] at hreceived
    exact absurd hreceived (by decide)

end SmolClaw.Reliable
