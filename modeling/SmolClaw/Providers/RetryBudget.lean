/-
  The retries of a native provider: `http_provider_generate` and `provider_curl_json_post`
  (`src/providers/http_providers.c`), over whatever the transport answers.

  1. **Program** — two loops with the same `max_retries`: the transport repeats a request, and around it
     the generate loop repeats the transport.  What libcurl answers to each request, in order, is a
     parameter; so are the builders, the parser and the set-up of libcurl.

  2. **Loops** — `generateLoop_requests`: the requests are those of `Lib.Retries`, where an outcome asks
     the inner loop for another attempt (`Outcome.again`) or the outer one (`Outcome.anew`).

  3. **Budget** — `WithinBudget`: one request at least, `max_retries + 1` at most, and none after an
     answer that settles the call.

  4. **Defects** — with the largest number of retries no request is made, each loop has a budget of its
     own, and the outer loop repeats after a 404 as it does after a 500, and after an answer that it does not
     keep because it is too large.

  5. **Result** — `withinBudget_iff`: the exact condition on the outcomes.
-/
import SmolClaw.Lib.Retries
import SmolClaw.Providers.Answers
import SmolClaw.Providers.Reliable

namespace SmolClaw.Providers

open Lib.Retries Reliable

/-! ## Outcomes -/

/-- `CURLcode`, as far as the code tells the values apart. -/
inductive CurlCode where
  | ok
  | couldntResolveHost
  | couldntConnect
  | operationTimedout
  | recvError
  | sendError
  | gotNothing
  | partialFile
  | other (code : Nat)
  deriving DecidableEq, Repr

/-- What one `curl_easy_perform` comes to; the HTTP status is 0 without an answer. -/
structure Outcome where
  code : CurlCode
  httpStatus : Nat
  body : Bytes
  deriving DecidableEq, Repr

/-- `response.max_bytes` -/
def responseMaxBytes : Nat := 8 * 1024 * 1024

/-- `response.too_large` -/
def Outcome.tooLarge (o : Outcome) : Bool := responseMaxBytes < o.body.length

/-- `provider_curl_code_retryable` -/
def curlCodeRetryable (code : CurlCode) : Bool :=
  code == .couldntResolveHost || code == .couldntConnect || code == .operationTimedout ||
    code == .recvError || code == .sendError || code == .gotNothing || code == .partialFile

/-- `provider_http_status_retryable` -/
def httpStatusRetryable (status : Nat) : Bool := status == 408 || status == 429 || 500 ≤ status

/-- The transport goes on after this outcome. -/
def Outcome.again (o : Outcome) : Bool :=
  !o.tooLarge && (curlCodeRetryable o.code || httpStatusRetryable o.httpStatus)

/-! ## The program -/

/-- The kinds `http_provider_generate` tells apart. -/
inductive NativeKind where
  | anthropic
  | gemini
  | ollama
  | bedrock
  deriving DecidableEq, Repr

/-- The key of the errors that an HTTP status makes. -/
def NativeKind.errorKey : NativeKind → String
  | .anthropic => "sc.provider_anthropic.http_error"
  | .gemini => "sc.provider_gemini.http_error"
  | .ollama => "sc.provider_ollama.http_error"
  | .bedrock => "sc.provider_bedrock.http_error"

/-- `http_provider` with one request: what its builders, the resolving of its credential and its parser
    give. -/
structure NativeProvider (R : Type) where
  kind : NativeKind
  maxRetries : UInt32
  buildRequest : Res Bytes
  buildUrl : Res Bytes
  credential : Res Unit
  parseResponse : Bytes → Res R
  applyUsageCost : R → R

/-- libcurl: whether it can be set up, and whether it was built with `CURLOPT_AWS_SIGV4`. -/
structure Libcurl where
  setup : Res Unit
  canSign : Bool

variable {R : Type}

/-- The loop of `provider_curl_json_post`, for `left` turns, the next one attempt number `attempt` and
    request number `next` of the call: the last request that is made, if one is. -/
def postLoop (outcomes : Nat → Outcome) (maxAttempts : Nat) : Nat → Nat → Nat → Option Nat
  | 0, _, _ => none
  | left + 1, attempt, next =>
      if !(outcomes next).again || maxAttempts ≤ attempt then some next
      else postLoop outcomes maxAttempts left (attempt + 1) (next + 1)

/-- `provider_curl_json_post`: the response, the HTTP status as it is left in the variable of the caller,
    and the number of the next request.  `max_retries + 1U` wraps; where no request is made the response
    is empty, and a missing `CURLOPT_AWS_SIGV4` is forgotten. -/
def curlJsonPost (curl : Libcurl) (p : NativeProvider R) (outcomes : Nat → Outcome)
    (httpStatus next : Nat) : Res Bytes × Nat × Nat :=
  match (if p.kind = .ollama then .ok () else p.credential : Res Unit), curl.setup with
  | .error e, _ => (.error e, httpStatus, next)
  | .ok (), .error e => (.error e, httpStatus, next)
  | .ok (), .ok () =>
      let maxAttempts := if p.kind = .bedrock ∧ !curl.canSign then 0 else (p.maxRetries + 1).toNat
      match postLoop outcomes maxAttempts maxAttempts 1 next with
      | none => (.ok [], 0, next)
      | some last =>
          let o := outcomes last
          if o.tooLarge then (Status.http "sc.provider_http.response_too_large", o.httpStatus, last + 1)
          else if o.code ≠ .ok then (Status.http "sc.provider_http.request_failed", o.httpStatus, last + 1)
          else (.ok o.body, o.httpStatus, last + 1)

/-- The status of an attempt of the generate loop. -/
def attemptStatus (kind : NativeKind) (response : Res Bytes) (httpStatus : Nat) : Res Bytes :=
  match response with
  | .error e => .error e
  | .ok body =>
      if httpStatus < 200 ∨ 300 ≤ httpStatus then parseGeminiErrorStatus kind.errorKey else .ok body

/-- The loop of `http_provider_generate`, for `left` turns: the status, and the number of requests that
    were made. -/
def generateLoop (curl : Libcurl) (p : NativeProvider R) (outcomes : Nat → Outcome) :
    Nat → Nat → Nat → Nat → Res Bytes × Nat
  | 0, _, _, next => (.ok [], next)
  | left + 1, attempt, httpStatus, next =>
      let (response, httpStatus, next) := curlJsonPost curl p outcomes httpStatus next
      let status := attemptStatus p.kind response httpStatus
      if (codeOf status).isNone || !shouldRetry (status.map fun _ => ()) httpStatus ||
          attempt = p.maxRetries.toNat then (status, next)
      else generateLoop curl p outcomes left (attempt + 1) httpStatus next

/-- `http_provider_generate`: the response, and the number of requests that were made. -/
def httpProviderGenerate (curl : Libcurl) (p : NativeProvider R) (outcomes : Nat → Outcome) :
    Res R × Nat :=
  match p.buildRequest, p.buildUrl with
  | .error e, _ => (.error e, 0)
  | .ok _, .error e => (.error e, 0)
  | .ok _, .ok _ =>
      match generateLoop curl p outcomes (p.maxRetries.toNat + 1) 0 0 0 with
      | (.error e, requests) => (.error e, requests)
      | (.ok body, requests) => ((p.parseResponse body).map p.applyUsageCost, requests)

/-! ## The two loops -/

/-- The generate loop goes on after this outcome: no response, or a status that is not 2xx, and not a
    refusal of the credentials. -/
def Outcome.anew (o : Outcome) : Bool :=
  (o.tooLarge || o.code != .ok || o.httpStatus < 200 || 300 ≤ o.httpStatus) &&
    o.httpStatus != 401 && o.httpStatus != 403

/-- The transport's loop is the inner one of the library. -/
theorem postLoop_roundEnd (outcomes : Nat → Outcome) (maxAttempts left : Nat) :
    ∀ attempt next, left + attempt = maxAttempts →
      postLoop outcomes maxAttempts (left + 1) attempt next =
        some (roundEnd (fun k => (outcomes k).again) left next) := by
  induction left with
  | zero =>
    intro attempt next hattempt
    rw [postLoop, decide_eq_true (show maxAttempts ≤ attempt by omega), Bool.or_true, if_pos rfl]
    rfl
  | succ left ih =>
    intro attempt next hattempt
    rw [postLoop, decide_eq_false (show ¬ maxAttempts ≤ attempt by omega), Bool.or_false, roundEnd]
    cases (outcomes next).again with
    | false => rfl
    | true => exact ih (attempt + 1) (next + 1) (by omega)

/-- A failure of code `http` is repeated unless the credentials were refused. -/
theorem shouldRetry_http (key : String) (httpStatus : Nat) :
    shouldRetry (.error ⟨.http, key⟩) httpStatus = (httpStatus != 401 && httpStatus != 403) := by
  have hclass : classifyRetry (.error ⟨.http, key⟩) httpStatus =
      if (httpStatus : Int) = 401 ∨ (httpStatus : Int) = 403 then .invalidCredentials
      else if (httpStatus : Int) = 408 then .transient
      else if (httpStatus : Int) = 429 then .rateLimit
      else .server := by
    rw [classifyRetry]
    simp only [codeOf, Option.some.injEq, reduceCtorEq, or_false, or_true, if_true, if_false]
  rw [shouldRetry, hclass]
  by_cases hrefused : (httpStatus : Int) = 401 ∨ (httpStatus : Int) = 403
  · rw [if_pos hrefused]
    rcases hrefused with h | h
    · rw [show httpStatus = 401 by omega]
      rfl
    · rw [show httpStatus = 403 by omega]
      rfl
  · rw [if_neg hrefused]
    have hother : (httpStatus != 401 && httpStatus != 403) = true := by
      rw [Bool.and_eq_true, bne_iff_ne, bne_iff_ne]
      omega
    rw [hother]
    split
    · rfl
    · split <;> rfl

/-- Everything in front of the first request is in order. -/
structure Ready (curl : Libcurl) (p : NativeProvider R) : Prop where
  setup : curl.setup = .ok ()
  signs : p.kind = .bedrock → curl.canSign = true
  attempts : p.maxRetries ≠ 0xFFFFFFFF

/-- What a call of the transport gives for its last outcome. -/
def postResult (o : Outcome) : Res Bytes :=
  if o.tooLarge then Status.http "sc.provider_http.response_too_large"
  else if o.code ≠ .ok then Status.http "sc.provider_http.request_failed"
  else .ok o.body

/-- **A call of the transport** that is ready makes the requests of one round. -/
theorem curlJsonPost_ready {curl : Libcurl} {p : NativeProvider R} (h : Ready curl p)
    (hcredential : p.credential = .ok ()) (outcomes : Nat → Outcome) (httpStatus next : Nat) :
    curlJsonPost curl p outcomes httpStatus next =
      (postResult (outcomes (roundEnd (fun k => (outcomes k).again) p.maxRetries.toNat next)),
        (outcomes (roundEnd (fun k => (outcomes k).again) p.maxRetries.toNat next)).httpStatus,
        roundEnd (fun k => (outcomes k).again) p.maxRetries.toNat next + 1) := by
  have hmax : (p.maxRetries + 1).toNat = p.maxRetries.toNat + 1 := by
    have hlt := p.maxRetries.toNat_lt
    have hne : p.maxRetries.toNat ≠ 2 ^ 32 - 1 := fun hlast => h.attempts (UInt32.toNat_inj.mp hlast)
    rw [UInt32.toNat_add]
    have hone : (1 : UInt32).toNat = 1 := rfl
    omega
  have hsigns : ¬ (p.kind = .bedrock ∧ (!curl.canSign) = true) := by
    rintro ⟨hkind, hno⟩
    rw [h.signs hkind] at hno
    cases hno
  have hresolved : (if p.kind = .ollama then .ok () else p.credential : Res Unit) = .ok () := by
    rw [hcredential, ite_self]
  rw [curlJsonPost, hresolved, h.setup]
  simp only [if_neg hsigns, hmax,
    postLoop_roundEnd outcomes (p.maxRetries.toNat + 1) p.maxRetries.toNat 1 next rfl]
  rw [postResult]
  split
  · rfl
  · split <;> rfl

/-- A call of the transport that is not ready makes no request. -/
theorem curlJsonPost_not_ready {curl : Libcurl} {p : NativeProvider R} (h : ¬ Ready curl p)
    (outcomes : Nat → Outcome) (httpStatus next : Nat) :
    (curlJsonPost curl p outcomes httpStatus next).2.2 = next := by
  rw [curlJsonPost]
  cases (if p.kind = .ollama then .ok () else p.credential : Res Unit) with
  | error e => rfl
  | ok u =>
    cases hsetup : curl.setup with
    | error e => rfl
    | ok u =>
      have hnone : (if p.kind = .bedrock ∧ (!curl.canSign) = true then 0
          else (p.maxRetries + 1).toNat) = 0 := by
        split
        · rfl
        · next hsigns =>
          by_contra hne
          refine h ⟨hsetup, fun hkind => ?_, fun hmax => ?_⟩
          · by_contra hno
            exact hsigns ⟨hkind, by rw [Bool.not_eq_true] at hno; rw [hno]; rfl⟩
          · rw [hmax] at hne
            exact hne rfl
      simp only [hnone, postLoop]

/-- **The generate loop goes on** exactly after the outcomes that say so. -/
theorem attemptStatus_retried (kind : NativeKind) (o : Outcome) :
    ((codeOf (attemptStatus kind (postResult o) o.httpStatus)).isNone ||
      !shouldRetry ((attemptStatus kind (postResult o) o.httpStatus).map fun _ => ()) o.httpStatus) =
    !o.anew := by
  have hfailed : ∀ key : String, ((codeOf (Status.http key : Res Bytes)).isNone ||
      !shouldRetry ((Status.http key : Res Bytes).map fun _ => ()) o.httpStatus) =
      !(o.httpStatus != 401 && o.httpStatus != 403) := by
    intro key
    show (false || !shouldRetry (.error ⟨.http, key⟩) o.httpStatus) = _
    rw [shouldRetry_http, Bool.false_or]
  rw [Outcome.anew, postResult]
  cases htoo : o.tooLarge with
  | true =>
    rw [if_pos rfl, Bool.true_or, Bool.true_or, Bool.true_or, Bool.true_and]
    exact hfailed _
  | false =>
    rw [if_neg Bool.false_ne_true, Bool.false_or]
    by_cases hcode : o.code = .ok
    · rw [if_neg (not_not.mpr hcode), hcode, attemptStatus]
      split
      · next hstatus =>
        have hno : (decide (o.httpStatus < 200) || decide (300 ≤ o.httpStatus)) = true := by
          rw [Bool.or_eq_true, decide_eq_true_iff, decide_eq_true_iff]
          exact hstatus
        rw [show (CurlCode.ok != CurlCode.ok) = false from rfl, Bool.false_or, hno, Bool.true_and]
        exact hfailed _
      · next hstatus =>
        rw [not_or] at hstatus
        rw [decide_eq_false hstatus.1, decide_eq_false hstatus.2]
        rfl
    · have hbad : (o.code != CurlCode.ok) = true := bne_iff_ne.mpr hcode
      rw [if_pos hcode, hbad, Bool.true_or, Bool.true_or, Bool.true_and]
      exact hfailed _

/-- **The requests of the generate loop** are the attempts of the two loops. -/
theorem generateLoop_requests {curl : Libcurl} {p : NativeProvider R} (h : Ready curl p)
    (hcredential : p.credential = .ok ()) (outcomes : Nat → Outcome) (left : Nat) :
    ∀ attempt httpStatus next, left + attempt = p.maxRetries.toNat →
      (generateLoop curl p outcomes (left + 1) attempt httpStatus next).2 =
        lastAttempt (fun k => (outcomes k).again) (fun k => (outcomes k).anew) p.maxRetries.toNat left next
          + 1 := by
  induction left with
  | zero =>
    intro attempt httpStatus next hattempt
    rw [generateLoop, curlJsonPost_ready h hcredential]
    simp only
    rw [decide_eq_true (show attempt = p.maxRetries.toNat by omega), Bool.or_true, if_pos rfl]
    rfl
  | succ left ih =>
    intro attempt httpStatus next hattempt
    rw [generateLoop, curlJsonPost_ready h hcredential]
    simp only
    rw [attemptStatus_retried, decide_eq_false (show ¬ attempt = p.maxRetries.toNat by omega), Bool.or_false,
      lastAttempt]
    cases (outcomes (roundEnd (fun k => (outcomes k).again) p.maxRetries.toNat next)).anew with
    | false => rfl
    | true => exact ih (attempt + 1) _ _ (by omega)

theorem generateLoop_not_ready {curl : Libcurl} {p : NativeProvider R} (h : ¬ Ready curl p)
    (outcomes : Nat → Outcome) (left : Nat) :
    ∀ attempt httpStatus next, (generateLoop curl p outcomes left attempt httpStatus next).2 = next := by
  induction left with
  | zero => intro attempt httpStatus next; rfl
  | succ left ih =>
    intro attempt httpStatus next
    have hnext := curlJsonPost_not_ready h outcomes httpStatus next
    rw [generateLoop]
    generalize curlJsonPost curl p outcomes httpStatus next = post at hnext
    obtain ⟨response, status, after⟩ := post
    obtain rfl : after = next := hnext
    simp only
    split
    · rfl
    · exact ih _ _ _

/-! ## The budget -/

/-- **An answer that settles the call**: libcurl succeeded, or failed behind the HTTP status as it does when
    the body is too large, and the status is not one that is worth another request. -/
def Outcome.Settles (o : Outcome) : Prop :=
  (o.code = .ok ∨ o.httpStatus ≠ 0) ∧ o.httpStatus ≠ 408 ∧ o.httpStatus ≠ 429 ∧
    ¬ (500 ≤ o.httpStatus ∧ o.httpStatus ≤ 599)

/-- **What a call may do**: one request at least, `max_retries + 1` at most, and none after an answer that
    settles it. -/
structure WithinBudget (maxRetries : UInt32) (outcomes : Nat → Outcome) (requests : Nat) : Prop where
  least : 1 ≤ requests
  most : requests ≤ maxRetries.toNat + 1
  settled : ∀ k, k + 1 < requests → ¬ (outcomes k).Settles

/-- The outcomes are such that the two loops together keep to the number of retries: there are none, an
    outcome in time asks neither loop for more, only the outer loop is asked, or only the inner one. -/
def KeepsCount (maxRetries : Nat) (outcomes : Nat → Outcome) : Prop :=
  maxRetries = 0 ∨
    (∃ k ≤ maxRetries, (outcomes k).again = false ∧ (outcomes k).anew = false) ∨
    (∀ k ≤ maxRetries, (outcomes k).again = false) ∨
    ((∀ k < maxRetries, (outcomes k).again = true) ∧ (outcomes maxRetries).anew = false)

/-- As long as every outcome so far asks one of the loops for more, none of them settles the call. -/
def RepeatsUnsettled (maxRetries : Nat) (outcomes : Nat → Outcome) : Prop :=
  ∀ k < maxRetries, (∀ j ≤ k, (outcomes j).again = true ∨ (outcomes j).anew = true) →
    ¬ (outcomes k).Settles

/-- The number of requests of a call that is ready. -/
theorem httpProviderGenerate_requests {curl : Libcurl} {p : NativeProvider R} {request url : Bytes}
    (hrequest : p.buildRequest = .ok request) (hurl : p.buildUrl = .ok url) (outcomes : Nat → Outcome) :
    (httpProviderGenerate curl p outcomes).2 =
      (generateLoop curl p outcomes (p.maxRetries.toNat + 1) 0 0 0).2 := by
  rw [httpProviderGenerate, hrequest, hurl]
  simp only
  rcases generateLoop curl p outcomes (p.maxRetries.toNat + 1) 0 0 0 with ⟨e | body, requests⟩ <;> rfl

/-- **When the retry budget is kept**: libcurl is set up and can sign what must be signed, the number of
    attempts does not wrap, the outcomes keep the two loops to one budget, and no answer that settles the
    call is repeated. -/
theorem withinBudget_iff {p : NativeProvider R} {request url : Bytes}
    (hrequest : p.buildRequest = .ok request) (hurl : p.buildUrl = .ok url)
    (hcredential : p.credential = .ok ()) (curl : Libcurl) (outcomes : Nat → Outcome) :
    WithinBudget p.maxRetries outcomes (httpProviderGenerate curl p outcomes).2 ↔
      Ready curl p ∧ KeepsCount p.maxRetries.toNat outcomes ∧
        RepeatsUnsettled p.maxRetries.toNat outcomes := by
  rw [httpProviderGenerate_requests hrequest hurl]
  by_cases hready : Ready curl p
  · rw [generateLoop_requests hready hcredential outcomes p.maxRetries.toNat 0 0 0 (Nat.add_zero _),
      and_iff_right hready, KeepsCount, ← lastAttempt_le_iff]
    obtain ⟨-, hreach, hend⟩ := lastAttempt_spec (fun k => (outcomes k).again)
      (fun k => (outcomes k).anew) p.maxRetries.toNat p.maxRetries.toNat 0 (Nat.le_refl _)
    generalize lastAttempt (fun k => (outcomes k).again) (fun k => (outcomes k).anew) p.maxRetries.toNat
      p.maxRetries.toNat 0 = last at hreach hend ⊢
    constructor
    · rintro ⟨-, hmost, hsettled⟩
      refine ⟨by omega, fun k hk hon => ?_⟩
      by_cases hlast : k < last
      · exact hsettled k (by omega)
      · -- the last attempt would not have been the last one
        obtain ⟨hagain, hanew⟩ := hend (by omega)
        rcases hon last (by omega) with h | h
        · rw [hagain] at h
          cases h
        · rw [hanew] at h
          cases h
    · rintro ⟨hmost, hunsettled⟩
      refine ⟨by omega, by omega, fun k hk => hunsettled k (by omega) fun j hj => ?_⟩
      exact hreach j (Nat.zero_le j) (by omega)
  · rw [generateLoop_not_ready hready]
    refine iff_of_false (fun h => ?_) fun h => hready h.1
    have hleast := h.least
    omega

/-- A provider with two retries. -/
def twoRetries : NativeProvider Bytes :=
  { kind := .gemini, maxRetries := 2, buildRequest := .ok [], buildUrl := .ok [], credential := .ok (),
    parseResponse := .ok, applyUsageCost := id }

/-- A server that is busy, and answers. -/
theorem withinBudget_busy :
    WithinBudget 2 (fun k => ⟨.ok, if k = 0 then 503 else 200, []⟩)
      (httpProviderGenerate ⟨.ok (), true⟩ twoRetries fun k => ⟨.ok, if k = 0 then 503 else 200, []⟩).2 := by
  refine (withinBudget_iff (p := twoRetries) rfl rfl rfl ⟨.ok (), true⟩ _).mpr
    ⟨⟨rfl, fun _ => rfl, by decide⟩, ?_, ?_⟩
  · exact Or.inr (Or.inl ⟨1, by decide, by decide, by decide⟩)
  · intro k hk hon hsettles
    cases k with
    | zero => exact hsettles.2.2.2 (by decide)
    | succ k =>
      rcases hon 1 (by omega) with h | h
      · revert h
        decide
      · revert h
        decide

/-- **A model that does not exist is asked for three times**: every answer is a 404. -/
theorem withinBudget_repeats :
    ¬ ∀ (p : NativeProvider Bytes) (request url : Bytes), p.buildRequest = .ok request →
      p.buildUrl = .ok url → p.credential = .ok () → ∀ (curl : Libcurl) (outcomes : Nat → Outcome),
      WithinBudget p.maxRetries outcomes (httpProviderGenerate curl p outcomes).2 := by
  intro h
  have hbudget := h twoRetries [] [] rfl rfl rfl ⟨.ok (), true⟩ fun _ => ⟨.ok, 404, []⟩
  exact hbudget.settled 0 (by decide) ⟨Or.inl rfl, by decide⟩

end SmolClaw.Providers
