/-
  The retry rule of a blocking request (`reliable_generate`, `src/providers/reliable.c`), over every
  list of candidates and whatever they answer.

  1. **Program** — `generateLoop` goes through the candidates, `callGenerateLoop` repeats one of them up
     to `max_retries + 1U` times; every call made is noted, in order.

  2. **Reach** — `Reached` says on the candidates' answers alone when the call number `k` of candidate
     `i` is due.  `mem_calls_iff` and `calls_pairwise` connect the two: the calls made are the ones due,
     in order.

  3. **Rule** — `FollowsRule` is what a caller may rely on.  It holds exactly when the number of
     attempts does not wrap to none and no refused credential comes as a failure worth repeating
     (`followsRule_iff`): the class is computed from the status alone, the HTTP status is `0` there.

  4. **A candidate** — `compatibleGenerate` shows that this happens: its own loop stops at a 401, and
     then returns a failure of code `http`, which the loop around it repeats.
-/
import Mathlib.Data.List.Perm.Subperm
import SmolClaw.Providers.Answers
import SmolClaw.Providers.Reliable

namespace SmolClaw.Reliable

/-! ## The program -/

variable {E R : Type}

/-- What one generate operation ends with: its status, and the last HTTP status it was given (`0` if
    it was given none). -/
structure Reply (R : Type) where
  status : Res R
  httpStatus : Int

/-- The status without the response. -/
def Reply.outcome (r : Reply R) : Res Unit := r.status.map fun _ => ()

/-- A candidate with its generate operation: what it does at each attempt of a call, counted from 1. -/
structure Candidate (E R : Type) extends Provider E where
  generate : Nat → Reply R

/-- `reliable_provider` -/
structure ReliableGenerator (E R : Type) where
  candidates : List (Candidate E R)
  maxRetries : UInt32

/-- A call that was made: the position of the candidate, the number of the attempt, and the reply. -/
structure Call (R : Type) where
  candidate : Nat
  attempt : Nat
  reply : Reply R

/-- `sc_provider_generate` -/
def providerGenerate (request : ProviderRequest) (c : Candidate E R) (attempt : Nat) : Reply R :=
  if request.cancelRequested then ⟨Status.cancelled "sc.provider.cancelled", 0⟩ else c.generate attempt

/-- A reply after which the retry loop goes on, unless the attempts are used up. -/
def Reply.isRetried (r : Reply R) : Bool := (codeOf r.status).isSome && shouldRetry r.outcome 0

/-- The loop of `reliable_call_generate`: `left` turns, the next one attempt number `attempt`. -/
def callGenerateLoop (maxRetries : Nat) (request : ProviderRequest) (i : Nat) (c : Candidate E R) :
    Nat → Nat → Res R × List (Call R)
  | 0, _ => (Status.invalidArgument "sc.provider_reliable.null_provider", [])
  | left + 1, attempt =>
      let reply := providerGenerate request c attempt
      if !reply.isRetried || maxRetries < attempt then (reply.status, [⟨i, attempt, reply⟩])
      else
        let (status, calls) := callGenerateLoop maxRetries request i c left (attempt + 1)
        (status, ⟨i, attempt, reply⟩ :: calls)

/-- `reliable_call_generate`; `max_retries + 1U` wraps, and then no attempt is made. -/
def reliableCallGenerate (maxRetries : UInt32) (request : ProviderRequest) (i : Nat)
    (c : Candidate E R) : Res R × List (Call R) :=
  callGenerateLoop maxRetries.toNat request i c (maxRetries + 1).toNat 1

/-- `any_model_match` -/
def anyCandidateMatch (cs : List (Candidate E R)) (model : Bytes) : Bool :=
  cs.any fun c => providerMatchesModel c.toProvider model

/-- The candidates the loop of `reliable_generate` calls. -/
def isSelected (cs : List (Candidate E R)) (model : Bytes) (c : Candidate E R) : Bool :=
  !anyCandidateMatch cs model || providerMatchesModel c.toProvider model

/-- The status ends the call: a success, or a failure that is passed on at once. -/
def isSettled (status : Res R) : Bool :=
  (codeOf status).isNone || endsCall (status.map fun _ => ())

/-- The loop of `reliable_generate` over the candidates left, the next one at position `i`. -/
def generateLoop (r : ReliableGenerator E R) (request : ProviderRequest) :
    Nat → List (Candidate E R) → Res R → Res R × List (Call R)
  | _, [], last => (last, [])
  | i, c :: cs, last =>
      if !isSelected r.candidates request.model c then generateLoop r request (i + 1) cs last
      else
        let (status, calls) := reliableCallGenerate r.maxRetries request i c
        if isSettled status then (status, calls)
        else
          let (result, later) := generateLoop r request (i + 1) cs status
          (result, calls ++ later)

/-- `reliable_generate`: the status with the response, and the calls that were made. -/
def reliableGenerate (r : ReliableGenerator E R) (request : ProviderRequest) : Res R × List (Call R) :=
  generateLoop r request 0 r.candidates (Status.invalidArgument "sc.provider_reliable.empty")

/-! ## One candidate -/

/-- The reply number `m` is the last one the retry loop asks for. -/
structure LastAttempt (maxRetries : Nat) (replies : Nat → Reply R) (m : Nat) : Prop where
  pos : 1 ≤ m
  le : m ≤ maxRetries + 1
  retried : ∀ a, 1 ≤ a → a < m → (replies a).isRetried = true
  final : (replies m).isRetried = true → m = maxRetries + 1

theorem LastAttempt.unique {maxRetries : Nat} {replies : Nat → Reply R} {m n : Nat}
    (hm : LastAttempt maxRetries replies m) (hn : LastAttempt maxRetries replies n) : m = n := by
  rcases Nat.lt_trichotomy m n with h | h | h
  · have hlast := hm.final (hn.retried m hm.pos h)
    have hle := hn.le
    omega
  · exact h
  · have hlast := hn.final (hm.retried n hn.pos h)
    have hle := hm.le
    omega

/-- **The retry loop** asks for the attempts up to the last one, and returns the status of that. -/
theorem callGenerateLoop_spec (maxRetries : Nat) (request : ProviderRequest) (i : Nat)
    (c : Candidate E R) :
    ∀ (left attempt : Nat), left + attempt = maxRetries + 1 → 1 ≤ attempt →
      (∀ a, 1 ≤ a → a < attempt → (providerGenerate request c a).isRetried = true) →
      ∃ m, LastAttempt maxRetries (providerGenerate request c) m ∧ attempt ≤ m ∧
        callGenerateLoop maxRetries request i c (left + 1) attempt
          = ((providerGenerate request c m).status,
            (List.range' attempt (m + 1 - attempt)).map fun a => ⟨i, a, providerGenerate request c a⟩) := by
  intro left
  induction left with
  | zero =>
    intro attempt hcount hpos hbefore
    have hlast : maxRetries < attempt := by omega
    refine ⟨attempt, ⟨hpos, by omega, hbefore, fun _ => by omega⟩, Nat.le_refl _, ?_⟩
    have hone : attempt + 1 - attempt = 1 := by omega
    rw [callGenerateLoop, hone]
    simp [hlast]
  | succ left ih =>
    intro attempt hcount hpos hbefore
    rw [callGenerateLoop]
    cases hretried : (providerGenerate request c attempt).isRetried with
    | false =>
      have hone : attempt + 1 - attempt = 1 := by omega
      refine ⟨attempt, ⟨hpos, by omega, hbefore, ?_⟩, Nat.le_refl _, ?_⟩
      · intro h
        rw [hretried] at h
        exact nomatch h
      · rw [hone]
        simp
    | true =>
      have hmore : ¬ maxRetries < attempt := by omega
      obtain ⟨m, hm, hle, hrest⟩ := ih (attempt + 1) (by omega) (by omega) (by
        intro a ha hlt
        rcases Nat.lt_succ_iff_lt_or_eq.mp hlt with hlt | rfl
        · exact hbefore a ha hlt
        · exact hretried)
      refine ⟨m, hm, by omega, ?_⟩
      have hcons : m + 1 - attempt = m + 1 - (attempt + 1) + 1 := by omega
      rw [hrest, hcons, List.range'_succ, List.map_cons]
      simp [hmore]

/-- One candidate, when the number of attempts does not wrap. -/
theorem reliableCallGenerate_spec {maxRetries : UInt32} (hwrap : maxRetries + 1 ≠ 0)
    (request : ProviderRequest) (i : Nat) (c : Candidate E R) :
    ∃ m, LastAttempt maxRetries.toNat (providerGenerate request c) m ∧
      reliableCallGenerate maxRetries request i c
        = ((providerGenerate request c m).status,
          (List.range' 1 m).map fun a => ⟨i, a, providerGenerate request c a⟩) := by
  have hcount : (maxRetries + 1).toNat = maxRetries.toNat + 1 := by
    have hne : (maxRetries + 1).toNat ≠ 0 := fun h => hwrap (UInt32.toNat_inj.mp h)
    have hlt := maxRetries.toNat_lt
    rw [UInt32.toNat_add] at hne ⊢
    have hone : (1 : UInt32).toNat = 1 := rfl
    omega
  obtain ⟨m, hm, -, hloop⟩ := callGenerateLoop_spec maxRetries.toNat request i c
    maxRetries.toNat 1 (by omega) (Nat.le_refl 1) (by intro a ha hlt; omega)
  exact ⟨m, hm, by rw [reliableCallGenerate, hcount, hloop, Nat.add_sub_cancel]⟩

/-! ## Reach -/

/-- The candidate's last attempt is a failure that the next candidate is asked after. -/
def FailsOver (maxRetries : Nat) (request : ProviderRequest) (c : Candidate E R) : Prop :=
  ∃ m, LastAttempt maxRetries (providerGenerate request c) m ∧
    isSettled (providerGenerate request c m).status = false

/-- **The call number `k` of the candidate at position `i` is due**: every selected candidate before it
    has failed over, and every attempt before this one was to be repeated. -/
structure Reached (r : ReliableGenerator E R) (request : ProviderRequest) (i : Nat) (c : Candidate E R)
    (k : Nat) : Prop where
  candidate : r.candidates[i]? = some c
  selected : isSelected r.candidates request.model c = true
  before : ∀ j < i, ∀ d, r.candidates[j]? = some d → isSelected r.candidates request.model d = true →
    FailsOver r.maxRetries.toNat request d
  pos : 1 ≤ k
  le : k ≤ r.maxRetries.toNat + 1
  retried : ∀ a, 1 ≤ a → a < k → (providerGenerate request c a).isRetried = true

/-- A due attempt is not behind the last one. -/
theorem Reached.le_last {r : ReliableGenerator E R} {request : ProviderRequest} {i k m : Nat}
    {c : Candidate E R} (h : Reached r request i c k)
    (hm : LastAttempt r.maxRetries.toNat (providerGenerate request c) m) : k ≤ m := by
  rcases Nat.lt_or_ge m k with hlt | hge
  · have hlast := hm.final (h.retried m hm.pos hlt)
    have hle := h.le
    omega
  · exact hge

/-- The attempts up to the last one are due once the first is. -/
theorem Reached.of_le_last {r : ReliableGenerator E R} {request : ProviderRequest} {i k m : Nat}
    {c : Candidate E R} (h : Reached r request i c 1)
    (hm : LastAttempt r.maxRetries.toNat (providerGenerate request c) m) (hpos : 1 ≤ k) (hk : k ≤ m) :
    Reached r request i c k :=
  ⟨h.candidate, h.selected, h.before, hpos, Nat.le_trans hk hm.le,
    fun a ha hlt => hm.retried a ha (Nat.lt_of_lt_of_le hlt hk)⟩

/-- After a reply that is to be repeated the next attempt is due, if one is left. -/
theorem Reached.next {r : ReliableGenerator E R} {request : ProviderRequest} {i k : Nat}
    {c : Candidate E R} (h : Reached r request i c k) (hle : k ≤ r.maxRetries.toNat)
    (hretried : (providerGenerate request c k).isRetried = true) : Reached r request i c (k + 1) := by
  refine ⟨h.candidate, h.selected, h.before, by omega, by omega, ?_⟩
  intro a ha hlt
  rcases Nat.lt_succ_iff_lt_or_eq.mp hlt with hlt | rfl
  · exact h.retried a ha hlt
  · exact hretried

section Calls

variable {r : ReliableGenerator E R} {request : ProviderRequest}

/-- **The loop makes the calls that are due**, from the position it is at. -/
theorem mem_generateLoop (hwrap : r.maxRetries + 1 ≠ 0) :
    ∀ (cs pre : List (Candidate E R)) (last : Res R), r.candidates = pre ++ cs →
      (∀ d ∈ pre, isSelected r.candidates request.model d = true →
        FailsOver r.maxRetries.toNat request d) →
      ∀ call, call ∈ (generateLoop r request pre.length cs last).2 ↔
        pre.length ≤ call.candidate ∧ ∃ c, Reached r request call.candidate c call.attempt ∧
          call.reply = providerGenerate request c call.attempt := by
  intro cs
  induction cs with
  | nil =>
    intro pre last hsplit _ call
    rw [List.append_nil] at hsplit
    refine ⟨fun h => absurd h List.not_mem_nil, ?_⟩
    rintro ⟨hle, c, hreached, -⟩
    have hlt := (List.getElem?_eq_some_iff.mp hreached.candidate).1
    rw [hsplit] at hlt
    omega
  | cons c cs ih =>
    intro pre last hsplit hpre call
    have hat : r.candidates[pre.length]? = some c := by rw [hsplit]; simp
    have hnext : r.candidates = (pre ++ [c]) ++ cs := by rw [hsplit]; simp
    have hlen : (pre ++ [c]).length = pre.length + 1 := by simp
    -- only the candidate at this position is told apart from the ones behind it
    have hhere : ∀ {d}, pre.length ≤ call.candidate → Reached r request call.candidate d call.attempt →
        (call.candidate = pre.length ∧ d = c) ∨ pre.length + 1 ≤ call.candidate := by
      intro d hle hreached
      rcases Nat.lt_or_eq_of_le hle with hlt | heq
      · exact Or.inr hlt
      · have hd := hreached.candidate
        rw [← heq, hat] at hd
        exact Or.inl ⟨heq.symm, (Option.some.inj hd).symm⟩
    have hpast : ∀ last', (∀ d ∈ pre ++ [c], isSelected r.candidates request.model d = true →
        FailsOver r.maxRetries.toNat request d) →
        (call ∈ (generateLoop r request (pre.length + 1) cs last').2 ↔
          pre.length + 1 ≤ call.candidate ∧ ∃ c, Reached r request call.candidate c call.attempt ∧
            call.reply = providerGenerate request c call.attempt) := by
      intro last' hall
      have hrest := ih (pre ++ [c]) last' hnext hall call
      rwa [hlen] at hrest
    have hsnoc : (isSelected r.candidates request.model c = true →
        FailsOver r.maxRetries.toNat request c) → ∀ d ∈ pre ++ [c],
        isSelected r.candidates request.model d = true → FailsOver r.maxRetries.toNat request d := by
      intro hc d hd
      rcases List.mem_append.mp hd with hd | hd
      · exact hpre d hd
      · rw [List.mem_singleton.mp hd]
        exact hc
    rw [generateLoop]
    cases hselected : isSelected r.candidates request.model c with
    | false =>
      rw [if_pos (by rw [Bool.not_false]), hpast last (hsnoc fun h => absurd (hselected.symm.trans h) (by decide))]
      constructor
      · rintro ⟨hle, hdue⟩
        exact ⟨by omega, hdue⟩
      · rintro ⟨hle, d, hreached, hreply⟩
        rcases hhere hle hreached with ⟨-, rfl⟩ | hlt
        · exact absurd (hselected.symm.trans hreached.selected) (by decide)
        · exact ⟨hlt, d, hreached, hreply⟩
    | true =>
      rw [if_neg (by decide)]
      obtain ⟨m, hm, hcall⟩ := reliableCallGenerate_spec hwrap request pre.length c
      have hfirst : Reached r request pre.length c 1 := by
        refine ⟨hat, hselected, ?_, Nat.le_refl 1, by omega, by intro a ha hlt; omega⟩
        intro j hj d hd
        rw [hsplit, List.getElem?_append_left hj] at hd
        exact hpre d (List.mem_of_getElem? hd)
      have hmine : (call ∈ (List.range' 1 m).map fun a =>
          (⟨pre.length, a, providerGenerate request c a⟩ : Call R)) ↔
          call.candidate = pre.length ∧ Reached r request pre.length c call.attempt ∧
            call.reply = providerGenerate request c call.attempt := by
        rw [List.mem_map]
        constructor
        · rintro ⟨a, ha, rfl⟩
          rw [List.mem_range'_1] at ha
          have hle : a ≤ m := by omega
          exact ⟨rfl, hfirst.of_le_last hm ha.1 hle, rfl⟩
        · rintro ⟨hcandidate, hreached, hreply⟩
          have hle := hreached.le_last hm
          refine ⟨call.attempt, List.mem_range'_1.mpr ⟨hreached.pos, by omega⟩, ?_⟩
          rw [← hcandidate, ← hreply]
      rw [hcall]
      dsimp only
      cases hsettled : isSettled (providerGenerate request c m).status with
      | true =>
        rw [if_pos rfl, hmine]
        constructor
        · rintro ⟨hcandidate, hreached, hreply⟩
          exact ⟨Nat.le_of_eq hcandidate.symm, c, hcandidate.symm ▸ hreached, hreply⟩
        · rintro ⟨hle, d, hreached, hreply⟩
          rcases hhere hle hreached with ⟨hcandidate, rfl⟩ | hlt
          · exact ⟨hcandidate, hcandidate ▸ hreached, hreply⟩
          · -- a candidate behind this one is not due: this one settles the call
            obtain ⟨m', hm', hopen⟩ := hreached.before pre.length hlt c hat hselected
            rw [hm'.unique hm, hsettled] at hopen
            exact nomatch hopen
      | false =>
        rw [if_neg (by decide), List.mem_append, hmine, hpast _ (hsnoc fun _ => ⟨m, hm, hsettled⟩)]
        constructor
        · rintro (⟨hcandidate, hreached, hreply⟩ | ⟨hle, hdue⟩)
          · exact ⟨Nat.le_of_eq hcandidate.symm, c, hcandidate.symm ▸ hreached, hreply⟩
          · exact ⟨by omega, hdue⟩
        · rintro ⟨hle, d, hreached, hreply⟩
          rcases hhere hle hreached with ⟨hcandidate, rfl⟩ | hlt
          · exact Or.inl ⟨hcandidate, hcandidate ▸ hreached, hreply⟩
          · exact Or.inr ⟨hlt, d, hreached, hreply⟩

/-- **The calls of a request** are the ones that are due. -/
theorem mem_calls_iff (hwrap : r.maxRetries + 1 ≠ 0) (call : Call R) :
    call ∈ (reliableGenerate r request).2 ↔ ∃ c, Reached r request call.candidate c call.attempt ∧
      call.reply = providerGenerate request c call.attempt := by
  have h : call ∈ (generateLoop r request 0 r.candidates _).2 ↔ _ :=
    mem_generateLoop hwrap r.candidates [] (Status.invalidArgument "sc.provider_reliable.empty") rfl
      (by simp) call
  rw [reliableGenerate]
  simpa using h

/-- One call stands before another: an earlier candidate, or an earlier attempt with the same one. -/
def Call.Before (a b : Call R) : Prop :=
  a.candidate < b.candidate ∨ (a.candidate = b.candidate ∧ a.attempt < b.attempt)

/-- **They are made in order.** -/
theorem generateLoop_pairwise (hwrap : r.maxRetries + 1 ≠ 0) :
    ∀ (cs : List (Candidate E R)) (i : Nat) (last : Res R),
      (generateLoop r request i cs last).2.Pairwise Call.Before ∧
        ∀ call ∈ (generateLoop r request i cs last).2, i ≤ call.candidate := by
  intro cs
  induction cs with
  | nil => exact fun i last => ⟨List.Pairwise.nil, fun _ h => absurd h List.not_mem_nil⟩
  | cons c cs ih =>
    intro i last
    rw [generateLoop]
    split
    · obtain ⟨hpairwise, hle⟩ := ih (i + 1) last
      exact ⟨hpairwise, fun call hcall => Nat.le_of_succ_le (hle call hcall)⟩
    · obtain ⟨m, -, hcall⟩ := reliableCallGenerate_spec hwrap request i c
      have hmine : ((List.range' 1 m).map fun a =>
          (⟨i, a, providerGenerate request c a⟩ : Call R)).Pairwise Call.Before := by
        have hlt : (List.range' 1 m).Pairwise (· < ·) := List.pairwise_lt_range'
        rw [List.pairwise_map]
        exact hlt.imp fun h => Or.inr ⟨rfl, h⟩
      have hat : ∀ call ∈ (List.range' 1 m).map fun a =>
          (⟨i, a, providerGenerate request c a⟩ : Call R), call.candidate = i := by
        intro call h
        obtain ⟨a, -, rfl⟩ := List.mem_map.mp h
        rfl
      rw [hcall]
      dsimp only
      split
      · exact ⟨hmine, fun call h => Nat.le_of_eq (hat call h).symm⟩
      · obtain ⟨hpairwise, hle⟩ := ih (i + 1) (providerGenerate request c m).status
        refine ⟨List.pairwise_append.mpr ⟨hmine, hpairwise, ?_⟩, ?_⟩
        · intro a ha b hb
          refine Or.inl ?_
          have hb := hle b hb
          rw [hat a ha]
          omega
        · intro call h
          rcases List.mem_append.mp h with h | h
          · exact Nat.le_of_eq (hat call h).symm
          · exact Nat.le_of_succ_le (hle call h)

/-- A reply that is repeated is no success. -/
theorem Reply.ne_ok_of_isRetried {reply : Reply R} (h : reply.isRetried = true) (v : R) :
    reply.status ≠ .ok v := by
  intro hok
  rw [Reply.isRetried, hok, codeOf] at h
  exact nomatch h

/-- What is worth repeating ends nothing. -/
theorem Reply.isSettled_of_isRetried {reply : Reply R} (h : reply.isRetried = true) :
    isSettled reply.status = false := by
  obtain ⟨status, httpStatus⟩ := reply
  cases status with
  | ok v => exact nomatch h
  | error e =>
    obtain ⟨code, key⟩ := e
    cases code <;> first | rfl | exact nomatch h

theorem ne_ok_of_not_settled {status : Res R} (h : isSettled status = false) (v : R) :
    status ≠ .ok v := by
  rintro rfl
  exact nomatch h

/-- **The result** is the response of the call that succeeded, if one did. -/
theorem generateLoop_ok (hwrap : r.maxRetries + 1 ≠ 0) (v : R) :
    ∀ (cs : List (Candidate E R)) (i : Nat) (last : Res R), last ≠ .ok v →
      ((generateLoop r request i cs last).1 = .ok v ↔
        ∃ call ∈ (generateLoop r request i cs last).2, call.reply.status = .ok v) := by
  intro cs
  induction cs with
  | nil =>
    intro i last hlast
    refine ⟨fun h => absurd h hlast, ?_⟩
    rintro ⟨call, hcall, -⟩
    exact absurd hcall List.not_mem_nil
  | cons c cs ih =>
    intro i last hlast
    rw [generateLoop]
    split
    · exact ih (i + 1) last hlast
    · obtain ⟨m, hm, hcall⟩ := reliableCallGenerate_spec hwrap request i c
      -- among the calls of one candidate only the last can be a success
      have hmine : (∃ call ∈ (List.range' 1 m).map fun a =>
          (⟨i, a, providerGenerate request c a⟩ : Call R), call.reply.status = .ok v) ↔
          (providerGenerate request c m).status = .ok v := by
        constructor
        · rintro ⟨call, hcall, hok⟩
          obtain ⟨a, ha, rfl⟩ := List.mem_map.mp hcall
          rw [List.mem_range'_1] at ha
          rcases Nat.lt_or_ge a m with hlt | hge
          · exact absurd hok (Reply.ne_ok_of_isRetried (hm.retried a ha.1 hlt) v)
          · obtain rfl : a = m := by omega
            exact hok
        · intro hok
          have hmem : m ∈ List.range' 1 m := List.mem_range'_1.mpr ⟨hm.pos, by omega⟩
          exact ⟨_, List.mem_map_of_mem hmem, hok⟩
      rw [hcall]
      dsimp only
      cases hsettled : isSettled (providerGenerate request c m).status with
      | true =>
        rw [if_pos rfl]
        exact hmine.symm
      | false =>
        have hfailed := ne_ok_of_not_settled hsettled v
        rw [if_neg (by decide)]
        refine (ih (i + 1) _ hfailed).trans ?_
        constructor
        · rintro ⟨call, h, hok⟩
          exact ⟨call, List.mem_append_right _ h, hok⟩
        · rintro ⟨call, h, hok⟩
          rcases List.mem_append.mp h with h | h
          · exact absurd (hmine.mp ⟨call, h, hok⟩) hfailed
          · exact ⟨call, h, hok⟩

/-- **A call that another one follows was a failure that ends nothing**; and if the other one goes to
    the same candidate, one to be repeated. -/
theorem call_before {a b : Call R} (hwrap : r.maxRetries + 1 ≠ 0)
    (ha : a ∈ (reliableGenerate r request).2) (hb : b ∈ (reliableGenerate r request).2)
    (hbefore : a.Before b) :
    isSettled a.reply.status = false ∧
      (a.candidate = b.candidate → a.attempt ≤ r.maxRetries.toNat ∧ a.reply.isRetried = true) := by
  obtain ⟨c, hc, hreply⟩ := (mem_calls_iff hwrap a).mp ha
  obtain ⟨d, hd, -⟩ := (mem_calls_iff hwrap b).mp hb
  rcases hbefore with hlt | ⟨heq, hlt⟩
  · obtain ⟨m, hm, hopen⟩ := hd.before a.candidate hlt c hc.candidate hc.selected
    refine ⟨?_, fun heq => absurd heq (Nat.ne_of_lt hlt)⟩
    rw [hreply]
    rcases Nat.lt_or_eq_of_le (hc.le_last hm) with hearlier | hlast
    · exact Reply.isSettled_of_isRetried (hm.retried _ hc.pos hearlier)
    · rw [hlast]
      exact hopen
  · obtain rfl : c = d := by
      have hat := hc.candidate
      rw [heq, hd.candidate] at hat
      exact (Option.some.inj hat).symm
    have hretried := hd.retried a.attempt hc.pos hlt
    have hle := hd.le
    rw [← hreply] at hretried
    exact ⟨Reply.isSettled_of_isRetried hretried, fun _ => ⟨by omega, hretried⟩⟩

end Calls

/-! ## The rule -/

/-- **The retry rule**: which candidates are called, in which order and how often, what ends a request,
    and what it returns. -/
structure FollowsRule (r : ReliableGenerator E R) (request : ProviderRequest) : Prop where
  /-- Only candidates the model names are called, or all if it names none. -/
  selected : ∀ call ∈ (reliableGenerate r request).2, ∃ c, r.candidates[call.candidate]? = some c ∧
    isSelected r.candidates request.model c = true ∧
    call.reply = providerGenerate request c call.attempt
  inOrder : (reliableGenerate r request).2.Pairwise Call.Before
  /-- None of them is passed over. -/
  noneSkipped : ∀ call ∈ (reliableGenerate r request).2, ∀ j < call.candidate, ∀ d,
    r.candidates[j]? = some d → isSelected r.candidates request.model d = true →
    ∃ b ∈ (reliableGenerate r request).2, b.candidate = j
  /-- A candidate is called when the last call to each selected one before it failed and ended
      nothing. -/
  called : ∀ i c, r.candidates[i]? = some c → isSelected r.candidates request.model c = true →
    (∀ j < i, ∀ d, r.candidates[j]? = some d → isSelected r.candidates request.model d = true →
      ∃ a ∈ (reliableGenerate r request).2, a.candidate = j ∧
        (∀ b ∈ (reliableGenerate r request).2, b.candidate = j → b.attempt ≤ a.attempt) ∧
        isSettled a.reply.status = false) →
    ∃ call ∈ (reliableGenerate r request).2, call.candidate = i
  bounded : ∀ i, ((reliableGenerate r request).2.filter fun call => call.candidate == i).length
    ≤ r.maxRetries.toNat + 1
  /-- Nothing is called after a success, or after a failure that ends the request. -/
  stops : ∀ call ∈ (reliableGenerate r request).2.dropLast, isSettled call.reply.status = false
  firstSuccess : ∀ v, (reliableGenerate r request).1 = .ok v ↔
    ∃ call, (reliableGenerate r request).2.find? (fun call => (codeOf call.reply.status).isNone)
      = some call ∧ call.reply.status = .ok v
  /-- No candidate is called again after its HTTP status said that the credentials are invalid. -/
  credentials : (reliableGenerate r request).2.Pairwise fun a b => a.candidate = b.candidate →
    classifyRetry a.reply.outcome a.reply.httpStatus ≠ .invalidCredentials

/-- The number of attempts does not wrap to none, where there is a candidate to call. -/
def AttemptsRemain (r : ReliableGenerator E R) : Prop :=
  r.candidates = [] ∨ r.maxRetries ≠ 0xFFFFFFFF

/-- A failure that will be repeated does not come with an HTTP status 401 or 403. -/
def RefusalsAreFinal (r : ReliableGenerator E R) (request : ProviderRequest) : Prop :=
  ∀ i c k, Reached r request i c k → k ≤ r.maxRetries.toNat →
    (providerGenerate request c k).isRetried = true →
    (providerGenerate request c k).httpStatus ≠ 401 ∧ (providerGenerate request c k).httpStatus ≠ 403

/-- Of a failure worth repeating, the class is that of refused credentials iff the HTTP status is. -/
theorem invalidCredentials_iff {reply : Reply R} (h : reply.isRetried = true) :
    classifyRetry reply.outcome reply.httpStatus = .invalidCredentials ↔
      reply.httpStatus = 401 ∨ reply.httpStatus = 403 := by
  obtain ⟨status, httpStatus⟩ := reply
  cases status with
  | ok v => exact nomatch h
  | error e =>
    obtain ⟨code, key⟩ := e
    have hclass : code ≠ .cancelled → code ≠ .securityDenied → code ≠ .invalidArgument →
        code ≠ .parse → (classifyRetry (.error ⟨code, key⟩) httpStatus = .invalidCredentials ↔
          httpStatus = 401 ∨ httpStatus = 403) := by
      intro hcancelled hdenied hargument hparse
      have hsome : ∀ {other}, code ≠ other → some code ≠ some other := fun hne he => hne (Option.some.inj he)
      unfold classifyRetry
      dsimp only [codeOf]
      rw [if_neg (hsome hcancelled), if_neg (hsome hdenied),
        if_neg (not_or.mpr ⟨hsome hargument, hsome hparse⟩)]
      by_cases hhttp : httpStatus = 401 ∨ httpStatus = 403
      · rw [if_pos hhttp]
        exact ⟨fun _ => hhttp, fun _ => rfl⟩
      · rw [if_neg hhttp]
        refine ⟨fun hc => ?_, fun hc => absurd hc hhttp⟩
        split at hc
        · exact nomatch hc
        split at hc
        · exact nomatch hc
        split at hc <;> exact nomatch hc
    cases code <;>
      first | exact hclass (by decide) (by decide) (by decide) (by decide) | exact nomatch h

/-- No attempt is made when their number wraps. -/
theorem reliableCallGenerate_wrapped {maxRetries : UInt32} (hwrap : maxRetries + 1 = 0)
    (request : ProviderRequest) (i : Nat) (c : Candidate E R) :
    reliableCallGenerate maxRetries request i c
      = (Status.invalidArgument "sc.provider_reliable.null_provider", []) := by
  rw [reliableCallGenerate, hwrap]
  rfl

theorem generateLoop_wrapped {r : ReliableGenerator E R} (hwrap : r.maxRetries + 1 = 0)
    (request : ProviderRequest) :
    ∀ (cs : List (Candidate E R)) (i : Nat) (last : Res R), (generateLoop r request i cs last).2 = [] := by
  intro cs
  induction cs with
  | nil => exact fun _ _ => rfl
  | cons c cs ih =>
    intro i last
    rw [generateLoop, reliableCallGenerate_wrapped hwrap]
    split
    · exact ih _ _
    · rfl

/-- The first candidate that is selected: there is one, unless there is no candidate at all. -/
theorem exists_first_selected {cs : List (Candidate E R)} (hne : cs ≠ []) (model : Bytes) :
    ∃ (i : Nat) (c : Candidate E R), cs[i]? = some c ∧ isSelected cs model c = true ∧
      ∀ j < i, ∀ d, cs[j]? = some d → isSelected cs model d = false := by
  have hsome : ∃ c ∈ cs, isSelected cs model c = true := by
    cases hany : anyCandidateMatch cs model with
    | false =>
      obtain ⟨c, hc⟩ := List.exists_mem_of_ne_nil cs hne
      exact ⟨c, hc, by rw [isSelected, hany]; rfl⟩
    | true =>
      obtain ⟨c, hc, hmatch⟩ := List.any_eq_true.mp hany
      exact ⟨c, hc, by rw [isSelected, hmatch, Bool.or_true]⟩
  obtain ⟨c, hc, hselected⟩ := hsome
  cases hfind : cs.findIdx? (isSelected cs model) with
  | none => exact absurd hselected (by rw [List.findIdx?_eq_none_iff.mp hfind c hc]; decide)
  | some i =>
    obtain ⟨hlt, hi, hbefore⟩ := List.findIdx?_eq_some_iff_getElem.mp hfind
    refine ⟨i, cs[i], List.getElem?_eq_getElem hlt, hi, ?_⟩
    intro j hj d hd
    obtain ⟨hjlt, rfl⟩ := List.getElem?_eq_some_iff.mp hd
    exact Bool.eq_false_iff.mpr (hbefore j hj)

theorem Call.Before.asymm {a b : Call R} (h : a.Before b) : ¬ b.Before a := by
  unfold Call.Before at h ⊢
  omega

/-- In an ordered list a property of all pairs holds of two calls in their order. -/
theorem pairwise_before {P : Call R → Call R → Prop} {calls : List (Call R)}
    (horder : calls.Pairwise Call.Before) (hP : calls.Pairwise P) {a b : Call R} (ha : a ∈ calls)
    (hb : b ∈ calls) (hbefore : a.Before b) : P a b := by
  induction calls with
  | nil => exact absurd ha List.not_mem_nil
  | cons x calls ih =>
    obtain ⟨hx, horder⟩ := List.pairwise_cons.mp horder
    obtain ⟨hPx, hP⟩ := List.pairwise_cons.mp hP
    rcases List.mem_cons.mp ha with rfl | ha'
    · rcases List.mem_cons.mp hb with rfl | hb'
      · exact absurd hbefore hbefore.asymm
      · exact hPx b hb'
    · rcases List.mem_cons.mp hb with rfl | hb'
      · exact absurd (hx a ha') hbefore.asymm
      · exact ih horder hP ha' hb'

section Follows

variable {r : ReliableGenerator E R} (hwrap : r.maxRetries + 1 ≠ 0) (request : ProviderRequest)
include hwrap

theorem calls_pairwise : (reliableGenerate r request).2.Pairwise Call.Before :=
  (generateLoop_pairwise hwrap r.candidates 0 _).1

theorem calls_bounded (i : Nat) :
    ((reliableGenerate r request).2.filter fun call => call.candidate == i).length
      ≤ r.maxRetries.toNat + 1 := by
  have hmine := (calls_pairwise hwrap request).sublist
    (List.filter_sublist (p := fun call => call.candidate == i))
  generalize hcalls : ((reliableGenerate r request).2.filter fun call => call.candidate == i) = mine at hmine ⊢
  have hdue : ∀ call ∈ mine, call.candidate = i ∧ 1 ≤ call.attempt ∧ call.attempt ≤ r.maxRetries.toNat + 1 := by
    intro call h
    rw [← hcalls, List.mem_filter, beq_iff_eq] at h
    obtain ⟨c, hc, -⟩ := (mem_calls_iff hwrap call).mp h.1
    exact ⟨h.2, hc.pos, hc.le⟩
  have hnodup : (mine.map (·.attempt)).Nodup := by
    rw [List.Nodup, List.pairwise_map]
    refine (List.Pairwise.and_mem.mp hmine).imp ?_
    rintro a b ⟨ha, hb, hbefore⟩
    have hsame := (hdue a ha).1.trans (hdue b hb).1.symm
    rcases hbefore with hlt | ⟨-, hlt⟩
    · exact absurd hsame (Nat.ne_of_lt hlt)
    · exact Nat.ne_of_lt hlt
  have hsub : mine.map (·.attempt) ⊆ List.range' 1 (r.maxRetries.toNat + 1) := by
    intro a ha
    obtain ⟨call, hcall, rfl⟩ := List.mem_map.mp ha
    obtain ⟨-, hpos, hle⟩ := hdue call hcall
    exact List.mem_range'_1.mpr ⟨hpos, by omega⟩
  have hlength := (hnodup.subperm hsub).length_le
  rwa [List.length_map, List.length_range'] at hlength

theorem calls_stop : ∀ call ∈ (reliableGenerate r request).2.dropLast,
    isSettled call.reply.status = false := by
  intro call hcall
  have hne : (reliableGenerate r request).2 ≠ [] := by
    intro hnil
    rw [hnil] at hcall
    exact absurd hcall List.not_mem_nil
  have hsplit := List.dropLast_append_getLast hne
  have horder := calls_pairwise hwrap request
  rw [← hsplit] at horder
  have hbefore := (List.pairwise_append.mp horder).2.2 call hcall _ List.mem_cons_self
  exact (call_before hwrap (List.dropLast_subset _ hcall) (List.getLast_mem hne) hbefore).1

theorem calls_firstSuccess (v : R) : (reliableGenerate r request).1 = .ok v ↔
    ∃ call, (reliableGenerate r request).2.find? (fun call => (codeOf call.reply.status).isNone)
      = some call ∧ call.reply.status = .ok v := by
  have hok : (generateLoop r request 0 r.candidates _).1 = .ok v ↔ _ :=
    generateLoop_ok hwrap v r.candidates 0 (Status.invalidArgument "sc.provider_reliable.empty")
      (Status.invalidArgument_ne_ok _ v)
  refine hok.trans ⟨?_, ?_⟩
  · rintro ⟨call, hcall, hstatus⟩
    have hsuccess : (codeOf call.reply.status).isNone = true := by rw [hstatus]; rfl
    cases hfind : (reliableGenerate r request).2.find? fun call => (codeOf call.reply.status).isNone with
    | none => exact absurd hsuccess (List.find?_eq_none.mp hfind call hcall)
    | some first =>
      refine ⟨first, rfl, ?_⟩
      obtain ⟨hfirst, before, after, hsplit, hbefore⟩ := List.find?_eq_some_iff_append.mp hfind
      have horder := calls_pairwise hwrap request
      have hmem : call ∈ before ++ first :: after := hsplit ▸ hcall
      rcases List.mem_append.mp hmem with hmem | hmem
      · have hno := hbefore call hmem
        rw [hsuccess] at hno
        exact nomatch hno
      rcases List.mem_cons.mp hmem with rfl | hmem
      · exact hstatus
      · -- nothing is called behind a success
        rw [hsplit] at horder
        have hlater := (List.pairwise_cons.mp (List.pairwise_append.mp horder).2.1).1 call hmem
        have hopen := (call_before hwrap (List.mem_of_find?_eq_some hfind) hcall hlater).1
        rw [isSettled, hfirst, Bool.true_or] at hopen
        exact nomatch hopen
  · rintro ⟨call, hfind, hstatus⟩
    exact ⟨call, List.mem_of_find?_eq_some hfind, hstatus⟩

theorem calls_credentials (hfinal : RefusalsAreFinal r request) :
    (reliableGenerate r request).2.Pairwise fun a b => a.candidate = b.candidate →
      classifyRetry a.reply.outcome a.reply.httpStatus ≠ .invalidCredentials := by
  refine (List.Pairwise.and_mem.mp (calls_pairwise hwrap request)).imp ?_
  rintro a b ⟨ha, hb, hbefore⟩ hsame hclass
  obtain ⟨hle, hretried⟩ := (call_before hwrap ha hb hbefore).2 hsame
  obtain ⟨c, hc, hreply⟩ := (mem_calls_iff hwrap a).mp ha
  have hno := hfinal a.candidate c a.attempt hc hle (hreply ▸ hretried)
  rw [← hreply] at hno
  exact ((invalidCredentials_iff hretried).mp hclass).elim hno.1 hno.2

end Follows

/-- The number of attempts wraps at the largest `uint32_t` only. -/
theorem wrap_iff (n : UInt32) : n + 1 = 0 ↔ n = 0xFFFFFFFF := by
  rw [← UInt32.toNat_inj, ← UInt32.toNat_inj, UInt32.toNat_add]
  have hlt := n.toNat_lt
  have hone : (1 : UInt32).toNat = 1 := rfl
  have hzero : (0 : UInt32).toNat = 0 := rfl
  have hmax : (0xFFFFFFFF : UInt32).toNat = 4294967295 := rfl
  omega

/-- **When the retry rule is followed**: there is an attempt to make, and what the candidates answer to
    a repeated call did not come with a refusal of the credentials. -/
theorem followsRule_iff (r : ReliableGenerator E R) (request : ProviderRequest) :
    FollowsRule r request ↔ AttemptsRemain r ∧ RefusalsAreFinal r request := by
  constructor
  · intro h
    have hremain : AttemptsRemain r := by
      by_contra hno
      obtain ⟨hne, hwrap⟩ := not_or.mp hno
      have hnone : (reliableGenerate r request).2 = [] :=
        generateLoop_wrapped ((wrap_iff _).mpr (not_not.mp hwrap)) request _ _ _
      obtain ⟨i, c, hi, hselected, hfirst⟩ := exists_first_selected hne request.model
      obtain ⟨call, hcall, -⟩ := h.called i c hi hselected fun j hj d hd hds => by
        rw [hfirst j hj d hd] at hds
        exact nomatch hds
      rw [hnone] at hcall
      exact absurd hcall List.not_mem_nil
    refine ⟨hremain, ?_⟩
    intro i c k hreached hle hretried
    have hwrap : r.maxRetries + 1 ≠ 0 := by
      rcases hremain with hnil | hmax
      · have hat := hreached.candidate
        rw [hnil] at hat
        exact nomatch hat
      · exact fun hzero => hmax ((wrap_iff _).mp hzero)
    -- the call that is due and the one behind it
    have hnext := hreached.next hle hretried
    have hcall := (mem_calls_iff hwrap (⟨i, k, providerGenerate request c k⟩ : Call R)).mpr
      ⟨c, hreached, rfl⟩
    have hagain := (mem_calls_iff hwrap (⟨i, k + 1, providerGenerate request c (k + 1)⟩ : Call R)).mpr
      ⟨c, hnext, rfl⟩
    have hclass := pairwise_before h.inOrder h.credentials hcall hagain (Or.inr ⟨rfl, Nat.lt_succ_self k⟩) rfl
    exact not_or.mp fun hrefused => hclass ((invalidCredentials_iff hretried).mpr hrefused)
  · rintro ⟨hremain, hfinal⟩
    rcases hremain with hnil | hmax
    · have hnone : reliableGenerate r request = (Status.invalidArgument "sc.provider_reliable.empty", []) := by
        rw [reliableGenerate, hnil]
        rfl
      have hno : ∀ {i : Nat} {c : Candidate E R}, r.candidates[i]? ≠ some c := by
        intro i c
        rw [hnil]
        exact nofun
      constructor <;> rw [hnone]
      · exact fun call h => absurd h List.not_mem_nil
      · exact List.Pairwise.nil
      · exact fun call h => absurd h List.not_mem_nil
      · exact fun i c hi => absurd hi hno
      · exact fun i => Nat.zero_le _
      · exact fun call h => absurd h List.not_mem_nil
      · intro v
        refine ⟨fun h => absurd h (Status.invalidArgument_ne_ok _ v), ?_⟩
        rintro ⟨call, hfind, -⟩
        exact nomatch hfind
      · exact List.Pairwise.nil
    · have hwrap : r.maxRetries + 1 ≠ 0 := fun hzero => hmax ((wrap_iff _).mp hzero)
      refine ⟨?_, calls_pairwise hwrap request, ?_, ?_, calls_bounded hwrap request,
        calls_stop hwrap request, calls_firstSuccess hwrap request, calls_credentials hwrap request hfinal⟩
      · intro call hcall
        obtain ⟨c, hc, hreply⟩ := (mem_calls_iff hwrap call).mp hcall
        exact ⟨c, hc.candidate, hc.selected, hreply⟩
      · intro call hcall j hj d hd hselected
        obtain ⟨c, hc, -⟩ := (mem_calls_iff hwrap call).mp hcall
        have hfirst : Reached r request j d 1 :=
          ⟨hd, hselected, fun n hn => hc.before n (by omega), Nat.le_refl 1, by omega,
            by intro a ha hlt; omega⟩
        exact ⟨⟨j, 1, providerGenerate request d 1⟩, (mem_calls_iff hwrap _).mpr ⟨d, hfirst, rfl⟩, rfl⟩
      · intro i c hi hselected hpassed
        have hfirst : Reached r request i c 1 := by
          refine ⟨hi, hselected, ?_, Nat.le_refl 1, by omega, by intro a ha hlt; omega⟩
          intro j hj d hd hds
          obtain ⟨a, ha, rfl, hlast, hopen⟩ := hpassed j hj d hd hds
          obtain ⟨d', hd', hreply⟩ := (mem_calls_iff hwrap a).mp ha
          obtain rfl : d' = d := Option.some.inj (hd'.candidate.symm.trans hd)
          refine ⟨a.attempt, ⟨hd'.pos, hd'.le, hd'.retried, ?_⟩, hreply ▸ hopen⟩
          -- a reply that is repeated is the last call's only when the attempts are used up
          intro hretried
          by_contra hmore
          have hle := hd'.le
          have hnext := hd'.next (by omega) hretried
          have hover := hlast ⟨a.candidate, a.attempt + 1, providerGenerate request d' (a.attempt + 1)⟩
            ((mem_calls_iff hwrap _).mpr ⟨d', hnext, rfl⟩) rfl
          exact absurd hover (by show ¬ a.attempt + 1 ≤ a.attempt; omega)
        exact ⟨⟨i, 1, providerGenerate request c 1⟩, (mem_calls_iff hwrap _).mpr ⟨c, hfirst, rfl⟩, rfl⟩

/-! ## A candidate -/

/-- What one request of a compatible candidate gets: the status of the transport, the body, and the HTTP
    status. -/
structure Sent where
  status : Res Unit
  response : Bytes
  httpStatus : Int

/-- `compatible_provider`, with the request that is built for a call, the transport and the parser of
    responses as parameters. -/
structure CompatibleProvider (R : Type) where
  maxRetries : UInt32
  buildRequest : Res Bytes
  send : Nat → Sent
  parseResponse : Bytes → Res R

/-- `error_detail_from_object` -/
def errorDetailFromObject (object : Option Json) : Bool :=
  ["message", "error_description", "detail", "reason", "title"].any fun key =>
    (Providers.memberText object key).any (· ≠ [])

/-- `error_status_from_json`: the error key, or none where the object holds no error. -/
def errorStatusFromJson (root : Json) (standardKey nonstandardKey : String) : Option String :=
  match Providers.member (some root) "error" with
  | some (.object members) =>
      if (Providers.memberText (some (.object members)) "message").isSome then some standardKey
      else some nonstandardKey
  | some _ => some nonstandardKey
  | none => if errorDetailFromObject (some root) then some nonstandardKey else none

/-- `http_error_status` -/
def httpErrorStatus (responseJson : Bytes) (httpStatus : Int) : Res R :=
  let notFound := "sc.provider_compatible.endpoint_not_found"
  let fallback := if httpStatus = 404 then notFound else "sc.provider_compatible.non_json_error_response"
  match jsonParse responseJson with
  | .ok root =>
      Status.http ((errorStatusFromJson root
        (if httpStatus = 404 then notFound else "sc.provider_compatible.http_error")
        "sc.provider_compatible.nonstandard_error_response").getD fallback)
  | .error _ => Status.http fallback

/-- The loop of `compatible_generate`: here the class is computed WITH the HTTP status. -/
def compatibleLoop (maxAttempts : Nat) (send : Nat → Sent) : Nat → Nat → Sent → Sent
  | 0, _, last => last
  | left + 1, attempt, _ =>
      let sent := send attempt
      if !shouldRetry sent.status sent.httpStatus || maxAttempts ≤ attempt then sent
      else compatibleLoop maxAttempts send left (attempt + 1) sent

/-- `compatible_generate` -/
def compatibleGenerate (p : CompatibleProvider R) : Reply R :=
  match p.buildRequest with
  | .error e => ⟨.error e, 0⟩
  | .ok _ =>
      let maxAttempts := (p.maxRetries + 1).toNat
      let sent := compatibleLoop maxAttempts p.send maxAttempts 1 ⟨.ok (), [], 0⟩
      match sent.status with
      | .error e => ⟨.error e, sent.httpStatus⟩
      | .ok () =>
          if sent.httpStatus < 200 ∨ 300 ≤ sent.httpStatus then
            ⟨httpErrorStatus sent.response sent.httpStatus, sent.httpStatus⟩
          else ⟨p.parseResponse sent.response, sent.httpStatus⟩

/-- A compatible candidate whose endpoint answers every request with a 401. -/
def refusedCandidate : Candidate Unit Bytes where
  name := str "openai"
  stream _ := ⟨[], .ok ()⟩
  generate _ := compatibleGenerate
    { maxRetries := 0, buildRequest := .ok [], send := fun _ => ⟨.ok (), [], 401⟩, parseResponse := .ok }

/-- **The refused credentials are sent again**, up to the last attempt; and with the largest number of
    retries no request is sent at all. -/
theorem refused_candidate_repeated :
    ¬ FollowsRule ⟨[refusedCandidate], 2⟩ ⟨str "openai/gpt", false⟩ ∧
      ¬ FollowsRule ⟨[refusedCandidate], 0xFFFFFFFF⟩ ⟨str "openai/gpt", false⟩ := by
  constructor
  · intro h
    have hreply : refusedCandidate.generate 1
        = ⟨Status.http "sc.provider_compatible.non_json_error_response", 401⟩ := rfl
    have hcalls : (reliableGenerate ⟨[refusedCandidate], 2⟩ ⟨str "openai/gpt", false⟩).2
        = [1, 2, 3].map fun k => ⟨0, k, refusedCandidate.generate 1⟩ := rfl
    have hpair := h.credentials
    rw [hcalls, List.map_cons, List.map_cons] at hpair
    have hclass := (List.pairwise_cons.mp hpair).1 _ List.mem_cons_self rfl
    rw [hreply] at hclass
    exact hclass rfl
  · intro h
    obtain ⟨call, hcall, -⟩ := h.called 0 refusedCandidate rfl rfl fun j hj => absurd hj (Nat.not_lt_zero j)
    have hnone : (reliableGenerate ⟨[refusedCandidate], 0xFFFFFFFF⟩ ⟨str "openai/gpt", false⟩).2 = [] := rfl
    rw [hnone] at hcall
    exact absurd hcall List.not_mem_nil

end SmolClaw.Reliable
