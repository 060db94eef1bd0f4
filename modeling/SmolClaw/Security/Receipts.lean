/-
  The receipt chain of tool calls (`src/security/receipts.c`).

  1. **Program** — a receipt names the hash of its predecessor, carries an UNKEYED hash over its
     fields and a token: `HMAC-SHA256` under the session key over the same fields, each string behind
     its length, printed as `sc-receipt-<seconds>-<base64url>`.  `receiptChainAppendEx` seals a
     receipt, `receiptChainVerify` recomputes links, hashes and tokens.

  2. **What is a parameter** — libsodium is not part of the repository: the MAC is
     `hmac : Digest → Bytes → Digest`, key and message to 32 bytes.  That it does not collide on the
     messages at hand is the hypothesis `TokensInjective`.

  3. **Result** — `receiptChainVerify_iff_initial`: whatever an attacker without the key makes of the
     tokens of a chain — deletions, reorderings, duplicates, edited fields — is accepted exactly when
     it is an initial part of that chain, unchanged.  Verification cannot see that the END of a chain
     was cut off, and sees everything else.
-/
import SmolClaw.Lib.Run
import SmolClaw.Lib.Chain
import SmolClaw.Core.Double
import SmolClaw.Security.Audit

namespace SmolClaw.Security

open Lib.Run Lib.Chain

/-! ## The program -/

/-- An `sc_str` handed over by a caller: its length is a `size_t`. -/
structure SizedBytes where
  bytes : Bytes
  fits : bytes.length < 2 ^ 64
  deriving DecidableEq

/-- The 32 bytes of a session key or of a digest (`crypto_auth_hmacsha256_BYTES`). -/
abbrev Digest := Vector UInt8 32

/-- `sc_tool_receipt` -/
structure ToolReceipt where
  toolName : SizedBytes
  argsSummary : SizedBytes
  outputSummary : SizedBytes
  token : Bytes
  startedAt : Int64
  endedAt : Int64
  success : Bool
  previousHash : UInt64
  hash : UInt64
  policyDecision : SizedBytes
  failureReason : SizedBytes
  outcome : SizedBytes
  deriving DecidableEq

/-- `sc_receipt_chain` -/
structure ReceiptChain where
  receipts : List ToolReceipt
  sessionKey : Digest
  keyInitialized : Bool
  deriving DecidableEq

/-- `sc_receipt_chain_init`: `random` is the key `randombytes_buf` draws, `none` when `sodium_init`
    fails. -/
def receiptChainInit (random : Option Digest) : ReceiptChain :=
  match random with
  | some key => { receipts := [], sessionKey := key, keyInitialized := true }
  | none => { receipts := [], sessionKey := Vector.replicate 32 0, keyInitialized := false }

/-- `receipt_hash`: the stored hash and the token are not part of it. -/
def receiptHash (r : ToolReceipt) : UInt64 :=
  let hash := hashU64 hashInit r.previousHash
  let hash := hashBytes hash r.toolName.bytes
  let hash := hashBytes hash r.argsSummary.bytes
  let hash := hashBytes hash r.outputSummary.bytes
  let hash := hashBytes hash r.policyDecision.bytes
  let hash := hashBytes hash r.failureReason.bytes
  let hash := hashBytes hash r.outcome.bytes
  let hash := hashU64 hash r.startedAt.toUInt64
  let hash := hashU64 hash r.endedAt.toUInt64
  hashBool hash r.success

/-- `receipt_mac_update_str`: the bytes behind their length. -/
def macStr (value : SizedBytes) : Bytes :=
  u64Bytes (UInt64.ofNat value.bytes.length) ++ value.bytes

/-- `receipt_mac_update_bool` -/
def macBool (value : Bool) : Bytes := u64Bytes (if value then 1 else 0)

/-- Everything `receipt_token` feeds to the MAC, in order. -/
def receiptMessage (r : ToolReceipt) : Bytes :=
  u64Bytes r.previousHash ++
    (macStr r.toolName ++ (macStr r.argsSummary ++ (macStr r.outputSummary ++
      (macStr r.policyDecision ++ (macStr r.failureReason ++ (macStr r.outcome ++
        (u64Bytes r.startedAt.toUInt64 ++ (u64Bytes r.endedAt.toUInt64 ++ macBool r.success))))))))

/-- A digit of the URL-safe base64 alphabet. -/
def base64UrlDigit (v : UInt8) : UInt8 :=
  if v < 26 then chr 'A' + v
  else if v < 52 then chr 'a' + (v - 26)
  else if v < 62 then chr '0' + (v - 52)
  else if v = 62 then chr '-'
  else chr '_'

/-- `sodium_bin2base64` in the variant `sodium_base64_VARIANT_URLSAFE_NO_PADDING`. -/
def base64Url : Bytes → Bytes
  | a :: b :: c :: rest =>
      base64UrlDigit (a >>> 2) :: base64UrlDigit ((a &&& 3) <<< 4 ||| b >>> 4) ::
        base64UrlDigit ((b &&& 15) <<< 2 ||| c >>> 6) :: base64UrlDigit (c &&& 63) :: base64Url rest
  | [a, b] =>
      [base64UrlDigit (a >>> 2), base64UrlDigit ((a &&& 3) <<< 4 ||| b >>> 4),
        base64UrlDigit ((b &&& 15) <<< 2)]
  | [a] => [base64UrlDigit (a >>> 2), base64UrlDigit ((a &&& 3) <<< 4)]
  | [] => []

/-- `sodium_base64_ENCODED_LEN` without the final zero. -/
theorem base64Url_length (bytes : Bytes) : (base64Url bytes).length = (4 * bytes.length + 2) / 3 := by
  induction bytes using base64Url.induct with
  | case1 a b c rest ih =>
    simp only [base64Url, List.length_cons, ih]
    omega
  | case2 a b => simp only [base64Url, List.length_cons, List.length_nil]
  | case3 a => simp only [base64Url, List.length_cons, List.length_nil]
  | case4 => rfl

/-- The text `"sc-receipt-%lld-%s"`; the division is C's, towards zero. -/
def tokenText (endedAt : Int64) (digest : Digest) : Bytes :=
  str "sc-receipt-" ++ decimalInt (endedAt / 1000000000).toInt ++ str "-" ++
    base64Url digest.toList

section
variable (hmac : Digest → Bytes → Digest)

/-- `receipt_token`: the token has to fit the 128 bytes of its buffer. -/
def receiptToken (chain : ReceiptChain) (r : ToolReceipt) : Res Bytes :=
  if !chain.keyInitialized then Status.unsupported "sc.receipt.crypto_unavailable"
  else
    let token := tokenText r.endedAt (hmac chain.sessionKey (receiptMessage r))
    if 128 ≤ token.length then Status.io "sc.receipt.format_failed"
    else .ok token

/-- The arguments of `sc_receipt_chain_append_ex`, and what `sc_clock_wall` answers during the
    call. -/
structure ReceiptCall where
  toolName : SizedBytes
  argsSummary : SizedBytes
  outputSummary : SizedBytes
  success : Bool
  policyDecision : SizedBytes
  failureReason : SizedBytes
  outcome : SizedBytes
  clock : Res Int64

/-- The receipt `sc_receipt_chain_append_ex` fills in before it computes hash and token. -/
def receiptDraft (chain : ReceiptChain) (call : ReceiptCall) (now : Int64) : ToolReceipt :=
  { toolName := call.toolName, argsSummary := call.argsSummary
    outputSummary := call.outputSummary, token := []
    startedAt := now, endedAt := now, success := call.success
    previousHash := match chain.receipts.getLast? with
      | some previous => previous.hash
      | none => 0
    hash := 0
    policyDecision := call.policyDecision, failureReason := call.failureReason
    outcome := call.outcome }

/-- `sc_receipt_chain_append_ex` -/
def receiptChainAppendEx (chain : ReceiptChain) (call : ReceiptCall) : Res ReceiptChain :=
  if call.toolName.bytes = [] then Status.invalidArgument "sc.receipt.invalid_argument"
  else do
    let now ← call.clock
    let draft := receiptDraft chain call now
    let receipt := { draft with hash := receiptHash draft }
    let token ← receiptToken hmac chain receipt
    .ok { chain with receipts := chain.receipts ++ [{ receipt with token := token }] }

/-- `sc_receipt_chain_verify_token` -/
def receiptChainVerifyToken (chain : ReceiptChain) (index : Nat) (token : Bytes) : Bool :=
  if !chain.keyInitialized || token.isEmpty then false
  else
    match chain.receipts[index]? with
    | none => false
    | some receipt =>
        match receiptToken hmac chain receipt with
        | .ok expected => expected == token
        | .error _ => false

/-- The loop of `sc_receipt_chain_verify` from index `i` on, with the hash the next receipt must
    name. -/
def receiptVerifyFrom (chain : ReceiptChain) : Nat → UInt64 → List ToolReceipt → Bool
  | _, _, [] => true
  | i, previousHash, r :: rest =>
      r.previousHash == previousHash && receiptHash r == r.hash &&
        receiptChainVerifyToken hmac chain i r.token && receiptVerifyFrom chain (i + 1) r.hash rest

/-- `sc_receipt_chain_verify` -/
def receiptChainVerify (chain : ReceiptChain) : Bool :=
  receiptVerifyFrom hmac chain 0 0 chain.receipts

end

/-! ## The authenticated message determines the receipt -/

@[simp] theorem u64Bytes_length (v : UInt64) : (u64Bytes v).length = 8 := by simp [u64Bytes]

/-- The `i`-th bytes of two equally written words, as arithmetic. -/
theorem u64Bytes_byte {v w : UInt64} (h : u64Bytes v = u64Bytes w) {i : Nat} (hi : i < 8) :
    v.toNat / 256 ^ i % 256 = w.toNat / 256 ^ i % 256 := by
  have hi64 : i * 8 % 2 ^ 64 = i * 8 := Nat.mod_eq_of_lt (by omega)
  have hi8 : i * 8 % 64 = i * 8 := Nat.mod_eq_of_lt (by omega)
  have hpow : 256 ^ i = 2 ^ (i * 8) := by rw [Nat.mul_comm, Nat.pow_mul]
  have hb := congrArg (fun bs : Bytes => (bs[i]?.getD 0).toNat) h
  simpa [u64Bytes, hi, hi64, hi8, hpow, Nat.shiftRight_eq_div_pow] using hb

/-- Eight bytes determine a word: the low `n` bytes determine it modulo `256 ^ n`. -/
theorem u64Bytes_injective {v w : UInt64} (h : u64Bytes v = u64Bytes w) : v = w := by
  have hlow : ∀ n ≤ 8, v.toNat % 256 ^ n = w.toNat % 256 ^ n := by
    intro n
    induction n with
    | zero => intro _; rw [Nat.pow_zero, Nat.mod_one, Nat.mod_one]
    | succ n ih =>
      intro hn
      rw [Nat.mod_pow_succ, Nat.mod_pow_succ, ih (by omega), u64Bytes_byte h (by omega)]
  have hwhole : ∀ u : UInt64, u.toNat % 256 ^ 8 = u.toNat := by
    intro u
    have hu : u.toNat < 256 ^ 8 := u.toNat_lt
    exact Nat.mod_eq_of_lt hu
  have hword := hlow 8 (Nat.le_refl 8)
  rw [hwhole, hwhole] at hword
  exact UInt64.toNat_inj.mp hword

theorem u64Bytes_append_inj {v w : UInt64} {rest rest' : Bytes}
    (h : u64Bytes v ++ rest = u64Bytes w ++ rest') : v = w ∧ rest = rest' := by
  obtain ⟨hv, hrest⟩ := List.append_inj h ((u64Bytes_length v).trans (u64Bytes_length w).symm)
  exact ⟨u64Bytes_injective hv, hrest⟩

theorem SizedBytes.ext {s t : SizedBytes} (h : s.bytes = t.bytes) : s = t := by
  cases s; cases t; cases h; rfl

/-- A string behind its length is uniquely readable. -/
theorem macStr_append_inj {s t : SizedBytes} {rest rest' : Bytes}
    (h : macStr s ++ rest = macStr t ++ rest') : s = t ∧ rest = rest' := by
  have hlen : ∀ m n, m < 2 ^ 64 → n < 2 ^ 64 →
      u64Bytes (UInt64.ofNat m) = u64Bytes (UInt64.ofNat n) → m = n := by
    intro m n hm hn hmn
    have hmn' := congrArg UInt64.toNat (u64Bytes_injective hmn)
    rwa [UInt64.toNat_ofNat_of_lt' hm, UInt64.toNat_ofNat_of_lt' hn] at hmn'
  obtain ⟨hs, hrest⟩ :=
    frame_append_inj (fun n => u64Bytes_length (UInt64.ofNat n)) hlen s.fits t.fits h
  exact ⟨SizedBytes.ext hs, hrest⟩

theorem macBool_injective {a b : Bool} (h : macBool a = macBool b) : a = b := by
  have hw := u64Bytes_injective h
  revert hw
  cases a <;> cases b <;> decide

/-- Everything but the stored hash and the token: what both the hash and the MAC read. -/
def SameFields (r s : ToolReceipt) : Prop :=
  r.previousHash = s.previousHash ∧ r.toolName = s.toolName ∧ r.argsSummary = s.argsSummary ∧
    r.outputSummary = s.outputSummary ∧ r.policyDecision = s.policyDecision ∧
    r.failureReason = s.failureReason ∧ r.outcome = s.outcome ∧ r.startedAt = s.startedAt ∧
    r.endedAt = s.endedAt ∧ r.success = s.success

/-- **The message determines the fields**: no two receipts with different fields are authenticated
    by the same bytes. -/
theorem sameFields_of_receiptMessage {r s : ToolReceipt}
    (h : receiptMessage r = receiptMessage s) : SameFields r s := by
  unfold receiptMessage at h
  obtain ⟨hprev, h⟩ := u64Bytes_append_inj h
  obtain ⟨htool, h⟩ := macStr_append_inj h
  obtain ⟨hargs, h⟩ := macStr_append_inj h
  obtain ⟨hout, h⟩ := macStr_append_inj h
  obtain ⟨hpolicy, h⟩ := macStr_append_inj h
  obtain ⟨hfail, h⟩ := macStr_append_inj h
  obtain ⟨houtcome, h⟩ := macStr_append_inj h
  obtain ⟨hstart, h⟩ := u64Bytes_append_inj h
  obtain ⟨hend, h⟩ := u64Bytes_append_inj h
  exact ⟨hprev, htool, hargs, hout, hpolicy, hfail, houtcome,
    congrArg UInt64.toInt64 hstart, congrArg UInt64.toInt64 hend, macBool_injective h⟩

/-- Receipts with the same fields have the same hash. -/
theorem SameFields.receiptHash_eq {r s : ToolReceipt} (h : SameFields r s) :
    receiptHash r = receiptHash s := by
  obtain ⟨h1, h2, h3, h4, h5, h6, h7, h8, h9, h10⟩ := h
  unfold receiptHash
  rw [h1, h2, h3, h4, h5, h6, h7, h8, h9, h10]

/-- Receipts with the same fields, stored hash and token are the same. -/
theorem SameFields.eq {r s : ToolReceipt} (h : SameFields r s) (hhash : r.hash = s.hash)
    (htoken : r.token = s.token) : r = s := by
  obtain ⟨h1, h2, h3, h4, h5, h6, h7, h8, h9, h10⟩ := h
  cases r; cases s
  simp_all

/-! ## What verification checks -/

section
variable {hmac : Digest → Bytes → Digest}

/-- A receipt that verifies on its own: its stored hash is the hash of its fields, and its token is
    the one the session key gives. -/
def Sealed (hmac : Digest → Bytes → Digest) (chain : ReceiptChain) (r : ToolReceipt) : Prop :=
  receiptHash r = r.hash ∧ receiptToken hmac chain r = .ok r.token

/-- The two tags of a receipt in its chain. -/
abbrev HashLinked (start : UInt64) (rs : List ToolReceipt) : Prop :=
  Linked ToolReceipt.previousHash ToolReceipt.hash start rs

/-- A token that was issued starts with `sc-receipt-`, so it is not empty, and needed the key. -/
theorem receiptToken_ok {chain : ReceiptChain} {r : ToolReceipt} {token : Bytes}
    (h : receiptToken hmac chain r = .ok token) :
    chain.keyInitialized = true ∧ token ≠ [] := by
  unfold receiptToken at h
  by_cases hkey : chain.keyInitialized = true
  · refine ⟨hkey, ?_⟩
    rw [hkey, Bool.not_true, if_neg Bool.false_ne_true] at h
    by_cases hlong : 128 ≤ (tokenText r.endedAt (hmac chain.sessionKey (receiptMessage r))).length
    · exact absurd ((if_pos hlong).symm.trans h) (Status.io_ne_ok _ _)
    · rw [← Except.ok.inj ((if_neg hlong).symm.trans h)]
      simp [tokenText, str]
  · rw [if_pos (by simpa using hkey)] at h
    exact absurd h (Status.unsupported_ne_ok _ _)

theorem receiptChainVerifyToken_iff {chain : ReceiptChain} {i : Nat} {r : ToolReceipt}
    (hr : chain.receipts[i]? = some r) :
    receiptChainVerifyToken hmac chain i r.token = true ↔ receiptToken hmac chain r = .ok r.token := by
  unfold receiptChainVerifyToken
  rw [hr]
  constructor
  · intro h
    split at h
    · exact absurd h Bool.false_ne_true
    · cases ht : receiptToken hmac chain r with
      | error e => simp [ht] at h
      | ok expected => simpa [ht] using h
  · intro h
    obtain ⟨hkey, hne⟩ := receiptToken_ok h
    simp [hkey, hne, h]

/-- One lemma for the loop: from any index on, it checks the links and the seals of what is left. -/
theorem receiptVerifyFrom_iff {chain : ReceiptChain} :
    ∀ (rest : List ToolReceipt) (i : Nat) (start : UInt64), chain.receipts.drop i = rest →
      (receiptVerifyFrom hmac chain i start rest = true ↔
        HashLinked start rest ∧ ∀ r ∈ rest, Sealed hmac chain r) := by
  intro rest
  induction rest with
  | nil => intro i start _; simp [receiptVerifyFrom, HashLinked, Linked]
  | cons r rest ih =>
    intro i start hdrop
    have hr : chain.receipts[i]? = some r := by
      rw [← List.head?_drop, hdrop]
      rfl
    have hrest : chain.receipts.drop (i + 1) = rest := by
      rw [← List.drop_drop, hdrop]
      rfl
    rw [receiptVerifyFrom, Bool.and_eq_true, ih (i + 1) r.hash hrest,
      Bool.and_eq_true, receiptChainVerifyToken_iff hr, Bool.and_eq_true, beq_iff_eq, beq_iff_eq,
      List.forall_mem_cons]
    show _ ↔ (r.previousHash = start ∧ HashLinked r.hash rest) ∧ _
    unfold Sealed
    tauto

/-- **What `sc_receipt_chain_verify` checks**: links and seals. -/
theorem receiptChainVerify_iff {chain : ReceiptChain} :
    receiptChainVerify hmac chain = true ↔
      HashLinked 0 chain.receipts ∧ ∀ r ∈ chain.receipts, Sealed hmac chain r :=
  receiptVerifyFrom_iff chain.receipts 0 0 rfl

/-! ## What appending builds -/

/-- A successful append adds one receipt, linked to the last one and sealed; the key stays. -/
theorem receiptChainAppendEx_ok {chain chain' : ReceiptChain} {call : ReceiptCall}
    (h : receiptChainAppendEx hmac chain call = .ok chain') :
    ∃ r, chain' = { chain with receipts := chain.receipts ++ [r] } ∧ Sealed hmac chain r ∧
      r.previousHash = lastTag ToolReceipt.hash 0 chain.receipts := by
  unfold receiptChainAppendEx at h
  split at h
  · exact absurd h (Status.invalidArgument_ne_ok _ _)
  · obtain ⟨now, -, h⟩ := Res.bind_eq_ok.mp h
    obtain ⟨token, htoken, h⟩ := Res.bind_eq_ok.mp h
    refine ⟨_, (Except.ok.inj h).symm, ⟨rfl, htoken⟩, ?_⟩
    show (receiptDraft chain call now).previousHash = _
    unfold receiptDraft lastTag
    cases chain.receipts.getLast? <;> rfl

/-- **A chain that was built verifies.** -/
theorem built_verifies {random : Option Digest} {calls : List ReceiptCall} {chain : ReceiptChain}
    (h : runOk (receiptChainAppendEx hmac) (receiptChainInit random) calls = .ok chain) :
    receiptChainVerify hmac chain = true := by
  refine runOk_invariant (I := fun c => receiptChainVerify hmac c = true) ?_ calls _ chain ?_ h
  · intro c call c' hc hcall
    obtain ⟨r, rfl, hsealed, hprev⟩ := receiptChainAppendEx_ok hcall
    obtain ⟨hlinked, hall⟩ := receiptChainVerify_iff.mp hc
    refine receiptChainVerify_iff.mpr ⟨linked_append_singleton.mpr ⟨hlinked, hprev⟩, ?_⟩
    intro q hq
    rcases List.mem_append.mp hq with hq | hq
    · exact hall q hq
    · rw [List.mem_singleton.mp hq]
      exact hsealed
  · cases random <;> rfl

end

/-! ## Tamper evidence -/

/-- The MAC under the session key, printed as a token, does not collide on the messages of the two
    lists.  (A function to 32 bytes is injective on no infinite set of messages, so the hypothesis
    speaks of the messages at hand.) -/
def TokensInjective (hmac : Digest → Bytes → Digest) (chain : ReceiptChain)
    (rs rs' : List ToolReceipt) : Prop :=
  ∀ r ∈ rs, ∀ r' ∈ rs', receiptToken hmac chain r' = receiptToken hmac chain r →
    receiptMessage r' = receiptMessage r

/-- A sealed receipt whose token was issued for a receipt of the chain IS that receipt. -/
theorem Sealed.eq_of_token {hmac : Digest → Bytes → Digest} {chain : ReceiptChain}
    {r r' : ToolReceipt} (hr : Sealed hmac chain r) (hr' : Sealed hmac chain r')
    (htoken : r'.token = r.token)
    (hinj : receiptToken hmac chain r' = receiptToken hmac chain r →
      receiptMessage r' = receiptMessage r) : r' = r := by
  have hsame : receiptToken hmac chain r' = receiptToken hmac chain r := by
    rw [hr.2, hr'.2, htoken]
  have hfields := sameFields_of_receiptMessage (hinj hsame)
  have hhash : r'.hash = r.hash := by rw [← hr.1, ← hr'.1, hfields.receiptHash_eq]
  exact hfields.eq hhash htoken

/-- **Tamper evidence of the receipt chain.** -/
theorem receiptChainVerify_iff_initial (hmac : Digest → Bytes → Digest) (random : Option Digest)
    (calls : List ReceiptCall) (chain : ReceiptChain)
    (hbuilt : runOk (receiptChainAppendEx hmac) (receiptChainInit random) calls = .ok chain)
    (rs' : List ToolReceipt) (htokens : ∀ r' ∈ rs', ∃ r ∈ chain.receipts, r'.token = r.token)
    (hinj : TokensInjective hmac chain chain.receipts rs')
    (hnonzero : ∀ r ∈ chain.receipts, r.hash ≠ 0)
    (hdistinct : (chain.receipts.map ToolReceipt.hash).Nodup) :
    receiptChainVerify hmac { chain with receipts := rs' } = true ↔ rs' <+: chain.receipts := by
  obtain ⟨hlinked, hsealed⟩ := receiptChainVerify_iff.mp (built_verifies hbuilt)
  rw [receiptChainVerify_iff]
  constructor
  · rintro ⟨hlinked', hsealed'⟩
    -- every receipt of the offered list is one of the chain's; the links then fix the order
    have hmem : ∀ r' ∈ rs', r' ∈ chain.receipts := by
      intro r' hr'
      obtain ⟨r, hr, htoken⟩ := htokens r' hr'
      rw [Sealed.eq_of_token (hsealed r hr) (hsealed' r' hr') htoken (hinj r hr r' hr')]
      exact hr
    have hnodup : ((0 : UInt64) :: chain.receipts.map ToolReceipt.hash).Nodup := by
      refine List.nodup_cons.mpr ⟨?_, hdistinct⟩
      intro hzero
      obtain ⟨r, hr, hr0⟩ := List.mem_map.mp hzero
      exact hnonzero r hr hr0
    exact Linked.initial_of_mem hlinked hnodup hlinked' hmem
  · intro hinitial
    exact ⟨hlinked.of_initial hinitial, fun r hr => hsealed r (hinitial.subset hr)⟩

/-- The bytes of a short literal as an argument. -/
def sized (s : String) (h : (str s).length < 2 ^ 64) : SizedBytes := ⟨str s, h⟩

/-- Two tool calls, one second apart; the second fails. -/
def sampleCalls : List ReceiptCall :=
  [ { toolName := sized "shell" (by decide), argsSummary := sized "ls" (by decide)
      outputSummary := sized "a.txt" (by decide), success := true
      policyDecision := sized "allowed" (by decide), failureReason := sized "" (by decide)
      outcome := sized "ok" (by decide), clock := .ok 1700000000000000000 },
    { toolName := sized "fetch" (by decide), argsSummary := sized "x" (by decide)
      outputSummary := sized "" (by decide), success := false
      policyDecision := sized "allowed" (by decide)
      failureReason := sized "sc.tool.failed" (by decide)
      outcome := sized "error" (by decide), clock := .ok 1700000001000000000 } ]

/-- The session key 00 01 … 1f. -/
def sampleKey : Digest := Vector.ofFn fun i => UInt8.ofNat i.val

/-- HMAC-SHA256 under `sampleKey` of the messages of `sampleCalls`, told apart by the hash of the
    predecessor they start with. -/
def sampleHmac (_key : Digest) (message : Bytes) : Digest :=
  if message.take 8 = u64Bytes 0 then
    #v[94, 197, 91, 66, 91, 67, 108, 93, 117, 158, 190, 159, 19, 11, 186, 253,
      76, 61, 120, 241, 213, 245, 142, 7, 116, 222, 243, 58, 73, 233, 116, 218]
  else
    #v[10, 128, 21, 215, 122, 16, 98, 74, 210, 233, 171, 133, 199, 200, 81, 245,
      4, 248, 167, 199, 56, 90, 84, 69, 249, 116, 52, 122, 95, 149, 75, 50]

/-- The chain the two calls build. -/
def sampleChain : ReceiptChain :=
  (runOk (receiptChainAppendEx sampleHmac) (receiptChainInit (some sampleKey))
    sampleCalls).toOption.getD (receiptChainInit none)

/-- Cutting the FIRST receipt off a chain of two is noticed. -/
theorem receiptChainVerify_drop_first :
    sampleChain.receipts.length = 2 ∧
      (receiptChainVerify sampleHmac { sampleChain with receipts := sampleChain.receipts.drop 1 } = true
        ↔ sampleChain.receipts.drop 1 <+: sampleChain.receipts) := by
  refine ⟨by decide +kernel, ?_⟩
  refine receiptChainVerify_iff_initial sampleHmac (some sampleKey) sampleCalls sampleChain ?_ _ ?_ ?_ ?_
    ?_
  · decide +kernel
  · intro r hr
    exact ⟨r, List.mem_of_mem_drop hr, rfl⟩
  · unfold TokensInjective
    decide +kernel
  · decide +kernel
  · decide +kernel

end SmolClaw.Security
