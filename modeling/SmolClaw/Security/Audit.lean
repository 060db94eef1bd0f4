/-
  The audit chain (`src/security/audit.c`) and the running hash it shares with the receipts
  (`sc_security_hash_*` of `src/security/policy.c`).

  1. **Hash** — 64-bit FNV-1a: xor one byte, multiply by the prime.  `hashU64` feeds the eight
     little-endian bytes of a word, `hashBool` a word that is 0 or 1.

  2. **Chain** — a record stores the hash of its predecessor (0 for the first) and its own hash over
     that, its two texts and its timestamp; `auditChainVerify` recomputes both.  A chain that verifies is
     a `Linked` list of records whose hashes are right, and appending keeps it so.
-/
import SmolClaw.Core.Status
import SmolClaw.Lib.Chain

namespace SmolClaw.Security

open Lib.Chain

/-! ## The running hash -/

/-- `sc_security_hash_init` -/
def hashInit : UInt64 := 1469598103934665603

/-- `sc_security_hash_bytes` -/
def hashBytes (hash : UInt64) (input : Bytes) : UInt64 :=
  input.foldl (fun h b => (h ^^^ b.toUInt64) * 1099511628211) hash

/-- The eight bytes of a word, least significant first: `(value >> (i * 8)) & 0xFF`. -/
def u64Bytes (value : UInt64) : Bytes :=
  (List.range 8).map fun i => (value >>> UInt64.ofNat (i * 8)).toUInt8

/-- `sc_security_hash_u64` -/
def hashU64 (hash value : UInt64) : UInt64 := hashBytes hash (u64Bytes value)

/-- `sc_security_hash_bool` -/
def hashBool (hash : UInt64) (value : Bool) : UInt64 := hashU64 hash (if value then 1 else 0)

/-! ## The chain -/

/-- `sc_audit_record`.  A wall time is its `unix_ns`, an `int64_t`. -/
structure AuditRecord where
  eventType : Bytes
  summary : Bytes
  timestamp : Int64
  previousHash : UInt64
  hash : UInt64
  deriving DecidableEq

/-- `sc_audit_chain`: its records, oldest first. -/
abbrev AuditChain := List AuditRecord

/-- `audit_hash` -/
def auditHash (r : AuditRecord) : UInt64 :=
  hashU64 (hashBytes (hashBytes (hashU64 hashInit r.previousHash) r.eventType) r.summary)
    r.timestamp.toUInt64

/-- `sc_audit_chain_append`; `now` is what `sc_clock_wall` returns. -/
def auditChainAppend (chain : AuditChain) (eventType summary : Bytes) (now : Int64) :
    Res AuditChain :=
  if eventType = [] then Status.invalidArgument "sc.audit.invalid_argument"
  else
    let record : AuditRecord :=
      { eventType := eventType, summary := summary, timestamp := now
        previousHash := match chain.getLast? with
          | some previous => previous.hash
          | none => 0
        hash := 0 }
    .ok (chain ++ [{ record with hash := auditHash record }])

/-- The loop of `sc_audit_chain_verify`, with the hash the next record must name. -/
def auditVerifyFrom : UInt64 → AuditChain → Bool
  | _, [] => true
  | previousHash, r :: rest =>
      r.previousHash == previousHash && auditHash r == r.hash && auditVerifyFrom r.hash rest

/-- `sc_audit_chain_verify` -/
def auditChainVerify (chain : AuditChain) : Bool := auditVerifyFrom 0 chain

/-! ## Appending keeps the chain verifiable -/

/-- What the loop checks: every record names its predecessor's hash, and its own hash is right. -/
theorem auditVerifyFrom_iff :
    ∀ (chain : AuditChain) (start : UInt64),
      auditVerifyFrom start chain = true ↔
        Linked AuditRecord.previousHash AuditRecord.hash start chain ∧
          ∀ r ∈ chain, auditHash r = r.hash := by
  intro chain
  induction chain with
  | nil => intro start; simp [auditVerifyFrom, Linked]
  | cons r chain ih =>
    intro start
    rw [auditVerifyFrom, Bool.and_eq_true, Bool.and_eq_true, beq_iff_eq, beq_iff_eq,
      ih r.hash, List.forall_mem_cons]
    show _ ↔ (r.previousHash = start ∧ Linked _ _ r.hash chain) ∧ _
    tauto

/-- **Appending keeps a verifiable chain verifiable.** -/
theorem auditChainAppend_verify {chain chain' : AuditChain} {eventType summary : Bytes} {now : Int64}
    (hv : auditChainVerify chain = true)
    (h : auditChainAppend chain eventType summary now = .ok chain') :
    auditChainVerify chain' = true := by
  obtain ⟨hlinked, hhash⟩ := (auditVerifyFrom_iff chain 0).mp hv
  unfold auditChainAppend at h
  split at h
  · exact absurd h (Status.invalidArgument_ne_ok _ _)
  · obtain rfl := Except.ok.inj h
    refine (auditVerifyFrom_iff _ 0).mpr ⟨linked_append_singleton.mpr ⟨hlinked, ?_⟩, ?_⟩
    · simp only [lastTag]
      cases chain.getLast? <;> simp only
    · intro r hr
      rcases List.mem_append.mp hr with hr | hr
      · exact hhash r hr
      · -- the new record's own hash field is not hashed, so the recomputed hash is the stored one
        rw [List.mem_singleton.mp hr]
        simp only [auditHash]

end SmolClaw.Security
