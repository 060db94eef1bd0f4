/-
  What the hash of an audit record binds (`audit_hash`, `src/security/audit.c`).

  1. **Message** — `auditMessage`, the bytes the hash runs over: the two texts stand in it one behind
     the other, without their lengths.  The message of a receipt (`receiptMessage`) has a length in
     front of every text, and determines them (`sameFields_of_receiptMessage`).

  2. **Defect** — bytes that move between the end of the type and the start of the summary
     (`Resplit`) leave the message as it is.

  3. **Result** — `fieldBinding_iff`: two records of one predecessor and one time are told apart by
     their messages exactly when neither is a re-splitting of the other; and no re-splitting of a stored
     record is noticed, by the verification of the chain or by loading its file.
-/
import SmolClaw.Security.Store

namespace SmolClaw.Security

open Lib.Chain

/-! ## The message -/

/-- What `audit_hash` feeds to the hash, in order. -/
def auditMessage (r : AuditRecord) : Bytes :=
  u64Bytes r.previousHash ++ (r.eventType ++ (r.summary ++ u64Bytes r.timestamp.toUInt64))

theorem hashBytes_append (hash : UInt64) (a b : Bytes) :
    hashBytes hash (a ++ b) = hashBytes (hashBytes hash a) b := List.foldl_append

/-- **The hash is a function of the message.** -/
theorem auditHash_eq (r : AuditRecord) : auditHash r = hashBytes hashInit (auditMessage r) := by
  rw [auditMessage, hashBytes_append, hashBytes_append, hashBytes_append]
  rfl

/-- Bytes moved from the start of one record's summary to the end of the other's type. -/
def MovedTo (r s : AuditRecord) : Prop :=
  ∃ moved, moved ≠ [] ∧ s.eventType = r.eventType ++ moved ∧ r.summary = moved ++ s.summary

/-- The texts of two records are the same bytes, cut at different places. -/
def Resplit (r s : AuditRecord) : Prop := MovedTo r s ∨ MovedTo s r

theorem MovedTo.texts {r s : AuditRecord} (h : MovedTo r s) :
    r.eventType ++ r.summary = s.eventType ++ s.summary ∧ r.eventType ≠ s.eventType := by
  obtain ⟨moved, hne, htype, hsummary⟩ := h
  constructor
  · rw [htype, hsummary, List.append_assoc]
  · intro heq
    rw [heq] at htype
    exact hne (List.append_right_eq_self.mp htype.symm)

theorem Resplit.texts {r s : AuditRecord} (h : Resplit r s) :
    r.eventType ++ r.summary = s.eventType ++ s.summary ∧ r.eventType ≠ s.eventType := by
  rcases h with h | h
  · exact h.texts
  · exact ⟨h.texts.1.symm, Ne.symm h.texts.2⟩

/-- The same bytes are cut at the same place, or some of them have moved. -/
theorem resplit_of_texts {r s : AuditRecord}
    (h : r.eventType ++ r.summary = s.eventType ++ s.summary) :
    (r.eventType = s.eventType ∧ r.summary = s.summary) ∨ Resplit r s := by
  rcases List.append_eq_append_iff.mp h with ⟨moved, htype, hsummary⟩ | ⟨moved, htype, hsummary⟩
  · by_cases hmoved : moved = []
    · subst hmoved
      rw [List.append_nil] at htype
      exact Or.inl ⟨htype.symm, hsummary⟩
    · exact Or.inr (Or.inl ⟨moved, hmoved, htype, hsummary⟩)
  · by_cases hmoved : moved = []
    · subst hmoved
      rw [List.append_nil] at htype
      exact Or.inl ⟨htype, hsummary.symm⟩
    · exact Or.inr (Or.inr ⟨moved, hmoved, htype, hsummary⟩)

/-- Two records in the same place: the same predecessor and the same time. -/
def SamePlace (r s : AuditRecord) : Prop := r.previousHash = s.previousHash ∧ r.timestamp = s.timestamp

theorem auditMessage_eq_iff {r s : AuditRecord} (h : SamePlace r s) :
    auditMessage r = auditMessage s ↔ r.eventType ++ r.summary = s.eventType ++ s.summary := by
  rw [auditMessage, auditMessage, h.1, h.2, List.append_cancel_left_eq, ← List.append_assoc,
    ← List.append_assoc, List.append_cancel_right_eq]

/-! ## An edit of a stored chain -/

/-- An edit of the texts of a record: place and stored hash stay. -/
def TextEdit (r s : AuditRecord) : Prop := SamePlace r s ∧ r.hash = s.hash

/-- A record whose hash comes out the same takes the other's place unnoticed. -/
theorem auditVerifyFrom_edit {r s : AuditRecord} (hedit : TextEdit r s) (hhash : auditHash r = auditHash s)
    (before after : AuditChain) :
    ∀ start, auditVerifyFrom start (before ++ s :: after) = auditVerifyFrom start (before ++ r :: after) := by
  induction before with
  | nil =>
    intro start
    show auditVerifyFrom start (s :: after) = auditVerifyFrom start (r :: after)
    rw [auditVerifyFrom, auditVerifyFrom, hedit.1.1, hedit.2, hhash]
  | cons b before ih =>
    intro start
    rw [List.cons_append, List.cons_append, auditVerifyFrom, auditVerifyFrom, ih b.hash]

/-- **A re-splitting is not noticed** by the verification of the chain. -/
theorem auditChainVerify_resplit {r s : AuditRecord} (hedit : TextEdit r s) (hsplit : Resplit r s)
    (before after : AuditChain) :
    auditChainVerify (before ++ s :: after) = auditChainVerify (before ++ r :: after) := by
  have hmessage : auditMessage r = auditMessage s := (auditMessage_eq_iff hedit.1).mpr hsplit.texts.1
  have hhash : auditHash r = auditHash s := by rw [auditHash_eq, auditHash_eq, hmessage]
  exact auditVerifyFrom_edit hedit hhash before after 0

/-! ## What is bound -/

/-- **What the hash binds**, and what it does not. -/
theorem fieldBinding_iff {r s : AuditRecord} (hplace : SamePlace r s) :
    ((auditMessage r = auditMessage s → r.eventType = s.eventType ∧ r.summary = s.summary) ↔
        ¬ Resplit r s) ∧
      ∀ before after : AuditChain, r.hash = s.hash → Resplit r s →
        auditChainVerify (before ++ r :: after) = true →
          (∀ q ∈ before ++ r :: after, q.timestamp ≠ Int64.minValue) →
            auditChainVerify (before ++ s :: after) = true ∧
              auditChainLoadFile (.ok (auditStoreText (before ++ s :: after))) =
                .ok (before ++ s :: after) := by
  constructor
  · rw [auditMessage_eq_iff hplace]
    constructor
    · intro hbound hsplit
      exact hsplit.texts.2 (hbound hsplit.texts.1).1
    · intro hsplit htexts
      exact (resplit_of_texts htexts).resolve_right hsplit
  · intro before after hkept hsplit hverify htime
    have hedited : auditChainVerify (before ++ s :: after) = true := by
      rw [auditChainVerify_resplit ⟨hplace, hkept⟩ hsplit, hverify]
    refine ⟨hedited, auditChainLoadFile_text hedited ?_⟩
    -- the edited record keeps the time of the stored one
    intro q hq
    rcases List.mem_append.mp hq with hq | hq
    · exact htime q (List.mem_append_left _ hq)
    · rcases List.mem_cons.mp hq with rfl | hq
      · rw [← hplace.2]
        exact htime r (List.mem_append_right _ List.mem_cons_self)
      · exact htime q (List.mem_append_right _ (List.mem_cons_of_mem _ hq))

/-- A record that says a tool was denied. -/
def sampleRecord : AuditRecord :=
  let draft : AuditRecord :=
    { eventType := str "tool.denied", summary := str "shell", timestamp := 1700000000000000000
      previousHash := 0, hash := 0 }
  { draft with hash := auditHash draft }

/-- The same bytes, cut so that the type is `tool`. -/
def resplitRecord : AuditRecord :=
  { sampleRecord with eventType := str "tool", summary := str ".deniedshell" }

/-- The two records are told apart by nothing the hash reads. -/
theorem fieldBinding_sample :
    ¬ (auditMessage sampleRecord = auditMessage resplitRecord →
      sampleRecord.eventType = resplitRecord.eventType ∧ sampleRecord.summary = resplitRecord.summary) := by
  have hplace : SamePlace sampleRecord resplitRecord := ⟨rfl, rfl⟩
  intro hbound
  exact (fieldBinding_iff hplace).1.mp hbound (Or.inr ⟨str ".denied", by decide, by decide, by decide⟩)

/-- The two records have one message and other types, and the edited chain verifies and loads. -/
theorem not_fieldBinding_resplit :
    ¬ (∀ r s : AuditRecord, SamePlace r s → auditMessage r = auditMessage s →
        r.eventType = s.eventType ∧ r.summary = s.summary) ∧
      auditChainVerify [sampleRecord] = true ∧ auditChainVerify [resplitRecord] = true ∧
        auditChainLoadFile (.ok (auditStoreText [resplitRecord])) = .ok [resplitRecord] := by
  have hsplit : Resplit sampleRecord resplitRecord :=
    Or.inr ⟨str ".denied", by decide, by decide, by decide⟩
  have hedit : TextEdit sampleRecord resplitRecord := ⟨⟨rfl, rfl⟩, rfl⟩
  have hverify : auditChainVerify [sampleRecord] = true :=
    (auditVerifyFrom_iff _ 0).mpr ⟨⟨rfl, trivial⟩, fun r hr => by rw [List.mem_singleton.mp hr]; rfl⟩
  have hedited : auditChainVerify [resplitRecord] = true :=
    (auditChainVerify_resplit hedit hsplit [] []).trans hverify
  refine ⟨?_, hverify, hedited, auditChainLoadFile_text hedited ?_⟩
  · intro hbound
    have hmessage : auditMessage sampleRecord = auditMessage resplitRecord :=
      (auditMessage_eq_iff ⟨rfl, rfl⟩).mpr hsplit.texts.1
    exact hsplit.texts.2 (hbound sampleRecord resplitRecord ⟨rfl, rfl⟩ hmessage).1
  · intro q hq
    rw [List.mem_singleton.mp hq]
    show (1700000000000000000 : Int64) ≠ Int64.minValue
    decide

end SmolClaw.Security
