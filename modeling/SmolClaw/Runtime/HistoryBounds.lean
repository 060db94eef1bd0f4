/-
  What the operations on a history keep: its size and the place of its tool results (`sc_history_append`,
  `sc_history_trim` and `sc_history_prune_to_budget`, `src/runtime/agent.c`).

  1. **Specification** — `NoOrphans`: a tool result stands right behind a message of the assistant or
     another tool result.  `Condensed`: at most one summary in front of messages that were there.

  2. **Pruning** — `pruneOrphans` establishes the first and leaves a history that has it alone
     (`pruneOrphans_noOrphans`, `pruneOrphans_eq_self`).

  3. **Appending** — `sc_history_trim` prunes first and drops from the front then.  The message behind
     the dropped one may be a tool result (`Strands`), and `appends_iff` says that nothing else breaks
     the invariant.

  4. **Budget** — `pruneToBudget_condensed`: the drop comes before the last pruning there, so the result is
     within the budget and free of orphans, and the newest message survives when it can.
-/
import Mathlib.Algebra.GroupWithZero.Nat
import Mathlib.Data.List.Induction
import SmolClaw.Lib.Run
import SmolClaw.Runtime.History

namespace SmolClaw.Runtime

open Lib.Run Lib.Window

/-! ## Orphans -/

/-- Every tool result stands right behind a message that allows one. -/
def NoOrphans (messages : List HistoryMessage) : Prop :=
  ∀ before m after, messages = before ++ m :: after → roleIsToolResult m.role = true →
    ∃ p, before.getLast? = some p ∧ roleAllowsToolResult p.role = true

/-- The same, read from the front: `allows` says whether a tool result may come first. -/
def FreeFrom : Bool → List HistoryMessage → Prop
  | _, [] => True
  | allows, m :: rest => (roleIsToolResult m.role = true → allows = true) ∧
      FreeFrom (roleAllowsToolResult m.role) rest

/-- Whether a tool result may follow a list; `allows` answers for the empty one. -/
def allowsAfter (allows : Bool) (messages : List HistoryMessage) : Bool :=
  match messages.getLast? with
  | some p => roleAllowsToolResult p.role
  | none => allows

theorem allowsAfter_cons (allows : Bool) (m : HistoryMessage) (rest : List HistoryMessage) :
    allowsAfter allows (m :: rest) = allowsAfter (roleAllowsToolResult m.role) rest := by
  cases rest with
  | nil => rfl
  | cons r rest =>
    rw [allowsAfter, allowsAfter, List.getLast?_cons_cons]
    cases h : (r :: rest).getLast? with
    | none => exact absurd (List.getLast?_eq_none_iff.mp h) (List.cons_ne_nil r rest)
    | some p => rfl

theorem freeFrom_append {messages more : List HistoryMessage} :
    ∀ allows, FreeFrom allows (messages ++ more) ↔
      FreeFrom allows messages ∧ FreeFrom (allowsAfter allows messages) more := by
  induction messages with
  | nil => intro allows; exact ⟨fun h => ⟨trivial, h⟩, And.right⟩
  | cons m rest ih =>
    intro allows
    rw [List.cons_append, FreeFrom, FreeFrom, ih, allowsAfter_cons, and_assoc]

/-- The two ways to say it agree. -/
theorem noOrphans_iff {messages : List HistoryMessage} : NoOrphans messages ↔ FreeFrom false messages := by
  constructor
  · intro h
    induction messages using List.reverseRecOn with
    | nil => exact trivial
    | append_singleton messages m ih =>
      refine (freeFrom_append false).mpr ⟨ih ?_, ?_, trivial⟩
      · intro before r after heq
        exact h before r (after ++ [m]) (by rw [heq, List.append_assoc, List.cons_append])
      · intro hresult
        obtain ⟨p, hlast, hallows⟩ := h messages m [] rfl hresult
        rw [allowsAfter, hlast]
        exact hallows
  · rintro h before m after rfl hresult
    obtain ⟨-, hm, -⟩ := (freeFrom_append false).mp h
    have hallows := hm hresult
    rw [allowsAfter] at hallows
    split at hallows
    · next p hp => exact ⟨p, hp, hallows⟩
    · exact absurd hallows Bool.false_ne_true

/-- Pruning leaves no orphan. -/
theorem pruneOrphansFrom_free (messages : List HistoryMessage) :
    ∀ allows, FreeFrom allows (pruneOrphansFrom allows messages) := by
  induction messages with
  | nil => intro allows; exact trivial
  | cons m rest ih =>
    intro allows
    rw [pruneOrphansFrom]
    split
    · exact ih allows
    · next hkept =>
      refine ⟨fun hresult => ?_, ih _⟩
      rw [hresult] at hkept
      simpa using hkept

/-- Where there is no orphan, nothing is pruned. -/
theorem pruneOrphansFrom_eq_self {messages : List HistoryMessage} :
    ∀ {allows}, FreeFrom allows messages → pruneOrphansFrom allows messages = messages := by
  induction messages with
  | nil => intro allows _; rfl
  | cons m rest ih =>
    intro allows h
    obtain ⟨hm, hrest⟩ := h
    have hkept : (roleIsToolResult m.role && !allows) = false := by
      cases hresult : roleIsToolResult m.role with
      | false => rfl
      | true => rw [hm hresult]; rfl
    rw [pruneOrphansFrom, hkept, ih hrest]
    rfl

theorem pruneOrphans_noOrphans (messages : List HistoryMessage) : NoOrphans (pruneOrphans messages) :=
  noOrphans_iff.mpr (pruneOrphansFrom_free messages false)

theorem pruneOrphans_eq_self {messages : List HistoryMessage} (h : NoOrphans messages) :
    pruneOrphans messages = messages := pruneOrphansFrom_eq_self (noOrphans_iff.mp h)

/-- One message behind a history without orphans is kept, or is an orphan itself. -/
theorem pruneOrphans_concat {messages : List HistoryMessage} (h : NoOrphans messages) (m : HistoryMessage) :
    pruneOrphans (messages ++ [m]) =
      if roleIsToolResult m.role && !allowsAfter false messages then messages else messages ++ [m] := by
  have happend : ∀ (messages : List HistoryMessage) (allows : Bool), FreeFrom allows messages →
      pruneOrphansFrom allows (messages ++ [m]) =
        messages ++ pruneOrphansFrom (allowsAfter allows messages) [m] := by
    intro messages
    induction messages with
    | nil => intro allows _; rfl
    | cons r rest ih =>
      intro allows hfree
      have hkept : (roleIsToolResult r.role && !allows) = false := by
        cases hresult : roleIsToolResult r.role with
        | false => rfl
        | true => rw [hfree.1 hresult]; rfl
      rw [List.cons_append, pruneOrphansFrom, hkept, ih _ hfree.2, allowsAfter_cons]
      rfl
  rw [pruneOrphans, happend messages false (noOrphans_iff.mp h), pruneOrphansFrom]
  split
  · rw [pruneOrphansFrom, List.append_nil]
  · rfl

/-! ## Appending -/

/-- A call of `sc_history_append`; a refused one leaves the history as it is. -/
def appendStep (maxMessages : Nat) (messages : List HistoryMessage) (m : HistoryMessage) :
    List HistoryMessage :=
  match historyAppend maxMessages messages m.role m.content with
  | .ok after => after
  | .error _ => messages

/-- The message pushes the first one out of a full history, and what follows that is a tool result. -/
def Strands (maxMessages : Nat) (messages : List HistoryMessage) (m : HistoryMessage) : Prop :=
  m.role ≠ [] ∧ messages.length = maxMessages ∧
    (roleIsToolResult m.role = true → allowsAfter false messages = true) ∧
      ∃ next, (messages ++ [m])[1]? = some next ∧ roleIsToolResult next.role = true

/-- A history as `sc_history_append` should leave it. -/
def WellKept (maxMessages : Nat) (messages : List HistoryMessage) : Prop :=
  messages.length ≤ maxMessages ∧ NoOrphans messages

theorem appendStep_eq {maxMessages : Nat} {messages : List HistoryMessage} (hmax : 0 < maxMessages)
    (h : WellKept maxMessages messages) (m : HistoryMessage) :
    appendStep maxMessages messages m =
      if m.role = [] ∨ (roleIsToolResult m.role && !allowsAfter false messages) = true then messages
      else if messages.length = maxMessages then (messages ++ [m]).tail else messages ++ [m] := by
  obtain ⟨hlen, hfree⟩ := h
  rw [appendStep, historyAppend]
  by_cases hrole : m.role = []
  · rw [if_pos hrole, if_pos (Or.inl hrole)]
    rfl
  · rw [if_neg hrole]
    show historyTrim maxMessages (messages ++ [m]) = _
    rw [historyTrim, if_neg (by omega), pruneOrphans_concat hfree]
    by_cases horphan : (roleIsToolResult m.role && !allowsAfter false messages) = true
    · rw [if_pos horphan, if_pos (Or.inr horphan), trimFront_of_le hlen]
    · rw [if_neg horphan, if_neg (not_or.mpr ⟨hrole, horphan⟩)]
      have hmore : (messages ++ [m]).length = messages.length + 1 := by
        rw [List.length_append, List.length_singleton]
      split
      · next hfull =>
        rw [trimFront_eq_drop, hmore, hfull, Nat.add_sub_cancel_left, List.drop_one]
      · exact trimFront_of_le (by omega)

/-- Behind its first message, a history without orphans has none unless a tool result comes first. -/
theorem noOrphans_tail {m : HistoryMessage} {rest : List HistoryMessage}
    (h : FreeFrom false (m :: rest)) :
    NoOrphans rest ↔ ∀ next, rest[0]? = some next → roleIsToolResult next.role = false := by
  rw [noOrphans_iff]
  cases rest with
  | nil => exact ⟨fun _ next hnext => absurd hnext (by simp), fun _ => trivial⟩
  | cons next rest =>
    constructor
    · rintro ⟨hfirst, -⟩ first hget
      cases hget
      cases hresult : roleIsToolResult next.role with
      | false => rfl
      | true => exact absurd (hfirst hresult) Bool.false_ne_true
    · intro hfirst
      refine ⟨fun hresult => ?_, h.2.2⟩
      rw [hfirst next rfl] at hresult
      exact hresult

/-- **One append**: it keeps the invariant exactly when it does not strand a tool result. -/
theorem wellKept_append {maxMessages : Nat} {messages : List HistoryMessage} (hmax : 0 < maxMessages)
    (h : WellKept maxMessages messages) (m : HistoryMessage) :
    WellKept maxMessages (appendStep maxMessages messages m) ↔ ¬ Strands maxMessages messages m := by
  obtain ⟨hlen, hfree⟩ := h
  rw [appendStep_eq hmax ⟨hlen, hfree⟩]
  by_cases hout : m.role = [] ∨ (roleIsToolResult m.role && !allowsAfter false messages) = true
  · rw [if_pos hout]
    refine ⟨fun _ hstrands => ?_, fun _ => ⟨hlen, hfree⟩⟩
    obtain ⟨hrole, -, hallowed, -⟩ := hstrands
    rcases hout with hempty | horphan
    · exact hrole hempty
    · rw [Bool.and_eq_true, Bool.not_eq_true'] at horphan
      rw [hallowed horphan.1] at horphan
      exact Bool.false_ne_true horphan.2.symm
  · rw [if_neg hout]
    obtain ⟨hrole, hkept⟩ := not_or.mp hout
    have hallowed : roleIsToolResult m.role = true → allowsAfter false messages = true := by
      intro hresult
      rw [hresult] at hkept
      simpa using hkept
    have hall : FreeFrom false (messages ++ [m]) :=
      (freeFrom_append false).mpr ⟨noOrphans_iff.mp hfree, hallowed, trivial⟩
    split
    · next hfull =>
      obtain ⟨first, rest, rfl⟩ := List.exists_cons_of_length_pos (by omega : 0 < messages.length)
      have htail : WellKept maxMessages (rest ++ [m]) ↔ NoOrphans (rest ++ [m]) := by
        refine ⟨And.right, fun hfree => ⟨?_, hfree⟩⟩
        rw [List.length_append, List.length_singleton]
        rw [List.length_cons] at hfull
        omega
      show WellKept maxMessages (rest ++ [m]) ↔ _
      have hsecond : NoOrphans (rest ++ [m]) ↔
          ∀ next, (rest ++ [m])[0]? = some next → roleIsToolResult next.role = false := noOrphans_tail hall
      rw [htail, hsecond]
      constructor
      · rintro hfirst ⟨-, -, -, next, hnext, hresult⟩
        rw [hfirst next hnext] at hresult
        exact Bool.false_ne_true hresult
      · intro hstrands next hnext
        cases hresult : roleIsToolResult next.role with
        | false => rfl
        | true => exact absurd ⟨hrole, hfull, hallowed, next, hnext, hresult⟩ hstrands
    · next hfull =>
      refine ⟨fun _ hstrands => hfull hstrands.2.1, fun _ => ⟨?_, noOrphans_iff.mpr hall⟩⟩
      rw [List.length_append, List.length_singleton]
      omega

/-- **When a history stays well kept**: it is so after every append of a run exactly when no append
    strands a tool result. -/
theorem appends_iff {maxMessages : Nat} (hmax : 0 < maxMessages) (appended : List HistoryMessage) :
    (∀ before, before <+: appended → WellKept maxMessages (run (appendStep maxMessages) [] before)) ↔
      EachStep (appendStep maxMessages) (fun messages m => ¬ Strands maxMessages messages m) [] appended := by
  have hempty : WellKept maxMessages [] := ⟨Nat.zero_le _, noOrphans_iff.mpr trivial⟩
  apply safe_iff_eachStep_of_guarded (I := WellKept maxMessages) (fun _ h => h)
  · intro messages m h hguard
    exact (wellKept_append hmax h m).mpr hguard
  · intro messages m h hnext
    exact (wellKept_append hmax h m).mp hnext
  · exact hempty

/-- A request, its result and an answer, in a history that holds two messages. -/
def strandedMessages : List HistoryMessage :=
  [⟨str "assistant", str "{}"⟩, ⟨str "tool", str "ok"⟩, ⟨str "assistant", str "done"⟩]

/-- Up to the result, the history is well kept. -/
theorem appends_iff_two :
    0 < 2 ∧ ∀ before, before <+: strandedMessages.take 2 → WellKept 2 (run (appendStep 2) [] before) := by
  refine ⟨by decide, (appends_iff (by decide : 0 < 2) (strandedMessages.take 2)).mpr ⟨?_, ?_, trivial⟩⟩
  · rintro ⟨-, hfull, -⟩
    exact absurd hfull (by decide)
  · rintro ⟨-, hfull, -⟩
    exact absurd hfull (by decide)

/-- The answer pushes the request out and leaves its result first. -/
theorem not_wellKept_stranded : ¬ WellKept 2 (run (appendStep 2) [] strandedMessages) := by
  have hrun : run (appendStep 2) [] strandedMessages =
      [⟨str "tool", str "ok"⟩, ⟨str "assistant", str "done"⟩] := by decide +kernel
  rw [hrun]
  rintro ⟨-, hfree⟩
  obtain ⟨p, hlast, -⟩ := hfree [] ⟨str "tool", str "ok"⟩ [⟨str "assistant", str "done"⟩] rfl (by decide)
  exact absurd hlast (by simp)

/-! ## The budget -/

/-- Sizes saturate once, at the end. -/
theorem historyEstimatedChars_eq (messages : List HistoryMessage) :
    historyEstimatedChars messages = min (messages.map messageEstimatedChars).sum sizeMax := by
  have hfold : ∀ (messages : List HistoryMessage) (total : Nat), total ≤ sizeMax →
      messages.foldl (fun total message => sizeAddSaturating total (messageEstimatedChars message)) total =
        min (total + (messages.map messageEstimatedChars).sum) sizeMax := by
    intro messages
    induction messages with
    | nil => intro total h; rw [List.foldl_nil, List.map_nil, List.sum_nil, Nat.add_zero, Nat.min_eq_left h]
    | cons m rest ih =>
      intro total h
      have hnext : sizeAddSaturating total (messageEstimatedChars m) ≤ sizeMax := Nat.min_le_right _ _
      rw [List.foldl_cons, ih _ hnext, List.map_cons, List.sum_cons, sizeAddSaturating]
      omega
  rw [historyEstimatedChars, hfold messages 0 (Nat.zero_le _), Nat.zero_add]

/-- Fewer messages are estimated at no more. -/
theorem historyEstimatedChars_sublist {fewer messages : List HistoryMessage} (h : fewer.Sublist messages) :
    historyEstimatedChars fewer ≤ historyEstimatedChars messages := by
  have hsum : (fewer.map messageEstimatedChars).sum ≤ (messages.map messageEstimatedChars).sum := by
    induction h with
    | slnil => exact Nat.le_refl _
    | cons m _ ih =>
      rw [List.map_cons, List.sum_cons]
      omega
    | cons_cons m _ ih =>
      rw [List.map_cons, List.map_cons, List.sum_cons, List.sum_cons]
      omega
  rw [historyEstimatedChars_eq, historyEstimatedChars_eq]
  omega

theorem dropToBudget_le (maxChars : Nat) (messages : List HistoryMessage) :
    historyEstimatedChars (dropToBudget maxChars messages) ≤ maxChars := by
  induction messages with
  | nil => exact Nat.zero_le _
  | cons m rest ih =>
    rw [dropToBudget]
    split
    · exact ih
    · omega

/-- A newest message that fits is not dropped. -/
theorem dropToBudget_last {maxChars : Nat} {m : HistoryMessage} (hfits : messageEstimatedChars m ≤ maxChars)
    {messages : List HistoryMessage} (hlast : messages.getLast? = some m) :
    (dropToBudget maxChars messages).getLast? = some m := by
  induction messages with
  | nil => exact hlast
  | cons r rest ih =>
    rw [dropToBudget]
    split
    · next hover =>
      cases rest with
      | nil =>
        -- alone it would have been within the budget
        obtain rfl : r = m := Option.some.inj hlast
        rw [historyEstimatedChars_eq, List.map_singleton, List.sum_singleton] at hover
        omega
      | cons n rest => exact ih (by rwa [List.getLast?_cons_cons] at hlast)
    · exact hlast

/-- A newest message that is no tool result is no orphan. -/
theorem pruneOrphansFrom_last {m : HistoryMessage} (hm : roleIsToolResult m.role = false)
    {messages : List HistoryMessage} :
    ∀ {allows}, messages.getLast? = some m → (pruneOrphansFrom allows messages).getLast? = some m := by
  induction messages with
  | nil => intro allows hlast; exact hlast
  | cons r rest ih =>
    intro allows hlast
    cases rest with
    | nil =>
      obtain rfl : r = m := Option.some.inj hlast
      rw [pruneOrphansFrom, hm]
      rfl
    | cons n rest =>
      rw [List.getLast?_cons_cons] at hlast
      rw [pruneOrphansFrom]
      split
      · exact ih hlast
      · rw [List.getLast?_cons, ih hlast]
        rfl

/-- **What is left of a history**: at most one summary, then messages that were there, in order; the
    newest of them is `newest` when it had to stay. -/
structure Condensed (messages : List HistoryMessage) (stays : HistoryMessage → Prop)
    (front rest : List HistoryMessage) : Prop where
  summary : front = [] ∨ ∃ limit parts, front = [summaryOf limit parts]
  kept : rest.Sublist messages
  newest : ∀ m, messages.getLast? = some m → stays m → rest.getLast? = some m

/-- A message that has to stay in a history of `maxChars`. -/
def Stays (maxChars : Nat) (m : HistoryMessage) : Prop :=
  messageEstimatedChars m ≤ maxChars ∧ roleIsToolResult m.role = false

/-- The summary stands in front of what is left of the recent messages. -/
theorem compressToRecent_condensed {messages : List HistoryMessage} (h : NoOrphans messages)
    (recentMessages maxSummaryChars : Nat) (maxChars : Nat) :
    ∃ front rest, compressToRecent messages recentMessages maxSummaryChars = front ++ rest ∧
      Condensed messages (Stays maxChars) front rest := by
  unfold compressToRecent
  rw [pruneOrphans_eq_self h]
  dsimp only
  split
  · exact ⟨[], messages, rfl, Or.inl rfl, List.Sublist.refl _, fun _ hlast _ => hlast⟩
  · next hmany =>
    refine ⟨[_], _, rfl, Or.inr ⟨maxSummaryChars, _, rfl⟩, ?_, ?_⟩
    · exact (pruneOrphansFrom_sublist _ _).trans (List.drop_sublist _ _)
    · intro m hlast hstays
      refine pruneOrphansFrom_last hstays.2 ?_
      rw [List.getLast?_drop, if_neg (by omega)]
      exact hlast

/-- Dropping from the front takes the summary first. -/
theorem Condensed.drop {messages front rest : List HistoryMessage} {maxChars : Nat}
    (h : Condensed messages (Stays maxChars) front rest) :
    ∃ front' rest', pruneOrphans (dropToBudget maxChars (front ++ rest)) = front' ++ rest' ∧
      Condensed messages (Stays maxChars) front' rest' := by
  -- what is left once the summary is gone
  have hrest : Condensed messages (Stays maxChars) [] (pruneOrphans (dropToBudget maxChars rest)) := by
    refine ⟨Or.inl rfl, ?_, fun m hlast hstays => ?_⟩
    · exact (pruneOrphansFrom_sublist _ _).trans ((dropToBudget_suffix _ _).sublist.trans h.kept)
    · exact pruneOrphansFrom_last hstays.2 (dropToBudget_last hstays.1 (h.newest m hlast hstays))
  rcases h.summary with rfl | ⟨limit, parts, rfl⟩
  · exact ⟨[], _, rfl, hrest⟩
  · show ∃ front' rest', pruneOrphans (dropToBudget maxChars (summaryOf limit parts :: rest)) =
      front' ++ rest' ∧ _
    rw [dropToBudget]
    split
    · exact ⟨[], _, rfl, hrest⟩
    · refine ⟨[summaryOf limit parts], pruneOrphansFrom (roleAllowsToolResult (str "system")) rest, rfl,
        Or.inr ⟨limit, parts, rfl⟩, (pruneOrphansFrom_sublist _ _).trans h.kept, fun m hlast hstays => ?_⟩
      exact pruneOrphansFrom_last hstays.2 (h.newest m hlast hstays)

/-- Messages that were dropped from the front and pruned after that are within the budget. -/
theorem pruneOrphans_dropToBudget (maxChars : Nat) (messages : List HistoryMessage) :
    historyEstimatedChars (pruneOrphans (dropToBudget maxChars messages)) ≤ maxChars ∧
      NoOrphans (pruneOrphans (dropToBudget maxChars messages)) := by
  refine ⟨?_, pruneOrphans_noOrphans _⟩
  exact Nat.le_trans (historyEstimatedChars_sublist (pruneOrphansFrom_sublist false _))
    (dropToBudget_le maxChars messages)

/-- A history that was cut to a budget is within it and free of orphans. -/
theorem pruneToBudget_bounded (messages : List HistoryMessage) (maxChars : Nat) :
    historyEstimatedChars (pruneToBudget messages maxChars) ≤ maxChars ∧
      NoOrphans (pruneToBudget messages maxChars) := by
  unfold pruneToBudget
  dsimp only
  split
  · next hfits => exact ⟨hfits, pruneOrphans_noOrphans messages⟩
  · split
    · exact ⟨Nat.zero_le _, noOrphans_iff.mpr trivial⟩
    · exact pruneOrphans_dropToBudget maxChars _

/-- **What `sc_history_prune_to_budget` leaves**: a history within the budget, without orphans, made of at
    most one summary and messages that were there; a newest message that fits and is no tool result is
    still the newest. -/
theorem pruneToBudget_condensed (messages : List HistoryMessage) (maxChars : Nat) :
    historyEstimatedChars (pruneToBudget messages maxChars) ≤ maxChars ∧
      NoOrphans (pruneToBudget messages maxChars) ∧
        ∃ front rest, pruneToBudget messages maxChars = front ++ rest ∧
          (front = [] ∨ ∃ limit parts, front = [summaryOf limit parts]) ∧ rest.Sublist messages ∧
            ∀ m, (pruneOrphans messages).getLast? = some m → messageEstimatedChars m ≤ maxChars →
              roleIsToolResult m.role = false → rest.getLast? = some m := by
  obtain ⟨hbudget, horphans⟩ := pruneToBudget_bounded messages maxChars
  refine ⟨hbudget, horphans, ?_⟩
  have hpruned := pruneOrphans_noOrphans messages
  have hsub : (pruneOrphans messages).Sublist messages := pruneOrphansFrom_sublist false messages
  have hdrop : ∀ {ms front rest : List HistoryMessage}, ms = front ++ rest →
      Condensed (pruneOrphans messages) (Stays maxChars) front rest →
        ∃ front rest, pruneOrphans (dropToBudget maxChars ms) = front ++ rest ∧
          (front = [] ∨ ∃ limit parts, front = [summaryOf limit parts]) ∧ rest.Sublist messages ∧
            ∀ m, (pruneOrphans messages).getLast? = some m → messageEstimatedChars m ≤ maxChars →
              roleIsToolResult m.role = false → rest.getLast? = some m := by
    rintro ms front rest rfl hcondensed
    obtain ⟨front', rest', heq, h⟩ := hcondensed.drop
    exact ⟨front', rest', heq, h.summary, h.kept.trans hsub,
      fun m hlast hfits hrole => h.newest m hlast ⟨hfits, hrole⟩⟩
  unfold pruneToBudget
  dsimp only
  split
  · exact ⟨[], pruneOrphans messages, rfl, Or.inl rfl, hsub, fun _ hlast _ _ => hlast⟩
  · split
    · next hzero =>
      -- a message is never estimated at nothing
      refine ⟨[], [], rfl, Or.inl rfl, List.nil_sublist _, ?_⟩
      intro m _ hfits _
      rw [hzero, messageEstimatedChars, sizeAddSaturating, sizeMax] at hfits
      omega
    · split
      · obtain ⟨front, rest, heq, h⟩ := compressToRecent_condensed hpruned
          (min (recentMessagesForBudget (pruneOrphans messages) (maxChars - maxChars / 4))
            ((pruneOrphans messages).length - 1))
          (if maxChars / 4 < 128 ∧ 128 ≤ maxChars then 128 else maxChars / 4) maxChars
        exact hdrop heq h
      · exact hdrop rfl ⟨Or.inl rfl, List.Sublist.refl _, fun _ hlast _ => hlast⟩

end SmolClaw.Runtime
