/-
  What an ordinary export says about the contents of a store (`sc_memory_append_entry_json`,
  `src/memory/memory_common.c`).

  1. **Two runs** — `Agree s t`: two stores that are the same entry by entry, contents and metadata
     apart.  `Discreet s t`: no ordinary export (no raw content asked for, no search text, no byte
     limit) tells them apart.

  2. **The defect** — an entry that is redacted or deleted is written with the content it holds, on the
     grounds that `sc_memory_store_forget` and `sc_memory_store_redact` have already blanked it.  But
     `sc_memory_store_put` takes a redaction state from its caller and keeps the caller's content.

  3. **Result** — `discreet_iff`: agreeing stores are told apart exactly by the contents of entries that
     are redacted or deleted; and in runs whose puts blank what they mark (`StoreCall.Blanks`) ordinary
     exports say nothing.
-/
import SmolClaw.Memory.Snapshot

namespace SmolClaw.Memory

open Lib.Run Lib.Table

/-! ## Specification -/

/-- An entry without its content and its metadata. -/
def MemoryEntry.outline (e : MemoryEntry) : MemoryEntry := { e with content := [], metadataJson := [] }

/-- The same entries in the same order, contents and metadata apart. -/
def Agree (s t : MemoryStore) : Prop :=
  s.map MemoryEntry.outline = t.map MemoryEntry.outline

/-- A query without search text and without a byte limit. -/
def Quiet : Option MemoryQuery → Prop
  | none => True
  | some q => q.query = [] ∧ q.maxTotalResultBytes = 0

/-- No ordinary export tells the two stores apart. -/
def Discreet (s t : MemoryStore) : Prop :=
  ∀ query options, Quiet query → isRaw options = false →
    storeExportSnapshot s query options = storeExportSnapshot t query options

/-- The entries that are redacted or deleted hold the same content and metadata in both stores. -/
def SameHidden (s t : MemoryStore) : Prop :=
  ∀ p ∈ s.zip t, p.1.redactionState ≠ .none →
    p.1.content = p.2.content ∧ p.1.metadataJson = p.2.metadataJson

/-- A put that marks its record redacted or deleted has blanked it. -/
def StoreCall.Blanks : StoreCall → Prop
  | .put _ r => r.redactionState = 0 ∨ (r.value = redactedText ∧ r.metadataJson = [])
  | _ => True

/-! ## Searching two stores at once -/

/-- Two entries that differ in content and metadata only. -/
def Twins (p : MemoryEntry × MemoryEntry) : Prop := p.1.outline = p.2.outline

theorem Twins.state {p : MemoryEntry × MemoryEntry} (h : Twins p) :
    p.1.redactionState = p.2.redactionState := by
  have hstate : p.1.outline.redactionState = p.2.outline.redactionState := congrArg _ h
  exact hstate

/-- Two agreeing stores are the two sides of a list of twins. -/
theorem Agree.twins {s t : MemoryStore} (h : Agree s t) :
    (s.zip t).map Prod.fst = s ∧ (s.zip t).map Prod.snd = t ∧ ∀ p ∈ s.zip t, Twins p := by
  have hlen : s.length = t.length := by
    have := congrArg List.length h
    rwa [List.length_map, List.length_map] at this
  refine ⟨List.map_fst_zip (Nat.le_of_eq hlen), List.map_snd_zip (Nat.le_of_eq hlen.symm), ?_⟩
  intro p hp
  obtain ⟨i, hi, rfl⟩ := List.getElem_of_mem hp
  have hget := congrArg (fun l => l[i]?) h
  rw [List.length_zip] at hi
  have his : i < s.length := by omega
  have hit : i < t.length := by omega
  simpa [Twins, his, hit] using hget

/-- A query without search text does not look at contents. -/
theorem queryMatchesEntry_outline {query : Option MemoryQuery} (hq : Quiet query) (e : MemoryEntry) :
    queryMatchesEntry query e = queryMatchesEntry query e.outline := by
  cases query with
  | none => rfl
  | some q =>
    simp only [queryMatchesEntry, hq.1, List.isEmpty_nil, Bool.true_or]
    rfl

/-- Sorting does not look at contents. -/
theorem entryCompareDesc_outline (a b : MemoryEntry) :
    entryCompareDesc a b = entryCompareDesc a.outline b.outline := rfl

/-- What a quiet search selects before the cut by bytes. -/
def selected (query : Option MemoryQuery) (store : MemoryStore) : List MemoryEntry :=
  takeCap (resultCap query) (sortEntries (store.filter (queryMatchesEntry query)))

theorem storeSearch_quiet {query : Option MemoryQuery} (hq : Quiet query) (store : MemoryStore) :
    storeSearch store query = (validateQuery query >>= fun _ => .ok (selected query store)) := by
  cases query with
  | none => rfl
  | some q =>
    have hlimit : ¬ 0 < q.maxTotalResultBytes := by rw [hq.2]; exact Nat.lt_irrefl 0
    simp only [storeSearch, if_neg hlimit]
    rfl

section Pairs

variable {zs : List (MemoryEntry × MemoryEntry)}

theorem filter_pairs {query : Option MemoryQuery} (hq : Quiet query) (hz : ∀ p ∈ zs, Twins p) :
    ∃ ws : List (MemoryEntry × MemoryEntry), (∀ p ∈ ws, p ∈ zs) ∧
      (zs.map Prod.fst).filter (queryMatchesEntry query) = ws.map Prod.fst ∧
      (zs.map Prod.snd).filter (queryMatchesEntry query) = ws.map Prod.snd := by
  refine ⟨zs.filter fun p => queryMatchesEntry query p.1, fun p hp => List.mem_of_mem_filter hp, ?_, ?_⟩
  · rw [List.filter_map]
    rfl
  · rw [List.filter_map]
    congr 1
    apply List.filter_congr
    intro p hp
    show queryMatchesEntry query p.2 = queryMatchesEntry query p.1
    rw [queryMatchesEntry_outline hq p.2, queryMatchesEntry_outline hq p.1, hz p hp]

/-- The sort moves twins together. -/
theorem sort_pairs (hz : ∀ p ∈ zs, Twins p) :
    ∃ ws : List (MemoryEntry × MemoryEntry), ws.Perm zs ∧ sortEntries (zs.map Prod.fst) = ws.map Prod.fst ∧
      sortEntries (zs.map Prod.snd) = ws.map Prod.snd := by
  refine ⟨zs.insertionSort fun p q => (entryCompareDesc p.1 q.1).isLE = true,
    List.perm_insertionSort _ zs, ?_, ?_⟩
  · exact (List.map_insertionSort _ _ Prod.fst zs fun p _ q _ => Iff.rfl).symm
  · refine (List.map_insertionSort _ _ Prod.snd zs fun p hp q hq => ?_).symm
    rw [entryCompareDesc_outline p.1 q.1, hz p hp, hz q hq]
    exact Iff.rfl

theorem selected_pairs {query : Option MemoryQuery} (hq : Quiet query) (hz : ∀ p ∈ zs, Twins p) :
    ∃ ws : List (MemoryEntry × MemoryEntry), (∀ p ∈ ws, p ∈ zs) ∧
      selected query (zs.map Prod.fst) = ws.map Prod.fst ∧
      selected query (zs.map Prod.snd) = ws.map Prod.snd := by
  obtain ⟨fs, hfs, hfst, hsnd⟩ := filter_pairs hq hz
  obtain ⟨ws, hperm, hfst', hsnd'⟩ := sort_pairs fun p hp => hz p (hfs p hp)
  have hws : ∀ p ∈ ws, p ∈ zs := fun p hp => hfs p (hperm.mem_iff.mp hp)
  unfold selected
  rw [hfst, hsnd, hfst', hsnd']
  cases resultCap query with
  | none => exact ⟨ws, hws, rfl, rfl⟩
  | some n => exact ⟨ws.take n, fun p hp => hws p (List.mem_of_mem_take hp), List.map_take.symm,
      List.map_take.symm⟩

end Pairs

/-! ## What the text of an entry says -/

/-- Twins whose hidden texts are the same are written alike. -/
theorem appendEntryJson_twins {options : Option ExportOptions} (hraw : isRaw options = false)
    {p : MemoryEntry × MemoryEntry} (hp : Twins p)
    (hsame : p.1.redactionState ≠ .none →
      p.1.content = p.2.content ∧ p.1.metadataJson = p.2.metadataJson) :
    appendEntryJson options p.1 = appendEntryJson options p.2 := by
  have hmembers : ∀ content metadata,
      entryMembers p.1 content metadata = entryMembers p.2 content metadata := by
    intro content metadata
    -- the members read neither the content nor the metadata of the entry itself
    show entryMembers p.1.outline content metadata = entryMembers p.2.outline content metadata
    rw [show p.1.outline = p.2.outline from hp]
  have hshown : shownContent options p.1 = shownContent options p.2 ∧
      shownMetadata options p.1 = shownMetadata options p.2 := by
    unfold shownContent shownMetadata
    rw [← hp.state, hraw]
    -- an entry in a hidden state is written as it is, any other one as `[REDACTED]`
    by_cases hstate : p.1.redactionState ≠ .none
    · rw [if_pos hstate, if_pos hstate, if_pos hstate, if_pos hstate]
      exact hsame hstate
    · rw [if_neg hstate, if_neg hstate, if_neg hstate, if_neg hstate]
      exact ⟨rfl, rfl⟩
  rw [appendEntryJson, appendEntryJson, hshown.1, hshown.2, hmembers]

/-- The object of an entry shows the content and the metadata that were written. -/
theorem entryValue_inj {a b : MemoryEntry} {content content' metadata metadata' : Bytes}
    (h : entryValue a content metadata = entryValue b content' metadata') :
    content = content' ∧ metadata = metadata' := by
  have hc : textMember (entryValue a content metadata) "content" = some content :=
    textMember_entryValue (by simp [entryMembers])
  have hm : textMember (entryValue a content metadata) "metadata" = some metadata :=
    textMember_entryValue (by simp [entryMembers])
  have hc' : textMember (entryValue b content' metadata') "content" = some content' :=
    textMember_entryValue (by simp [entryMembers])
  have hm' : textMember (entryValue b content' metadata') "metadata" = some metadata' :=
    textMember_entryValue (by simp [entryMembers])
  rw [h, hc'] at hc
  rw [h, hm'] at hm
  exact ⟨(Option.some.inj hc).symm, (Option.some.inj hm).symm⟩

/-- Two snapshots with the same text show the same contents, entry by entry. -/
theorem snapshotText_pairs {options : Option ExportOptions} {ws : List (MemoryEntry × MemoryEntry)}
    (h : snapshotText options (ws.map Prod.fst) = snapshotText options (ws.map Prod.snd)) :
    ∀ p ∈ ws, shownContent options p.1 = shownContent options p.2 ∧
      shownMetadata options p.1 = shownMetadata options p.2 := by
  -- each text goes with the object it stands for
  let item (e : MemoryEntry) : Bytes × Json :=
    (appendEntryJson options e, entryValue e (shownContent options e) (shownMetadata options e))
  have hreads : ∀ e, ReadsTo (parseValue 2) (item e).1 (item e).2 := fun e =>
    appendEntryJson_reads options e 0
  have htext : arrayText ((ws.map fun p => item p.1).map Prod.fst)
      = arrayText ((ws.map fun p => item p.2).map Prod.fst) := by
    rw [snapshotText, snapshotText, List.map_map, List.map_map] at h
    rw [List.map_map, List.map_map]
    exact h
  have hvalues := arrayText_inj (p := parseValue 2) (by rw [List.length_map, List.length_map])
    (by intro t ht; obtain ⟨q, -, rfl⟩ := List.mem_map.mp ht; exact hreads q.1)
    (by intro t ht; obtain ⟨q, -, rfl⟩ := List.mem_map.mp ht; exact hreads q.2) htext
  rw [List.map_map, List.map_map] at hvalues
  intro p hp
  exact entryValue_inj (List.map_inj_left.mp hvalues p hp)

/-! ## Which stores are told apart -/

/-- Same hidden texts, same exports. -/
theorem discreet_of_sameHidden {s t : MemoryStore} (hagree : Agree s t) (hsame : SameHidden s t) :
    Discreet s t := by
  intro query options hq hraw
  obtain ⟨hs, ht, htwins⟩ := hagree.twins
  obtain ⟨ws, hws, hfst, hsnd⟩ := selected_pairs hq htwins
  rw [hs] at hfst
  rw [ht] at hsnd
  have htext : snapshotText options (ws.map Prod.fst) = snapshotText options (ws.map Prod.snd) := by
    unfold snapshotText
    rw [List.map_map, List.map_map]
    congr 1
    apply List.map_congr_left
    intro p hp
    exact appendEntryJson_twins hraw (htwins p (hws p hp)) (hsame p (hws p hp))
  rw [storeExportSnapshot, storeExportSnapshot, storeSearch_quiet hq, storeSearch_quiet hq, hfst, hsnd]
  cases validateQuery query with
  | error e => rfl
  | ok u => exact congrArg Except.ok htext

/-- One export of everything already shows every hidden text. -/
theorem sameHidden_of_discreet {s t : MemoryStore} (hagree : Agree s t) (h : Discreet s t) :
    SameHidden s t := by
  obtain ⟨hs, ht, htwins⟩ := hagree.twins
  obtain ⟨ws, hperm, hfst, hsnd⟩ := sort_pairs htwins
  rw [hs] at hfst
  rw [ht] at hsnd
  -- the query for the whole store is quiet, and no options is not raw
  have hexport := h (some everything) none ⟨rfl, rfl⟩ rfl
  rw [storeExportSnapshot, storeExportSnapshot, storeSearch_whole (everything_whole s),
    storeSearch_whole (everything_whole t), hfst, hsnd] at hexport
  have hshown := snapshotText_pairs (Except.ok.inj hexport)
  intro p hp hstate
  obtain ⟨hc, hm⟩ := hshown p (hperm.mem_iff.mpr hp)
  have hstate' : p.2.redactionState ≠ .none := (htwins p hp).state ▸ hstate
  unfold shownContent at hc
  unfold shownMetadata at hm
  rw [if_pos hstate, if_pos hstate'] at hc hm
  exact ⟨hc, hm⟩

/-! ## Runs that blank what they mark -/

/-- Every entry that is redacted or deleted holds what redaction leaves. -/
def Blanked (store : MemoryStore) : Prop :=
  ∀ e ∈ store, e.redactionState ≠ .none → e.content = redactedText ∧ e.metadataJson = []

/-- **One call keeps the store blanked**, if a put blanks what it marks. -/
theorem storeCall_blanked {store store' : MemoryStore} {call : StoreCall} (hc : call.Blanks)
    (hs : Blanked store) (h : storeCall store call = .ok store') : Blanked store' := by
  refine storeCall_forall ?_ (fun _ _ _ _ => ⟨rfl, rfl⟩) hs h
  intro env r id now hcall _ _ hstate
  subst hcall
  rcases hc with hzero | hblank
  · -- a put without a state: its entry has none either
    refine absurd ?_ hstate
    show (RedactionState.ofInt? r.redactionState).getD .none = .none
    rw [hzero]
    rfl
  · exact hblank

theorem blanked_of_run {calls : List StoreCall} (h : ∀ c ∈ calls, c.Blanks) :
    Blanked (storeAfter calls) := by
  have hstep : ∀ s c, Blanked s → c.Blanks → Blanked (storeStep s c) := by
    intro s c hs hc
    unfold storeStep
    cases hcall : storeCall s c with
    | error e => exact hs
    | ok s' => exact storeCall_blanked hc hs hcall
  exact run_invariant (fun s c hs hc => hstep s c hs hc) calls [] (fun _ he => absurd he List.not_mem_nil)
    (eachStep_of_forall h)

/-- Blanked stores hide the same. -/
theorem Blanked.sameHidden {s t : MemoryStore} (hagree : Agree s t) (hs : Blanked s)
    (ht : Blanked t) : SameHidden s t := by
  obtain ⟨-, -, htwins⟩ := hagree.twins
  intro p hp hstate
  have hp' : (p.1, p.2) ∈ s.zip t := hp
  obtain ⟨hc, hm⟩ := hs p.1 (List.of_mem_zip hp').1 hstate
  obtain ⟨hc', hm'⟩ := ht p.2 (List.of_mem_zip hp').2 ((htwins p hp).state ▸ hstate)
  exact ⟨hc.trans hc'.symm, hm.trans hm'.symm⟩

/-- **What ordinary exports disclose**: exactly the texts of redacted and deleted entries, which is
    nothing as long as a put blanks what it marks. -/
theorem discreet_iff (s t : MemoryStore) (hagree : Agree s t) :
    (Discreet s t ↔ SameHidden s t) ∧
    (∀ calls calls' : List StoreCall, s = storeAfter calls → t = storeAfter calls' →
      (∀ c ∈ calls, c.Blanks) → (∀ c ∈ calls', c.Blanks) → Discreet s t) := by
  refine ⟨⟨sameHidden_of_discreet hagree, discreet_of_sameHidden hagree⟩, ?_⟩
  rintro calls calls' rfl rfl hcalls hcalls'
  exact discreet_of_sameHidden hagree
    (Blanked.sameHidden hagree (blanked_of_run hcalls) (blanked_of_run hcalls'))

/-- A put of a record with a given content and state, under a fixed id and time. -/
def markedPut (content : Bytes) (state : Int) : StoreCall :=
  .put { random := .ok (Vector.replicate 16 0), clock := .ok 7 }
    { id := str "i", namespaceName := str "n", sessionId := [], category := [], key := str "k"
      value := content, score := ⟨0⟩, importance := 0, supersededById := [], source := []
      metadataJson := [], redactionState := state, contentRef := [], allowSensitiveContent := false }

/-- Two runs that redact what they put: the stores agree, and no export tells them apart. -/
theorem discreet_after_redact :
    Agree (storeAfter [markedPut (str "a") 0, .redact (str "n") (str "k")])
        (storeAfter [markedPut (str "b") 0, .redact (str "n") (str "k")]) ∧
      Discreet (storeAfter [markedPut (str "a") 0, .redact (str "n") (str "k")])
        (storeAfter [markedPut (str "b") 0, .redact (str "n") (str "k")]) ∧
      (Discreet (storeAfter [markedPut (str "a") 0]) (storeAfter [markedPut (str "b") 0]) ↔
        SameHidden (storeAfter [markedPut (str "a") 0]) (storeAfter [markedPut (str "b") 0])) := by
  have hblanks : ∀ content, ∀ c ∈ [markedPut content 0, .redact (str "n") (str "k")], c.Blanks := by
    intro content c hc
    rcases List.mem_pair.mp hc with rfl | rfl
    · exact Or.inl rfl
    · trivial
  have hredacted : Agree (storeAfter [markedPut (str "a") 0, .redact (str "n") (str "k")])
      (storeAfter [markedPut (str "b") 0, .redact (str "n") (str "k")]) := by
    unfold Agree
    decide
  have hput : Agree (storeAfter [markedPut (str "a") 0]) (storeAfter [markedPut (str "b") 0]) := by
    unfold Agree
    decide
  exact ⟨hredacted, (discreet_iff _ _ hredacted).2 _ _ rfl rfl (hblanks _) (hblanks _),
    (discreet_iff _ _ hput).1⟩

/-- A record that is PUT as redacted keeps its content, and an ordinary export shows it. -/
theorem put_redacted_disclosed :
    ¬ ∀ calls calls' : List StoreCall, Agree (storeAfter calls) (storeAfter calls') →
      Discreet (storeAfter calls) (storeAfter calls') := by
  intro h
  have hagree : Agree (storeAfter [markedPut (str "a") 1]) (storeAfter [markedPut (str "b") 1]) := by
    unfold Agree
    decide
  have hsame := h _ _ hagree (some { includeRedacted := true }) none ⟨rfl, rfl⟩ rfl
  revert hsame
  decide

end SmolClaw.Memory
