/-
  Ranked search and retention (`sc_memory_store_search`, `sc_memory_apply_retention`,
  `src/memory/memory_common.c`).

  1. **Rank** — `sc_memory_entry_compare_desc` compares five keys in a row.  Where no score is a NaN it is
     the lexicographic order of one tuple, `MemoryEntry.rank` (`entryCompareDesc_rank`).

  2. **`qsort`** — any function that sorts by the comparator (`SortsEntries`): C leaves the order of
     entries that compare equal open, and so do the results here.  Two entries of ONE namespace never
     compare equal, because their keys differ.

  3. **Search** — the bytes loop keeps the longest prefix that fits (`takeBytes_longest`), and so a search
     is exact (`storeSearchWith_exact`).

  4. **Retention** — it forgets by namespace and key what ranks behind the first `n`; in a table that
     blanks exactly these rows (`forgetEach_eq_map`), whatever else the store holds
     (`memory_exact`).
-/
import SmolClaw.Lib.Ranking
import SmolClaw.Memory.Snapshot

namespace SmolClaw.Memory

open Lib.Run Lib.Table Lib.Ranking

/-! ## Program -/

/-- `sc_memory_store_search`, with the `qsort` of the platform. -/
def storeSearchWith (qsort : List MemoryEntry → List MemoryEntry) (store : MemoryStore)
    (query : Option MemoryQuery) : Res (List MemoryEntry) := do
  validateQuery query
  let found := takeCap (resultCap query) (qsort (store.filter (queryMatchesEntry query)))
  .ok (match query with
    | some q => if 0 < q.maxTotalResultBytes then takeBytes q.maxTotalResultBytes 0 found else found
    | none => found)

/-- The loop of `sc_memory_apply_retention`: it stops at a `forget` that fails. -/
def forgetEach (namespaceName : Bytes) : MemoryStore → List MemoryEntry → MemoryStore × Res Unit
  | store, [] => (store, .ok ())
  | store, e :: rest =>
    match storeForget store namespaceName e.key with
    | .error err => (store, .error err)
    | .ok store' => forgetEach namespaceName store' rest

/-- `sc_memory_apply_retention` -/
def applyRetention (qsort : List MemoryEntry → List MemoryEntry) (store : MemoryStore)
    (namespaceName : Bytes) (maxEntries : Nat) : MemoryStore × Res Unit :=
  if namespaceName = [] then (store, Status.invalidArgument "sc.memory.retention_invalid_argument")
  else
    match storeSearchWith qsort store (some { namespaceName }) with
    | .error err => (store, .error err)
    | .ok found => forgetEach namespaceName store (found.drop maxEntries)

/-! ## Rank -/

/-- What entries are ranked by: score, importance and time descending, then key and id ascending. -/
def MemoryEntry.rank (e : MemoryEntry) : ℤ ×ₗ ℤ ×ₗ ℤ ×ₗ List ℕ ×ₗ List ℕ :=
  toLex (-e.score.position, toLex (-e.importance.toInt, toLex (-e.timestamp.toInt,
    toLex (e.key.map UInt8.toNat, e.id.map UInt8.toNat))))

/-- `compare_str` is the lexicographic order of the bytes. -/
theorem compareStr_tells (a : Bytes) :
    ∀ b : Bytes, Tells (compareStr a b) (a.map UInt8.toNat) (b.map UInt8.toNat) := by
  induction a with
  | nil =>
    intro b
    cases b with
    | nil => rfl
    | cons d b => exact List.Lex.nil
  | cons c a ih =>
    intro b
    cases b with
    | nil => exact List.Lex.nil
    | cons d b =>
      rw [compareStr]
      split
      · next hlt => exact List.Lex.rel (UInt8.lt_iff_toNat_lt.mp hlt)
      · next hle =>
        split
        · next hgt => exact List.Lex.rel (UInt8.lt_iff_toNat_lt.mp hgt)
        · next hge =>
          obtain rfl : c = d := UInt8.le_antisymm (UInt8.not_lt.mp hge) (UInt8.not_lt.mp hle)
          have hrest := ih b
          revert hrest
          cases compareStr a b with
          | lt => exact List.Lex.cons
          | gt => exact List.Lex.cons
          | eq => exact congrArg (c.toNat :: ·)

/-- A comparison of scores that are no NaNs is one of positions. -/
theorem score_lt_iff {a b : Double} (ha : a.isNaN = false) (hb : b.isNaN = false) :
    a.lt b = true ↔ a.position < b.position := by
  rw [Double.lt, ha, hb]
  exact decide_eq_true_iff

/-- **The comparator is the order of the ranks**, where no score is a NaN. -/
theorem entryCompareDesc_rank {a b : MemoryEntry} (ha : a.score.isNaN = false) (hb : b.score.isNaN = false) :
    Tells (entryCompareDesc a b) a.rank b.rank :=
  .descending (score_lt_iff ha hb) (score_lt_iff hb ha) fun _ =>
    .descending Int64.lt_iff_toInt_lt Int64.lt_iff_toInt_lt fun _ =>
      .descending Int64.lt_iff_toInt_lt Int64.lt_iff_toInt_lt fun _ =>
        (compareStr_tells a.key b.key).then fun _ => compareStr_tells a.id b.id

/-- What `qsort` does: it arranges, and in the order of the comparator where that is one. -/
structure SortsEntries (qsort : List MemoryEntry → List MemoryEntry) : Prop where
  perm : ∀ es, (qsort es).Perm es
  ordered : ∀ es, (∀ e ∈ es, e.score.isNaN = false) →
    (qsort es).Pairwise fun a b => (entryCompareDesc a b).isLE = true

/-- A stable sort is one. -/
theorem sortEntries_sorts : SortsEntries sortEntries where
  perm := sortEntries_perm
  ordered es h := by
    have htells : ∀ a ∈ es, ∀ b ∈ es, Tells (entryCompareDesc a b) a.rank b.rank :=
      fun a ha b hb => entryCompareDesc_rank (h a ha) (h b hb)
    have hranked : Ranked MemoryEntry.rank es (sortEntries es) := sorted_insertionSort htells
    refine hranked.sorted.imp_of_mem fun {a b} ha hb hle => ?_
    exact (htells a (hranked.perm.mem_iff.mp ha) b (hranked.perm.mem_iff.mp hb)).isLE_iff.mpr hle

/-- What `qsort` arranges is ranked. -/
theorem SortsEntries.ranked {qsort : List MemoryEntry → List MemoryEntry} (hq : SortsEntries qsort)
    {es : List MemoryEntry} (h : ∀ e ∈ es, e.score.isNaN = false) :
    Ranked MemoryEntry.rank es (qsort es) := by
  refine ⟨hq.perm es, (hq.ordered es h).imp_of_mem ?_⟩
  intro a b ha hb hle
  have ha' := h a ((hq.perm es).mem_iff.mp ha)
  have hb' := h b ((hq.perm es).mem_iff.mp hb)
  exact (entryCompareDesc_rank ha' hb').isLE_iff.mp hle

/-! ## Search -/

/-- **The bytes loop** keeps the longest prefix that fits. -/
theorem takeBytes_longest (es : List MemoryEntry) :
    ∀ total room : Nat,
      LongestWithin MemoryEntry.resultBytes room es (takeBytes (total + room) total es) := by
  induction es with
  | nil => intro total room; exact .nil _ room
  | cons e es ih =>
    intro total room
    show LongestWithin _ _ _ (if total + room < total + e.resultBytes then _ else _)
    split
    · next hover => exact .stop _ (by omega) es
    · next hfits =>
      obtain ⟨more, rfl⟩ : ∃ more, room = e.resultBytes + more := ⟨room - e.resultBytes, by omega⟩
      rw [← Nat.add_assoc]
      exact (ih (total + e.resultBytes) more).cons

/-- The number of entries a query wants: `max_results`, else `limit`, 0 for all. -/
def MemoryQuery.wanted (q : MemoryQuery) : Nat := if q.maxResults > 0 then q.maxResults else q.limit

/-- The first entries of a ranking, all of them for 0. -/
def firstOf (wanted : Nat) (ranked : List MemoryEntry) : List MemoryEntry :=
  if wanted = 0 then ranked else ranked.take wanted

/-- What a search owes a query: of the ranked matching entries the first ones wanted, as many as fit the
    bytes. -/
def ExactSearch (store : MemoryStore) (q : MemoryQuery) (found : List MemoryEntry) : Prop :=
  ∃ ranked, Ranked MemoryEntry.rank (store.filter (queryMatchesEntry (some q))) ranked ∧
    (q.maxTotalResultBytes = 0 → found = firstOf q.wanted ranked) ∧
    (0 < q.maxTotalResultBytes →
      LongestWithin MemoryEntry.resultBytes q.maxTotalResultBytes (firstOf q.wanted ranked) found)

/-- The cut at the number of entries is `firstOf`. -/
theorem takeCap_eq (q : MemoryQuery) (ranked : List MemoryEntry) :
    takeCap (resultCap (some q)) ranked = firstOf q.wanted ranked := by
  show takeCap (if 0 < q.wanted then some q.wanted else none) ranked = _
  rw [firstOf]
  split
  · next hpos => rw [if_neg (by omega)]; rfl
  · next hzero => rw [if_pos (by omega)]; rfl

/-- **A search is exact.** -/
theorem storeSearchWith_exact {qsort : List MemoryEntry → List MemoryEntry} (hq : SortsEntries qsort)
    {store : MemoryStore} (hscores : ∀ e ∈ store, e.score.isNaN = false) {q : MemoryQuery}
    (hvalid : validateQuery (some q) = .ok ()) :
    ∃ found, storeSearchWith qsort store (some q) = .ok found ∧ ExactSearch store q found := by
  have hranked : Ranked MemoryEntry.rank (store.filter (queryMatchesEntry (some q)))
      (qsort (store.filter (queryMatchesEntry (some q)))) :=
    hq.ranked fun e he => hscores e (List.mem_of_mem_filter he)
  rw [storeSearchWith, hvalid]
  refine ⟨_, rfl, _, hranked, fun hzero => ?_, fun hpos => ?_⟩
  · dsimp only
    rw [hzero, if_neg (Nat.lt_irrefl 0), takeCap_eq]
  · dsimp only
    rw [if_pos hpos, takeCap_eq]
    have hlongest := takeBytes_longest
      (firstOf q.wanted (qsort (store.filter (queryMatchesEntry (some q))))) 0 q.maxTotalResultBytes
    rwa [Nat.zero_add] at hlongest

/-! ## Retention -/

/-- A live entry of the namespace. -/
def liveIn (namespaceName : Bytes) (e : MemoryEntry) : Bool := e.namespaceName == namespaceName && e.live

/-- The query of retention finds the live entries of the namespace. -/
theorem retentionQuery_matches {namespaceName : Bytes} (hne : namespaceName ≠ []) (e : MemoryEntry) :
    queryMatchesEntry (some { namespaceName }) e = liveIn namespaceName e := by
  have hset : namespaceName.isEmpty = false := List.isEmpty_eq_false_iff.mpr hne
  simp only [queryMatchesEntry, liveIn, MemoryEntry.live, hset]
  cases e.supersededById.isEmpty <;> cases e.redactionState <;>
    cases e.namespaceName == namespaceName <;> rfl

/-- An entry after the keys of a namespace have been forgotten. -/
def forgotten (namespaceName : Bytes) (keys : List Bytes) (e : MemoryEntry) : MemoryEntry :=
  if e.namespaceName = namespaceName ∧ e.key ∈ keys then e.blank .deleted else e

/-- One key more. -/
theorem forgotten_cons (namespaceName key : Bytes) (keys : List Bytes) (e : MemoryEntry) :
    forgotten namespaceName keys
        (if namespaceKeyEqual namespaceName key e then e.blank .deleted else e) =
      forgotten namespaceName (key :: keys) e := by
  by_cases hname : e.namespaceName = namespaceName
  · by_cases hkey : e.key = key
    · have hfirst : namespaceKeyEqual namespaceName key e = true := by
        rw [namespaceKeyEqual, hname, hkey, beq_self_eq_true, beq_self_eq_true]
        rfl
      have hnow : e.namespaceName = namespaceName ∧ e.key ∈ key :: keys :=
        ⟨hname, hkey ▸ List.mem_cons_self⟩
      rw [if_pos hfirst, forgotten, forgotten, if_pos hnow]
      split <;> rfl
    · have hfirst : ¬ namespaceKeyEqual namespaceName key e = true := by
        rw [namespaceKeyEqual, Bool.and_eq_true, beq_iff_eq, beq_iff_eq]
        exact fun h => hkey h.2
      rw [if_neg hfirst, forgotten, forgotten]
      refine if_congr (and_congr_right fun _ => ?_) rfl rfl
      rw [List.mem_cons, or_iff_right hkey]
  · have hfirst : ¬ namespaceKeyEqual namespaceName key e = true := by
      rw [namespaceKeyEqual, Bool.and_eq_true, beq_iff_eq, beq_iff_eq]
      exact fun h => hname h.1
    rw [if_neg hfirst, forgotten, forgotten, if_neg fun h => hname h.1, if_neg fun h => hname h.1]

/-- **Forgetting one by one** blanks the rows with the keys that are dropped, and no others. -/
theorem forgetEach_eq_map {namespaceName : Bytes} (hne : namespaceName ≠ []) (dropped : List MemoryEntry) :
    ∀ {store : MemoryStore}, Keyed MemoryEntry.slot store → (∀ e ∈ dropped, e.key ≠ []) →
      forgetEach namespaceName store dropped =
        (store.map (forgotten namespaceName (dropped.map (·.key))), .ok ()) := by
  induction dropped with
  | nil =>
    intro store _ _
    have hsame : ∀ e ∈ store, forgotten namespaceName [] e = id e :=
      fun e _ => if_neg fun h => List.not_mem_nil h.2
    rw [forgetEach, List.map_nil, List.map_congr_left hsame, List.map_id]
  | cons d dropped ih =>
    intro store hk hkeys
    have hforget : storeForget store namespaceName d.key =
        .ok (amend (namespaceKeyEqual namespaceName d.key) (MemoryEntry.blank .deleted) store) :=
      if_neg (not_or.mpr ⟨hne, hkeys d List.mem_cons_self⟩)
    have hslot : ∀ e : MemoryEntry, namespaceKeyEqual namespaceName d.key e = true →
        e.slot = (namespaceName, d.key) := by
      intro e he
      rw [namespaceKeyEqual, Bool.and_eq_true, beq_iff_eq, beq_iff_eq] at he
      exact Prod.ext he.1 he.2
    have hkeyed : Keyed MemoryEntry.slot
        (amend (namespaceKeyEqual namespaceName d.key) (MemoryEntry.blank .deleted) store) :=
      hk.amend fun _ => rfl
    have hrest : ∀ e ∈ dropped, e.key ≠ [] := fun e he => hkeys e (List.mem_cons_of_mem d he)
    rw [forgetEach, hforget]
    dsimp only
    rw [ih hkeyed hrest, hk.amend_eq_map hslot, List.map_map]
    exact congrArg (·, _) (List.map_congr_left fun e _ => forgotten_cons namespaceName d.key _ e)

/-- What retention owes a store: the first `n` live entries of the namespace stay live, no other does,
    and nothing else changes. -/
def ExactRetention (namespaceName : Bytes) (n : Nat) (store after : MemoryStore) : Prop :=
  ∃ ranked, Ranked MemoryEntry.rank (store.filter (liveIn namespaceName)) ranked ∧
    (after.filter (liveIn namespaceName)).Perm (ranked.take n) ∧
    List.Forall₂ (fun e e' => liveIn namespaceName e = false → e' = e) store after

/-- In a table, the keys behind the first `n` are those of the live entries that are not among these. -/
theorem dropped_key_iff {store : MemoryStore} (hk : Keyed MemoryEntry.slot store) {namespaceName : Bytes}
    {ranked : List MemoryEntry} (hperm : ranked.Perm (store.filter (liveIn namespaceName))) (n : Nat)
    {e : MemoryEntry} (he : e ∈ store) :
    (e.namespaceName = namespaceName ∧ e.key ∈ (ranked.drop n).map (·.key)) ↔
      liveIn namespaceName e = true ∧ e ∉ ranked.take n := by
  have hlive : ∀ d ∈ ranked, d ∈ store ∧ liveIn namespaceName d = true :=
    fun d hd => List.mem_filter.mp (hperm.mem_iff.mp hd)
  have hnodup : ranked.Nodup := hperm.nodup_iff.mpr ((hk.filter _).of_map _)
  constructor
  · rintro ⟨hname, hkey⟩
    obtain ⟨d, hd, hdkey⟩ := List.mem_map.mp hkey
    obtain ⟨hdstore, hdlive⟩ := hlive d (List.mem_of_mem_drop hd)
    have hdname : d.namespaceName = namespaceName := by
      rw [liveIn, Bool.and_eq_true, beq_iff_eq] at hdlive
      exact hdlive.1
    obtain rfl : d = e := hk.eq_of_mem hdstore he (Prod.ext (hdname.trans hname.symm) hdkey)
    exact ⟨hdlive, fun htake => List.disjoint_take_drop hnodup (le_refl n) htake hd⟩
  · rintro ⟨helive, htake⟩
    have hmem : e ∈ ranked.take n ++ ranked.drop n := by
      rw [List.take_append_drop]
      exact hperm.mem_iff.mpr (List.mem_filter.mpr ⟨he, helive⟩)
    rw [liveIn, Bool.and_eq_true, beq_iff_eq] at helive
    exact ⟨helive.1, List.mem_map_of_mem ((List.mem_append.mp hmem).resolve_left htake)⟩

/-- A forgotten entry is live no more. -/
theorem not_live_blank (namespaceName : Bytes) (e : MemoryEntry) :
    liveIn namespaceName (e.blank .deleted) = false := by
  rw [liveIn, MemoryEntry.live, show (e.blank .deleted).redactionState = .deleted from rfl,
    show (RedactionState.deleted == RedactionState.none) = false from rfl, Bool.and_false, Bool.and_false]

/-- **What stays**: forgetting the keys behind the first `n` is exact. -/
theorem exact_of_forgotten {store : MemoryStore} (hk : Keyed MemoryEntry.slot store) {namespaceName : Bytes}
    {ranked : List MemoryEntry}
    (hranked : Ranked MemoryEntry.rank (store.filter (liveIn namespaceName)) ranked) (n : Nat) :
    ExactRetention namespaceName n store
      (store.map (forgotten namespaceName ((ranked.drop n).map (·.key)))) := by
  have hiff := fun {e} => dropped_key_iff (e := e) hk hranked.perm n
  refine ⟨ranked, hranked, ?_, ?_⟩
  · have hkept : ∀ e, e ∈ (store.map (forgotten namespaceName ((ranked.drop n).map (·.key)))).filter
        (liveIn namespaceName) ↔ e ∈ ranked.take n := by
      intro e
      rw [List.mem_filter, List.mem_map]
      constructor
      · rintro ⟨⟨d, hd, rfl⟩, hlive⟩
        rw [forgotten] at hlive ⊢
        split at hlive
        · rw [not_live_blank] at hlive
          cases hlive
        · next hkeep =>
          rw [if_neg hkeep]
          by_contra htake
          exact hkeep ((hiff hd).mpr ⟨hlive, htake⟩)
      · intro htake
        obtain ⟨hestore, helive⟩ := List.mem_filter.mp (hranked.perm.mem_iff.mp (List.mem_of_mem_take htake))
        exact ⟨⟨e, hestore, if_neg fun h => ((hiff hestore).mp h).2 htake⟩, helive⟩
    have hslots : ∀ e, (forgotten namespaceName ((ranked.drop n).map (·.key)) e).slot = e.slot := by
      intro e
      rw [forgotten]
      split <;> rfl
    have hkeyed : Keyed MemoryEntry.slot
        (store.map (forgotten namespaceName ((ranked.drop n).map (·.key)))) := by
      have hmap : store.map (MemoryEntry.slot ∘ forgotten namespaceName ((ranked.drop n).map (·.key))) =
          store.map MemoryEntry.slot := List.map_congr_left fun e _ => hslots e
      rw [Keyed, List.map_map, hmap]
      exact hk
    have hnodup : ranked.Nodup := hranked.perm.nodup_iff.mpr ((hk.filter _).of_map _)
    exact (List.perm_ext_iff_of_nodup ((hkeyed.filter _).of_map _)
      (hnodup.sublist (List.take_sublist n ranked))).mpr hkept
  · refine List.forall₂_map_right_iff.mpr (List.forall₂_same.mpr fun e he hother => if_neg fun h => ?_)
    rw [((hiff he).mp h).1] at hother
    cases hother

/-- Where no live entry is in the namespace, a store that stays as it is is exact. -/
theorem exact_of_none {store : MemoryStore} {namespaceName : Bytes}
    (h : ∀ e ∈ store, e.namespaceName ≠ namespaceName) (n : Nat) :
    ExactRetention namespaceName n store store := by
  have hnone : store.filter (liveIn namespaceName) = [] := by
    refine List.filter_eq_nil_iff.mpr fun e he hlive => ?_
    rw [liveIn, Bool.and_eq_true, beq_iff_eq] at hlive
    exact h e he hlive.1
  refine ⟨[], ?_, ?_, List.forall₂_same.mpr fun _ _ _ => rfl⟩
  · rw [hnone]
    exact ⟨List.Perm.refl [], List.Pairwise.nil⟩
  · rw [hnone, List.take_nil]

/-- The namespace of an entry passes the check of the query. -/
theorem retentionQuery_valid {namespaceName : Bytes} (h : TextOk namespaceName maxNamespaceBytes) :
    validateQuery (some { namespaceName }) = .ok () := by
  have hempty : ∀ maxLen errorKey, validateTextField [] maxLen errorKey = .ok () :=
    fun _ _ => validateTextField_ok.mpr ⟨Nat.zero_le _, rfl⟩
  rw [validateQuery, if_neg fun h => absurd h.1 (Nat.lt_irrefl 0), validateTextField_ok.mpr h, hempty, hempty,
    hempty]
  rfl

/-- **Retention is exact.** -/
theorem applyRetention_exact {qsort : List MemoryEntry → List MemoryEntry} (hq : SortsEntries qsort)
    {store : MemoryStore} (hstore : StoreOk store) (hscores : ∀ e ∈ store, e.score.isNaN = false)
    (namespaceName : Bytes) (n : Nat) :
    ExactRetention namespaceName n store (applyRetention qsort store namespaceName n).1 := by
  rw [applyRetention]
  split
  · next hempty =>
    refine exact_of_none (fun e he hname => ?_) n
    exact (hstore.entries e he).record.namespaceName_ne (hname.trans hempty)
  next hne =>
    cases hvalid : validateQuery (some { namespaceName }) with
    | error err =>
      -- a namespace that fails the check has no entries
      have hsearch : storeSearchWith qsort store (some { namespaceName }) = .error err := by
        rw [storeSearchWith, hvalid]
        rfl
      rw [hsearch]
      refine exact_of_none (fun e he hname => ?_) n
      have htext : TextOk e.namespaceName maxNamespaceBytes := (hstore.entries e he).record.namespaceName
      rw [hname] at htext
      rw [retentionQuery_valid htext] at hvalid
      exact nomatch hvalid
    | ok _ =>
      have hmatch : store.filter (queryMatchesEntry (some { namespaceName })) =
          store.filter (liveIn namespaceName) :=
        List.filter_congr fun e _ => retentionQuery_matches hne e
      have hsearch : storeSearchWith qsort store (some { namespaceName }) =
          .ok (qsort (store.filter (liveIn namespaceName))) := by
        rw [storeSearchWith, hvalid, hmatch]
        rfl
      have hranked : Ranked MemoryEntry.rank (store.filter (liveIn namespaceName))
          (qsort (store.filter (liveIn namespaceName))) :=
        hq.ranked fun e he => hscores e (List.mem_of_mem_filter he)
      have hkeys : ∀ e ∈ (qsort (store.filter (liveIn namespaceName))).drop n, e.key ≠ [] := by
        intro e he
        have hmem := hranked.perm.mem_iff.mp (List.mem_of_mem_drop he)
        exact (hstore.entries e (List.mem_of_mem_filter hmem)).record.key_ne
      rw [hsearch]
      dsimp only
      rw [forgetEach_eq_map hne _ hstore.keyed hkeys]
      exact exact_of_forgotten hstore.keyed hranked n

/-- **Memory search and retention are exact**: in every store that puts, forgets, redactions and purges
    reach, and whatever `qsort` makes of entries that compare equal. -/
theorem memory_exact {qsort : List MemoryEntry → List MemoryEntry} (hq : SortsEntries qsort)
    (calls : List StoreCall) (hscores : ∀ e ∈ storeAfter calls, e.score.isNaN = false) :
    Keyed MemoryEntry.slot (storeAfter calls) ∧
      (∀ q, validateQuery (some q) = .ok () →
        ∃ found, storeSearchWith qsort (storeAfter calls) (some q) = .ok found ∧
          ExactSearch (storeAfter calls) q found) ∧
      ∀ namespaceName n, ExactRetention namespaceName n (storeAfter calls)
        (applyRetention qsort (storeAfter calls) namespaceName n).1 :=
  ⟨(storeAfter_storeOk calls).keyed, fun _ hvalid => storeSearchWith_exact hq hscores hvalid,
    applyRetention_exact hq (storeAfter_storeOk calls) hscores⟩

/-- Four live entries of one namespace, which rank by their keys, and one of another. -/
def rankedCalls : List StoreCall :=
  [("n", "c", "c"), ("n", "a", "aaa"), ("m", "a", "x"), ("n", "b", "bb"), ("n", "d", "dddd")].map fun call =>
    samplePut (str call.1) (str call.2.1) (str call.2.2) []

/-- At most three entries and five bytes: two entries are as long. -/
def budgetQuery : MemoryQuery := { namespaceName := str "n", limit := 3, maxTotalResultBytes := 5 }

/-- Sorted stably, the search finds the first two of the namespace, and retention leaves them. -/
theorem memory_exact_sample :
    (∃ found, storeSearch (storeAfter rankedCalls) (some budgetQuery) = .ok found ∧
      found.map MemoryEntry.key = [str "a", str "b"] ∧ ExactSearch (storeAfter rankedCalls) budgetQuery found) ∧
    ((applyRetention sortEntries (storeAfter rankedCalls) (str "n") 2).1.filter (liveIn (str "n"))).map
      MemoryEntry.key = [str "a", str "b"] ∧
    ExactRetention (str "n") 2 (storeAfter rankedCalls)
      (applyRetention sortEntries (storeAfter rankedCalls) (str "n") 2).1 := by
  have hscores : ∀ e ∈ storeAfter rankedCalls, e.score.isNaN = false := by decide
  obtain ⟨-, hsearch, hretention⟩ := memory_exact sortEntries_sorts rankedCalls hscores
  obtain ⟨found, hfound, hexact⟩ := hsearch budgetQuery (by decide)
  have hkeys : (storeSearch (storeAfter rankedCalls) (some budgetQuery)).map (List.map MemoryEntry.key) =
      .ok [str "a", str "b"] := by decide
  refine ⟨⟨found, hfound, ?_, hexact⟩, by decide, hretention (str "n") 2⟩
  rw [show storeSearch (storeAfter rankedCalls) (some budgetQuery) = .ok found from hfound] at hkeys
  exact Except.ok.inj hkeys

end SmolClaw.Memory
