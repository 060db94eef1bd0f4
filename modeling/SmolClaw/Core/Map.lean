/-
  The hash map of the core library (`src/core/map.c`).

  1. **Program** — open addressing: `mapSlot` looks for a key from its home slot on.  A put grows the
     map first if one more entry passes 70 percent of the slots; growing puts the entries, in the order
     of their slots, into a row of twice the size.  There is no removal.

  2. **What is a parameter** — the values, `void *`.  Allocation does not fail, but a size that
     `size_t` cannot hold is refused.  A `none` around a result is a loop that does not end.

  3. **Result** — `scMap_faithful`: every call returns, and after any puts the map answers what the
     last put of each key says; growing changes no answer.  A put is refused only with 2^57 keys or more.
-/
import SmolClaw.Core.Status
import SmolClaw.Lib.Probing

namespace SmolClaw

open Lib.Probing

variable {V : Type}

/-! ## The map -/

/-- `sc_map`: its slots, an empty one without an entry, and the number of entries. -/
structure ScMap (V : Type) where
  entries : List (Option (Bytes × V))
  len : Nat

/-- `sc_map_init` -/
def mapInit : ScMap V := { entries := [], len := 0 }

/-- The slots a map has room for. -/
def ScMap.cap (map : ScMap V) : Nat := map.entries.length

/-- `hash_str` -/
def hashStr (key : Bytes) : UInt64 :=
  key.foldl (fun hash b => (hash ^^^ b.toUInt64) * 1099511628211) 1469598103934665603

/-- The hash of a key as a number. -/
def slotHash (key : Bytes) : Nat := (hashStr key).toNat

/-- `map_slot`: the slot the loop stops at, and whether the key is there. -/
def mapSlot (map : ScMap V) (key : Bytes) : Option (Nat × Bool) := find slotHash map.entries key

/-- `SC_MAP_INITIAL_CAP` -/
def mapInitialCap : Nat := 8

/-- `SC_MAP_MAX_LOAD_PERCENT` -/
def mapMaxLoadPercent : Nat := 70

/-- `sizeof(sc_map_entry)` on a machine of 64 bits. -/
def sizeofMapEntry : Nat := 40

/-- The number of entries from which on `map_needs_growth` holds. -/
def mapThreshold (cap : Nat) : Nat :=
  let threshold :=
    if sizeMax / mapMaxLoadPercent < cap then cap - cap / 100 * (100 - mapMaxLoadPercent)
    else cap * mapMaxLoadPercent / 100
  if threshold = 0 then 1 else threshold

/-- `map_needs_growth` -/
def mapNeedsGrowth (map : ScMap V) : Bool := map.cap = 0 || mapThreshold map.cap < map.len + 1

/-- `map_insert_owned` -/
def mapInsertOwned (map : ScMap V) (entry : Bytes × V) : Option (ScMap V) :=
  match mapSlot map entry.1 with
  | none => none
  | some (slot, true) => some { map with entries := map.entries.set slot (some entry) }
  | some (slot, false) =>
      some { entries := map.entries.set slot (some entry), len := map.len + 1 }

/-- The size of the row `map_grow` allocates. -/
def nextCap (cap : Nat) : Nat := if cap = 0 then mapInitialCap else cap * 2

/-- `map_grow` -/
def mapGrow (map : ScMap V) : Option (Res (ScMap V)) :=
  if sizeMax < nextCap map.cap * sizeofMapEntry then some Status.noMemory
  else
    let next : ScMap V := { entries := List.replicate (nextCap map.cap) none, len := 0 }
    ((map.entries.filterMap id).foldlM mapInsertOwned next).map .ok

/-- `sc_map_put`; a call that fails leaves the map as it was. -/
def mapPut (map : ScMap V) (entry : Bytes × V) : Option (Res (ScMap V)) :=
  if map.len = sizeMax then some Status.noMemory
  else
    match (if mapNeedsGrowth map then mapGrow map else some (.ok map)) with
    | none => none
    | some (.error e) => some (.error e)
    | some (.ok map) => (mapInsertOwned map entry).map .ok

/-- `sc_map_get`; `none` inside is the null pointer. -/
def mapGet (map : ScMap V) (key : Bytes) : Option (Option V) :=
  if map.cap = 0 then some none else get slotHash map.entries key

/-- `sc_map_contains` -/
def mapContains (map : ScMap V) (key : Bytes) : Option Bool :=
  if map.cap = 0 then some false else (mapSlot map key).map Prod.snd

/-- Calls of `sc_map_put`, one after the other, up to the first that fails. -/
def mapPuts (map : ScMap V) : List (Bytes × V) → Option (Res (ScMap V))
  | [] => some (.ok map)
  | entry :: entries =>
      match mapPut map entry with
      | none => none
      | some (.error e) => some (.error e)
      | some (.ok map) => mapPuts map entries

/-! ## Insertion -/

/-- The length counts the occupied slots. -/
def Counted (map : ScMap V) : Prop := map.len = map.entries.countP Option.isSome

/-- `map_insert_owned` fills the slot of the entry and keeps count. -/
theorem mapInsertOwned_of_insert {map : ScMap V} {entry : Bytes × V} {entries : List (Option (Bytes × V))}
    (hcount : Counted map) (hinsert : Lib.Probing.insert slotHash map.entries entry = some entries) :
    ∃ map', mapInsertOwned map entry = some map' ∧ map'.entries = entries ∧ Counted map' := by
  obtain ⟨⟨slot, found⟩, hfind, rfl⟩ := Option.map_eq_some_iff.mp hinsert
  have hslot : mapSlot map entry.1 = some (slot, found) := hfind
  have hpos : 0 < map.entries.length := by
    by_contra hzero
    have hlen : map.entries.length = 0 := by omega
    rw [find, hlen, probe] at hfind
    cases hfind
  have hstop := probe_stop (Nat.mod_lt _ hpos) hfind
  cases found with
  | true =>
    obtain ⟨old, hold⟩ := hstop
    obtain ⟨hlt, hget⟩ := List.getElem?_eq_some_iff.mp hold
    have hone : 0 < map.entries.countP Option.isSome :=
      List.countP_pos_iff.mpr ⟨_, List.mem_of_getElem? hold, rfl⟩
    refine ⟨{ map with entries := map.entries.set slot (some entry) }, ?_, rfl, ?_⟩
    · rw [mapInsertOwned, hslot]
    · show map.len = (map.entries.set slot (some entry)).countP Option.isSome
      rw [List.countP_set hlt, hget, hcount]
      simp
      omega
  | false =>
    obtain ⟨hlt, hget⟩ := List.getElem?_eq_some_iff.mp hstop
    refine ⟨{ entries := map.entries.set slot (some entry), len := map.len + 1 }, ?_, rfl, ?_⟩
    · rw [mapInsertOwned, hslot]
    · show map.len + 1 = (map.entries.set slot (some entry)).countP Option.isSome
      rw [List.countP_set hlt, hget, hcount]
      simp

theorem foldlM_mapInsertOwned {added : List (Bytes × V)} :
    ∀ {map : ScMap V} {entries : List (Option (Bytes × V))}, Counted map →
      insertAll slotHash map.entries added = some entries →
      ∃ map', added.foldlM mapInsertOwned map = some map' ∧ map'.entries = entries ∧ Counted map' := by
  induction added with
  | nil =>
    intro map entries hcount h
    exact ⟨map, rfl, Option.some.inj h, hcount⟩
  | cons entry added ih =>
    intro map entries hcount h
    rw [insertAll, List.foldlM_cons] at h
    obtain ⟨next, hinsert, hrest⟩ := Option.bind_eq_some_iff.mp h
    obtain ⟨map₁, hmap₁, rfl, hcount₁⟩ := mapInsertOwned_of_insert hcount hinsert
    obtain ⟨map₂, hmap₂, hentries, hcount₂⟩ := ih hcount₁ hrest
    refine ⟨map₂, ?_, hentries, hcount₂⟩
    rw [List.foldlM_cons, hmap₁]
    exact hmap₂

/-! ## The invariant -/

/-- A map that holds puts: it has no slots yet, or its slots hold them and one of them is empty. -/
structure MapHolds (map : ScMap V) (puts : List (Bytes × V)) : Prop where
  holds : Holds slotHash map.entries puts
  counted : Counted map
  room : map.cap = 0 ∨ (mapInitialCap ≤ map.cap ∧ (keys puts).card < map.cap)

theorem MapHolds.len_eq {map : ScMap V} {puts : List (Bytes × V)} (h : MapHolds map puts) :
    map.len = (keys puts).card := h.counted.trans h.holds.count

theorem mapInit_holds : MapHolds (mapInit : ScMap V) [] :=
  ⟨holds_replicate slotHash 0, rfl, Or.inl rfl⟩

/-- A map without slots holds no puts. -/
theorem MapHolds.lastPut_none {map : ScMap V} {puts : List (Bytes × V)} (h : MapHolds map puts)
    (hcap : map.cap = 0) (key : Bytes) : lastPut puts key = none := by
  by_contra hput
  obtain ⟨value, hvalue⟩ := Option.ne_none_iff_exists'.mp hput
  have hmem := (h.holds.entries key value).mpr hvalue
  rw [List.length_eq_zero_iff.mp hcap] at hmem
  exact absurd hmem List.not_mem_nil

/-- **Look-up** answers the last put. -/
theorem MapHolds.mapGet_eq {map : ScMap V} {puts : List (Bytes × V)} (h : MapHolds map puts)
    (key : Bytes) : mapGet map key = some (lastPut puts key) := by
  rw [mapGet]
  rcases h.room with hcap | ⟨hcap, hroom⟩
  · rw [if_pos hcap, h.lastPut_none hcap]
  · have hpos : map.cap ≠ 0 := by
      rw [mapInitialCap] at hcap
      omega
    rw [if_neg hpos]
    exact h.holds.get_eq hroom key

theorem MapHolds.mapContains_eq {map : ScMap V} {puts : List (Bytes × V)} (h : MapHolds map puts)
    (key : Bytes) : mapContains map key = some (decide (key ∈ puts.map Prod.fst)) := by
  have hmem : key ∈ puts.map Prod.fst ↔ lastPut puts key ≠ none := by
    rw [Ne, lastPut_eq_none, not_not]
  rw [mapContains]
  rcases h.room with hcap | ⟨hcap, hroom⟩
  · rw [if_pos hcap, decide_eq_false]
    rw [hmem, h.lastPut_none hcap]
    exact fun hne => hne rfl
  · have hpos : map.cap ≠ 0 := by
      rw [mapInitialCap] at hcap
      omega
    have hget := h.holds.get_eq hroom key
    rw [if_neg hpos, mapSlot]
    obtain ⟨⟨slot, found⟩, hfind, hvalue⟩ := Option.map_eq_some_iff.mp hget
    have hstop := probe_stop (Nat.mod_lt _ (Nat.pos_of_ne_zero hpos)) hfind
    rw [hfind, Option.map_some]
    cases found with
    | true =>
      obtain ⟨old, hold⟩ := hstop
      have hput : lastPut puts key = some old := by
        rw [← hvalue, if_pos rfl, hold]
        rfl
      rw [decide_eq_true]
      rw [hmem, hput]
      exact fun hne => nomatch hne
    | false =>
      rw [decide_eq_false]
      rw [hmem, ← hvalue, if_neg Bool.false_ne_true]
      exact fun hne => hne rfl

/-! ## Growth -/

/-- The threshold is about 70 percent, and below it one more entry leaves an empty slot. -/
theorem mapThreshold_spec {cap : Nat} (h : mapInitialCap ≤ cap) :
    mapThreshold cap < cap ∧ 7 * cap < 10 * (mapThreshold cap + 1) := by
  have hcap : 8 ≤ cap := h
  by_cases hbig : sizeMax / mapMaxLoadPercent < cap
  · simp only [mapThreshold, if_pos hbig]
    rw [mapMaxLoadPercent, sizeMax] at hbig
    rw [mapMaxLoadPercent, if_neg (by omega)]
    constructor
    · omega
    · omega
  · simp only [mapThreshold, if_neg hbig]
    rw [mapMaxLoadPercent, if_neg (by omega)]
    constructor
    · omega
    · omega

theorem MapHolds.keys_empty {map : ScMap V} {puts : List (Bytes × V)} (h : MapHolds map puts)
    (hcap : map.cap = 0) : (keys puts).card = 0 := by
  rw [← h.len_eq, h.counted, List.length_eq_zero_iff.mp hcap]
  rfl

/-- The next row has room for one more entry than the old one can hold. -/
theorem MapHolds.lt_nextCap {map : ScMap V} {puts : List (Bytes × V)} (h : MapHolds map puts) :
    (keys puts).card + 1 < nextCap map.cap ∧ mapInitialCap ≤ nextCap map.cap := by
  rw [nextCap]
  rcases h.room with hcap | ⟨hcap, hroom⟩
  · rw [if_pos hcap, h.keys_empty hcap]
    decide
  · have hpos : 8 ≤ map.cap := hcap
    rw [if_neg (by omega)]
    constructor
    · omega
    · omega

/-- **Growing** ends and changes nothing, or the new size is too large. -/
theorem mapGrow_holds {map : ScMap V} {puts : List (Bytes × V)} (h : MapHolds map puts) :
    (∃ map', mapGrow map = some (.ok map') ∧ MapHolds map' puts ∧ map'.cap = nextCap map.cap) ∨
    (mapGrow map = some Status.noMemory ∧ sizeMax < nextCap map.cap * sizeofMapEntry) := by
  by_cases hsize : sizeMax < nextCap map.cap * sizeofMapEntry
  · exact Or.inr ⟨by rw [mapGrow]; exact if_pos hsize, hsize⟩
  · obtain ⟨hroom, hcap⟩ := h.lt_nextCap
    obtain ⟨entries, hall, hlen, hholds⟩ := insertAll_fresh h.holds (Nat.lt_of_succ_lt hroom)
    have hfresh : Counted ({ entries := List.replicate (nextCap map.cap) none, len := 0 } : ScMap V) := by
      rw [Counted, List.countP_replicate]
      rfl
    obtain ⟨map', hmap', rfl, hcount'⟩ := foldlM_mapInsertOwned hfresh hall
    have hsame : map'.cap = nextCap map.cap := hlen
    refine Or.inl ⟨map', ?_, ⟨hholds, hcount', Or.inr ⟨by omega, by omega⟩⟩, hsame⟩
    rw [mapGrow]
    simp only [if_neg hsize, hmap', Option.map_some]

/-! ## Puts -/

/-- An entry that leaves an empty slot behind. -/
theorem mapInsertOwned_holds {map : ScMap V} {puts : List (Bytes × V)} (h : MapHolds map puts)
    (hcap : mapInitialCap ≤ map.cap) (hroom : (keys puts).card + 1 < map.cap) (entry : Bytes × V) :
    ∃ map', mapInsertOwned map entry = some map' ∧ MapHolds map' (puts ++ [entry]) := by
  obtain ⟨entries, hinsert, hlen, hholds⟩ := h.holds.insert (by rw [ScMap.cap] at hroom; omega) entry
  obtain ⟨map', hmap', rfl, hcount⟩ := mapInsertOwned_of_insert h.counted hinsert
  have hsame : map'.cap = map.cap := hlen
  have hkeys : (keys (puts ++ [entry])).card ≤ (keys puts).card + 1 := by
    rw [keys_append]
    exact Finset.card_insert_le _ _
  exact ⟨map', hmap', hholds, hcount, Or.inr ⟨by omega, by omega⟩⟩

/-- **One put** is held, or refused for want of memory by a map with very many keys. -/
theorem mapPut_holds {map : ScMap V} {puts : List (Bytes × V)} (h : MapHolds map puts)
    (entry : Bytes × V) :
    (∃ map', mapPut map entry = some (.ok map') ∧ MapHolds map' (puts ++ [entry])) ∨
    (mapPut map entry = some Status.noMemory ∧ 2 ^ 57 ≤ (keys puts).card) := by
  have hlen := h.len_eq
  rw [mapPut]
  by_cases hmax : map.len = sizeMax
  · refine Or.inr ⟨if_pos hmax, ?_⟩
    rw [← hlen, hmax, sizeMax]
    decide
  rw [if_neg hmax]
  by_cases hgrow : mapNeedsGrowth map = true
  · rw [if_pos hgrow]
    rcases mapGrow_holds h with ⟨map₁, hmap₁, h₁, hcap₁⟩ | ⟨hfail, hsize⟩
    · obtain ⟨hroom, hcap⟩ := h.lt_nextCap
      obtain ⟨map₂, hmap₂, h₂⟩ := mapInsertOwned_holds h₁ (by omega) (by omega) entry
      refine Or.inl ⟨map₂, ?_, h₂⟩
      simp only [hmap₁, hmap₂, Option.map_some]
    · refine Or.inr ⟨by rw [hfail]; rfl, ?_⟩
      have hthreshold : map.cap = 0 ∨ mapThreshold map.cap < map.len + 1 := by
        simpa [mapNeedsGrowth] using hgrow
      rcases h.room with hzero | ⟨hcap, -⟩
      · rw [hzero] at hsize
        exact absurd hsize (by decide)
      · have hpos : 8 ≤ map.cap := hcap
        obtain ⟨-, hload⟩ := mapThreshold_spec hcap
        rw [nextCap, if_neg (by omega), sizeofMapEntry, sizeMax] at hsize
        omega
  · have hroom : map.cap ≠ 0 ∧ map.len + 1 ≤ mapThreshold map.cap := by
      simpa [mapNeedsGrowth] using hgrow
    rw [if_neg hgrow]
    have hcap : mapInitialCap ≤ map.cap := by
      rcases h.room with hzero | ⟨hcap, -⟩
      · exact absurd hzero hroom.1
      · exact hcap
    obtain ⟨hlt, -⟩ := mapThreshold_spec hcap
    obtain ⟨map', hmap', h'⟩ := mapInsertOwned_holds h hcap (by omega) entry
    refine Or.inl ⟨map', ?_, h'⟩
    simp only [hmap', Option.map_some]

/-- **Any number of puts.** -/
theorem mapPuts_holds (entries : List (Bytes × V)) :
    ∀ {map : ScMap V} {puts : List (Bytes × V)}, MapHolds map puts →
      (∃ map', mapPuts map entries = some (.ok map') ∧ MapHolds map' (puts ++ entries)) ∨
      (mapPuts map entries = some Status.noMemory ∧ 2 ^ 57 ≤ (keys (puts ++ entries)).card) := by
  induction entries with
  | nil =>
    intro map puts h
    exact Or.inl ⟨map, rfl, by rwa [List.append_nil]⟩
  | cons entry entries ih =>
    intro map puts h
    have happend : puts ++ entry :: entries = (puts ++ [entry]) ++ entries := by
      rw [List.append_assoc, List.singleton_append]
    rw [mapPuts]
    rcases mapPut_holds h entry with ⟨map₁, hmap₁, h₁⟩ | ⟨hfail, hmany⟩
    · rw [happend]
      simp only [hmap₁]
      exact ih h₁
    · refine Or.inr ⟨by rw [hfail]; rfl, hmany.trans ?_⟩
      exact Finset.card_le_card (keys_subset_append puts _)

/-- **The map is a faithful finite map.** -/
theorem scMap_faithful (puts : List (Bytes × V)) :
    (∃ result, mapPuts mapInit puts = some result) ∧
    (∀ map, mapPuts mapInit puts = some (.ok map) →
      (∀ key, mapGet map key = some (lastPut puts key) ∧
        mapContains map key = some (decide (key ∈ puts.map Prod.fst))) ∧
      map.len = (keys puts).card ∧
      (∃ result, mapGrow map = some result) ∧
      ∀ grown, mapGrow map = some (.ok grown) →
        (∀ key, mapGet grown key = mapGet map key ∧ mapContains grown key = mapContains map key) ∧
          grown.len = map.len) ∧
    ∀ e, mapPuts mapInit puts = some (.error e) →
      (Except.error e : Res Unit) = Status.noMemory ∧ 2 ^ 57 ≤ (keys puts).card := by
  rcases mapPuts_holds puts (mapInit_holds (V := V)) with ⟨map, hmap, h⟩ | ⟨hfail, hmany⟩
  · rw [List.nil_append] at h
    refine ⟨⟨_, hmap⟩, ?_, ?_⟩
    · intro map' hmap'
      obtain rfl := Except.ok.inj (Option.some.inj (hmap.symm.trans hmap'))
      refine ⟨fun key => ⟨h.mapGet_eq key, h.mapContains_eq key⟩, h.len_eq, ?_, ?_⟩
      · rcases mapGrow_holds h with ⟨grown, hgrown, -⟩ | ⟨hfail, -⟩
        · exact ⟨_, hgrown⟩
        · exact ⟨_, hfail⟩
      · intro grown hgrown
        rcases mapGrow_holds h with ⟨grown', hgrown', hg, -⟩ | ⟨hfail, -⟩
        · obtain rfl := Except.ok.inj (Option.some.inj (hgrown'.symm.trans hgrown))
          refine ⟨fun key => ⟨?_, ?_⟩, ?_⟩
          · rw [h.mapGet_eq, hg.mapGet_eq]
          · rw [h.mapContains_eq, hg.mapContains_eq]
          · rw [h.len_eq, hg.len_eq]
        · rw [hfail] at hgrown
          exact nomatch hgrown
    · intro e he
      rw [hmap] at he
      exact nomatch he
  · rw [List.nil_append] at hmany
    refine ⟨⟨_, hfail⟩, ?_, ?_⟩
    · intro map hmap
      rw [hfail] at hmap
      exact nomatch hmap
    · intro e he
      rw [hfail] at he
      refine ⟨?_, hmany⟩
      rw [← Except.error.inj (Option.some.inj he)]
      rfl

end SmolClaw
