/-
  Open addressing with linear probing: a row of slots in which a key is looked for from its home slot
  on, one slot after the other and around the end, up to the first slot that is empty or holds it.

  1. **Program** — `probe` is that loop, with the number of steps it may take: `none` is a loop that
     is still running.  `insert` fills the slot the loop stops at.

  2. **Invariant** — `Placed`: every key that stands in a slot is found there.  One empty slot makes the
     loop stop within one round (`find_ne_none`).

  3. **Specification** — `lastPut`, what a list of puts says about a key.

  4. **Result** — `insertAll_holds`: puts into a row that never fills up keep what was put, whatever the
     hash function; rehashing is the case of a fresh row (`insertAll_fresh`).
-/
import Mathlib.Data.List.Basic
import Mathlib.Data.Finset.Card
import Mathlib.Data.Finset.Dedup

namespace Lib.Probing

variable {K V : Type*} [DecidableEq K]

/-! ## The loop -/

/-- The loop from a slot on: where it stops, and whether the key is there. -/
def probe (slots : List (Option (K × V))) (key : K) : Nat → Nat → Option (Nat × Bool)
  | 0, _ => none
  | fuel + 1, slot =>
      match slots[slot]? with
      | some (some entry) =>
          if entry.1 = key then some (slot, true)
          else probe slots key fuel ((slot + 1) % slots.length)
      | _ => some (slot, false)

/-- The loop from the home slot of a key, for one round. -/
def find (hash : K → Nat) (slots : List (Option (K × V))) (key : K) : Option (Nat × Bool) :=
  probe slots key slots.length (hash key % slots.length)

/-- The value of a key; the outer `none` is a loop that does not stop. -/
def get (hash : K → Nat) (slots : List (Option (K × V))) (key : K) : Option (Option V) :=
  (find hash slots key).map fun stop =>
    if stop.2 then ((slots[stop.1]?).bind id).map Prod.snd else none

/-- The slots after a put. -/
def insert (hash : K → Nat) (slots : List (Option (K × V))) (entry : K × V) :
    Option (List (Option (K × V))) :=
  (find hash slots entry.1).map fun stop => slots.set stop.1 (some entry)

/-- The slots after puts. -/
def insertAll (hash : K → Nat) (slots : List (Option (K × V))) (entries : List (K × V)) :
    Option (List (Option (K × V))) :=
  entries.foldlM (insert hash) slots

variable {hash : K → Nat} {slots : List (Option (K × V))} {key : K}

theorem probe_occupied {fuel slot : Nat} {entry : K × V} (h : slots[slot]? = some (some entry)) :
    probe slots key (fuel + 1) slot =
      if entry.1 = key then some (slot, true) else probe slots key fuel ((slot + 1) % slots.length) := by
  rw [probe, h]

theorem probe_empty {fuel slot : Nat} (h : slots[slot]? = some none) :
    probe slots key (fuel + 1) slot = some (slot, false) := by
  rw [probe, h]

omit [DecidableEq K] in
/-- A slot of the row is occupied or empty. -/
theorem slot_cases {slot : Nat} (h : slot < slots.length) :
    (∃ entry, slots[slot]? = some (some entry)) ∨ slots[slot]? = some none := by
  rw [List.getElem?_eq_getElem h]
  cases slots[slot] with
  | none => exact Or.inr rfl
  | some entry => exact Or.inl ⟨entry, rfl⟩

/-- **The loop stops** at an empty slot it comes to in time. -/
theorem probe_ne_none :
    ∀ (fuel slot ahead : Nat), slot < slots.length → ahead < fuel →
      slots[(slot + ahead) % slots.length]? = some none → probe slots key fuel slot ≠ none := by
  intro fuel
  induction fuel with
  | zero => intro slot ahead _ hahead; omega
  | succ fuel ih =>
    intro slot ahead hslot hahead hempty
    rcases slot_cases hslot with ⟨entry, hentry⟩ | hnone
    · rw [probe_occupied hentry]
      split
      · exact fun h => nomatch h
      · -- an occupied slot is not the empty one, which is one step closer now
        cases ahead with
        | zero =>
          rw [Nat.add_zero, Nat.mod_eq_of_lt hslot, hentry] at hempty
          exact absurd hempty (by simp)
        | succ ahead =>
          refine ih _ ahead (Nat.mod_lt _ (by omega)) (by omega) ?_
          rw [Nat.mod_add_mod, Nat.add_right_comm]
          exact hempty
    · rw [probe_empty hnone]
      exact fun h => nomatch h

/-- **One empty slot** is enough for every search. -/
theorem find_ne_none (hash : K → Nat) (key : K) {empty : Nat} (h : slots[empty]? = some none) :
    find hash slots key ≠ none := by
  have hlt : empty < slots.length := (List.getElem?_eq_some_iff.mp h).1
  have hhome : hash key % slots.length < slots.length := Nat.mod_lt _ (by omega)
  refine probe_ne_none _ _ ((empty + slots.length - hash key % slots.length) % slots.length) hhome
    (Nat.mod_lt _ (by omega)) ?_
  have hround : (hash key % slots.length + (empty + slots.length - hash key % slots.length) % slots.length) %
      slots.length = empty := by
    rw [Nat.add_mod_mod]
    have hsum : hash key % slots.length + (empty + slots.length - hash key % slots.length) =
        empty + slots.length := by omega
    rw [hsum, Nat.add_mod_right, Nat.mod_eq_of_lt hlt]
  rw [hround]
  exact h

/-- Where the loop stops: at the key, or at an empty slot. -/
theorem probe_stop {fuel : Nat} :
    ∀ {slot stop : Nat} {found : Bool}, slot < slots.length →
      probe slots key fuel slot = some (stop, found) →
        if found then ∃ value, slots[stop]? = some (some (key, value)) else slots[stop]? = some none := by
  induction fuel with
  | zero => intro slot stop found _ h; exact nomatch h
  | succ fuel ih =>
    intro slot stop found hslot h
    rcases slot_cases hslot with ⟨entry, hentry⟩ | hnone
    · rw [probe_occupied hentry] at h
      split at h
      · rename_i hkey
        obtain ⟨rfl, rfl⟩ := Prod.mk.inj (Option.some.inj h)
        rw [if_pos rfl]
        exact ⟨entry.2, by rw [hentry, ← hkey]⟩
      · exact ih (Nat.mod_lt _ (by omega)) h
    · rw [probe_empty hnone] at h
      obtain ⟨rfl, rfl⟩ := Prod.mk.inj (Option.some.inj h)
      rw [if_neg Bool.false_ne_true]
      exact hnone

/-! ## One slot changes -/

/-- The loop does not see a change of a value. -/
theorem probe_set_same_key {target : Nat} {old : V} {held : K}
    (htarget : slots[target]? = some (some (held, old))) (new : V) (fuel : Nat) :
    ∀ slot, slot < slots.length →
      probe (slots.set target (some (held, new))) key fuel slot = probe slots key fuel slot := by
  have hlt : target < slots.length := (List.getElem?_eq_some_iff.mp htarget).1
  induction fuel with
  | zero => intro slot _; rfl
  | succ fuel ih =>
    intro slot hslot
    have hnext := ih ((slot + 1) % slots.length) (Nat.mod_lt _ (by omega))
    by_cases heq : slot = target
    · subst heq
      have hnew : (slots.set slot (some (held, new)))[slot]? = some (some (held, new)) :=
        List.getElem?_set_self hslot
      rw [probe_occupied hnew, probe_occupied htarget, List.length_set, hnext]
    · have hsame : (slots.set target (some (held, new)))[slot]? = slots[slot]? :=
        List.getElem?_set_ne (Ne.symm heq)
      rcases slot_cases hslot with ⟨entry, hentry⟩ | hnone
      · rw [probe_occupied (hsame.trans hentry), probe_occupied hentry, List.length_set, hnext]
      · rw [probe_empty (hsame.trans hnone), probe_empty hnone]

/-- A key that is found is found where it was when an empty slot is filled: the way to it has none. -/
theorem probe_set_empty {target stop : Nat} {entry : K × V} (htarget : slots[target]? = some none)
    {fuel : Nat} :
    ∀ {slot}, slot < slots.length → probe slots key fuel slot = some (stop, true) →
      probe (slots.set target (some entry)) key fuel slot = some (stop, true) := by
  induction fuel with
  | zero => intro slot _ h; exact nomatch h
  | succ fuel ih =>
    intro slot hslot h
    rcases slot_cases hslot with ⟨held, hheld⟩ | hnone
    · have hne : target ≠ slot := by
        rintro rfl
        rw [htarget] at hheld
        exact absurd hheld (by simp)
      have hsame : (slots.set target (some entry))[slot]? = some (some held) := by
        rw [List.getElem?_set_ne hne, hheld]
      rw [probe_occupied hheld] at h
      rw [probe_occupied hsame, List.length_set]
      split
      · rename_i hkey
        rwa [if_pos hkey] at h
      · rename_i hkey
        rw [if_neg hkey] at h
        exact ih (Nat.mod_lt _ (by omega)) h
    · rw [probe_empty hnone] at h
      exact absurd (Prod.mk.inj (Option.some.inj h)).2 Bool.false_ne_true

/-- The empty slot a search ends at is where the key is found once it stands there. -/
theorem probe_set_stop {stop : Nat} {value : V} {fuel : Nat} :
    ∀ {slot}, slot < slots.length → probe slots key fuel slot = some (stop, false) →
      probe (slots.set stop (some (key, value))) key fuel slot = some (stop, true) := by
  induction fuel with
  | zero => intro slot _ h; exact nomatch h
  | succ fuel ih =>
    intro slot hslot h
    rcases slot_cases hslot with ⟨held, hheld⟩ | hnone
    · have hempty := probe_stop hslot h
      rw [if_neg Bool.false_ne_true] at hempty
      have hne : stop ≠ slot := by
        rintro rfl
        rw [hempty] at hheld
        exact absurd hheld (by simp)
      have hsame : (slots.set stop (some (key, value)))[slot]? = some (some held) := by
        rw [List.getElem?_set_ne hne, hheld]
      rw [probe_occupied hheld] at h
      rw [probe_occupied hsame, List.length_set]
      split
      · rename_i hkey
        rw [if_pos hkey] at h
        exact absurd (Prod.mk.inj (Option.some.inj h)).2.symm Bool.false_ne_true
      · rename_i hkey
        rw [if_neg hkey] at h
        exact ih (Nat.mod_lt _ (by omega)) h
    · rw [probe_empty hnone] at h
      obtain rfl := (Prod.mk.inj (Option.some.inj h)).1
      rw [probe_occupied (List.getElem?_set_self hslot), if_pos rfl]

/-! ## What a row holds -/

/-- The value of the last put of a key. -/
def lastPut (puts : List (K × V)) (key : K) : Option V :=
  (puts.reverse.find? (·.1 = key)).map Prod.snd

theorem lastPut_append (puts : List (K × V)) (entry : K × V) (key : K) :
    lastPut (puts ++ [entry]) key = if entry.1 = key then some entry.2 else lastPut puts key := by
  rw [lastPut, List.reverse_append, List.reverse_singleton, List.singleton_append, List.find?_cons]
  by_cases h : entry.1 = key
  · simp [h]
  · simp [h, lastPut]

theorem mem_of_lastPut {puts : List (K × V)} {value : V} (h : lastPut puts key = some value) :
    (key, value) ∈ puts := by
  obtain ⟨entry, hfind, rfl⟩ := Option.map_eq_some_iff.mp h
  have hkey := List.find?_some hfind
  rw [← of_decide_eq_true hkey]
  exact List.mem_reverse.mp (List.mem_of_find?_eq_some hfind)

theorem lastPut_eq_none {puts : List (K × V)} : lastPut puts key = none ↔ key ∉ puts.map Prod.fst := by
  rw [lastPut, Option.map_eq_none_iff, List.find?_eq_none]
  simp only [List.mem_reverse, decide_eq_true_eq, List.mem_map, not_exists, not_and]

/-- The keys of a list of puts. -/
def keys (puts : List (K × V)) : Finset K := (puts.map Prod.fst).toFinset

theorem mem_keys {puts : List (K × V)} : key ∈ keys puts ↔ lastPut puts key ≠ none := by
  rw [Ne, lastPut_eq_none, not_not, keys, List.mem_toFinset]

theorem keys_append (puts : List (K × V)) (entry : K × V) :
    keys (puts ++ [entry]) = Insert.insert entry.1 (keys puts) := by
  ext key
  simp [keys]

/-- Every key is found where it stands. -/
def Placed (hash : K → Nat) (slots : List (Option (K × V))) : Prop :=
  ∀ slot key value, slots[slot]? = some (some (key, value)) → find hash slots key = some (slot, true)

/-- **What a row holds**: the last put of every key, and as many entries as there are keys. -/
structure Holds (hash : K → Nat) (slots : List (Option (K × V))) (puts : List (K × V)) : Prop where
  placed : Placed hash slots
  entries : ∀ key value, some (key, value) ∈ slots ↔ lastPut puts key = some value
  count : slots.countP Option.isSome = (keys puts).card

/-- Lists of puts that say the same about every key are held by the same rows. -/
theorem Holds.congr {puts puts' : List (K × V)} (h : Holds hash slots puts)
    (hsame : ∀ key, lastPut puts key = lastPut puts' key) : Holds hash slots puts' := by
  have hkeys : keys puts = keys puts' := by
    ext key
    rw [mem_keys, mem_keys, hsame]
  refine ⟨h.placed, fun key value => ?_, ?_⟩
  · rw [h.entries, hsame]
  · rw [h.count, hkeys]

omit [DecidableEq K] in
/-- A row with fewer entries than slots has an empty slot. -/
theorem exists_empty (h : slots.countP Option.isSome < slots.length) :
    ∃ slot : Nat, slots[slot]? = some none := by
  by_contra hfull
  refine absurd (List.countP_eq_length.mpr ?_) (Nat.ne_of_lt h)
  intro entry hentry
  obtain ⟨slot, hslot, rfl⟩ := List.getElem_of_mem hentry
  rcases slot_cases hslot with ⟨held, hheld⟩ | hnone
  · rw [List.getElem?_eq_getElem hslot] at hheld
    rw [Option.some.inj hheld]
    rfl
  · exact absurd ⟨slot, hnone⟩ hfull

/-- **Look-up** in a row that is not full. -/
theorem Holds.get_eq {puts : List (K × V)} (h : Holds hash slots puts)
    (hroom : (keys puts).card < slots.length) (key : K) :
    get hash slots key = some (lastPut puts key) := by
  obtain ⟨empty, hempty⟩ := exists_empty (h.count.trans_lt hroom)
  have hlt : empty < slots.length := (List.getElem?_eq_some_iff.mp hempty).1
  obtain ⟨⟨stop, found⟩, hfind⟩ := Option.ne_none_iff_exists'.mp (find_ne_none hash key hempty)
  have hstop := probe_stop (Nat.mod_lt _ (by omega)) hfind
  rw [get, hfind]
  cases found with
  | true =>
    obtain ⟨value, hvalue⟩ := hstop
    have hput : lastPut puts key = some value := (h.entries key value).mp (List.mem_of_getElem? hvalue)
    simp [hvalue, hput]
  | false =>
    -- a key that was put stands in the row and would be found
    have hnone : lastPut puts key = none := by
      by_contra hput
      obtain ⟨value, hvalue⟩ := Option.ne_none_iff_exists'.mp hput
      obtain ⟨slot, hslot⟩ := List.mem_iff_getElem?.mp ((h.entries key value).mpr hvalue)
      have hplaced := h.placed slot key value hslot
      rw [hfind] at hplaced
      exact absurd (Prod.mk.inj (Option.some.inj hplaced)).2 Bool.false_ne_true
    simp [hnone]

/-! ## A put -/

omit [DecidableEq K] in
/-- The entries after a put, if the key stood at most in the slot that is set. -/
theorem mem_set_iff {stop : Nat} {entry : K × V} (hlt : stop < slots.length)
    (hheld : ∀ held, slots[stop]? = some (some held) → held.1 = entry.1)
    (honly : ∀ slot value, slots[slot]? = some (some (entry.1, value)) → slot = stop) (key : K) (value : V) :
    some (key, value) ∈ slots.set stop (some entry) ↔
      (entry.1 = key ∧ entry.2 = value) ∨ (entry.1 ≠ key ∧ some (key, value) ∈ slots) := by
  constructor
  · intro hmem
    obtain ⟨slot, hslot⟩ := List.mem_iff_getElem?.mp hmem
    by_cases heq : stop = slot
    · subst heq
      rw [List.getElem?_set_self hlt] at hslot
      obtain rfl := Option.some.inj (Option.some.inj hslot)
      exact Or.inl ⟨rfl, rfl⟩
    · rw [List.getElem?_set_ne heq] at hslot
      refine Or.inr ⟨?_, List.mem_of_getElem? hslot⟩
      rintro rfl
      exact heq (honly slot value hslot).symm
  · rintro (⟨rfl, rfl⟩ | ⟨hne, hmem⟩)
    · exact List.mem_of_getElem? (List.getElem?_set_self hlt)
    · obtain ⟨slot, hslot⟩ := List.mem_iff_getElem?.mp hmem
      have heq : stop ≠ slot := by
        rintro rfl
        exact hne (hheld _ hslot).symm
      exact List.mem_of_getElem? ((List.getElem?_set_ne heq).trans hslot)

/-- **One put** into a row that is not full. -/
theorem Holds.insert {puts : List (K × V)} (h : Holds hash slots puts)
    (hroom : (keys puts).card < slots.length) (entry : K × V) :
    ∃ slots', Lib.Probing.insert hash slots entry = some slots' ∧ slots'.length = slots.length ∧
      Holds hash slots' (puts ++ [entry]) := by
  obtain ⟨empty, hempty⟩ := exists_empty (h.count.trans_lt hroom)
  obtain ⟨⟨stop, found⟩, hfind⟩ := Option.ne_none_iff_exists'.mp
    (find_ne_none hash entry.1 hempty)
  have hpos : 0 < slots.length := by
    have := (List.getElem?_eq_some_iff.mp hempty).1
    omega
  have hstop := probe_stop (Nat.mod_lt _ hpos) hfind
  -- the slot is the only one the key may stand in
  have honly : ∀ slot value, slots[slot]? = some (some (entry.1, value)) → slot = stop := by
    intro slot value hslot
    have hplaced := h.placed slot _ value hslot
    rw [hfind] at hplaced
    exact (Prod.mk.inj (Option.some.inj hplaced)).1.symm
  refine ⟨slots.set stop (some entry), by rw [Lib.Probing.insert, hfind]; rfl, List.length_set, ?_⟩
  cases found with
  | true =>
    obtain ⟨old, hold⟩ := hstop
    have hlt : stop < slots.length := (List.getElem?_eq_some_iff.mp hold).1
    have hget : slots[stop] = some (entry.1, old) :=
      Option.some.inj ((List.getElem?_eq_getElem hlt).symm.trans hold)
    have hold' : lastPut puts entry.1 = some old := (h.entries _ _).mp (List.mem_of_getElem? hold)
    have hsame : ∀ key, find hash (slots.set stop (some entry)) key = find hash slots key := by
      intro key
      rw [find, find, List.length_set]
      exact probe_set_same_key hold entry.2 _ _ (Nat.mod_lt _ hpos)
    refine ⟨?_, ?_, ?_⟩
    · intro slot key value hslot
      rw [hsame]
      by_cases heq : stop = slot
      · subst heq
        rw [List.getElem?_set_self hlt] at hslot
        obtain rfl := Option.some.inj (Option.some.inj hslot)
        exact hfind
      · rw [List.getElem?_set_ne heq] at hslot
        exact h.placed slot key value hslot
    · intro key value
      rw [mem_set_iff hlt (fun held hheld => by rw [hold] at hheld; rw [← Option.some.inj (Option.some.inj hheld)])
        honly, h.entries, lastPut_append]
      split <;> simp_all
    · have hin : entry.1 ∈ keys puts := mem_keys.mpr (by rw [hold']; exact fun h => nomatch h)
      rw [List.countP_set hlt, hget, keys_append, Finset.insert_eq_of_mem hin, ← h.count]
      have hone : 0 < slots.countP Option.isSome :=
        List.countP_pos_iff.mpr ⟨_, List.mem_of_getElem? hold, rfl⟩
      simp
      omega
  | false =>
    have hlt : stop < slots.length := (List.getElem?_eq_some_iff.mp hstop).1
    have hget : slots[stop] = none := Option.some.inj ((List.getElem?_eq_getElem hlt).symm.trans hstop)
    have hnew : lastPut puts entry.1 = none := by
      by_contra hput
      obtain ⟨value, hvalue⟩ := Option.ne_none_iff_exists'.mp hput
      obtain ⟨slot, hslot⟩ := List.mem_iff_getElem?.mp ((h.entries _ value).mpr hvalue)
      obtain rfl := honly slot value hslot
      rw [hstop] at hslot
      exact absurd hslot (by simp)
    refine ⟨?_, ?_, ?_⟩
    · intro slot key value hslot
      rw [find, List.length_set]
      by_cases heq : stop = slot
      · subst heq
        rw [List.getElem?_set_self hlt] at hslot
        obtain rfl := Option.some.inj (Option.some.inj hslot)
        exact probe_set_stop (Nat.mod_lt _ hpos) hfind
      · rw [List.getElem?_set_ne heq] at hslot
        exact probe_set_empty hstop (Nat.mod_lt _ hpos) (h.placed slot key value hslot)
    · intro key value
      rw [mem_set_iff hlt (fun held hheld => by rw [hstop] at hheld; exact absurd hheld (by simp))
        honly, h.entries, lastPut_append]
      split <;> simp_all
    · have hout : entry.1 ∉ keys puts := fun hin => mem_keys.mp hin hnew
      rw [List.countP_set hlt, hget, keys_append, Finset.card_insert_of_notMem hout, ← h.count]
      simp

/-! ## Many puts -/

theorem keys_subset_append (puts entries : List (K × V)) : keys puts ⊆ keys (puts ++ entries) := by
  intro key hkey
  simp only [keys, List.map_append, List.toFinset_append, Finset.mem_union]
  exact Or.inl hkey

/-- **Puts into a row that never fills up** are held. -/
theorem insertAll_holds {entries : List (K × V)} :
    ∀ {slots : List (Option (K × V))} {puts : List (K × V)}, Holds hash slots puts →
      (keys (puts ++ entries)).card < slots.length →
      ∃ slots', insertAll hash slots entries = some slots' ∧ slots'.length = slots.length ∧
        Holds hash slots' (puts ++ entries) := by
  induction entries with
  | nil =>
    intro slots puts h _
    exact ⟨slots, rfl, rfl, by rwa [List.append_nil]⟩
  | cons entry entries ih =>
    intro slots puts h hroom
    have hbefore : (keys puts).card < slots.length :=
      (Finset.card_le_card (keys_subset_append puts (entry :: entries))).trans_lt hroom
    obtain ⟨slots₁, hinsert, hlen₁, hholds₁⟩ := h.insert hbefore entry
    have happend : puts ++ entry :: entries = (puts ++ [entry]) ++ entries := by
      rw [List.append_assoc, List.singleton_append]
    rw [happend] at hroom ⊢
    obtain ⟨slots₂, hall, hlen₂, hholds₂⟩ := ih hholds₁ (by rwa [hlen₁])
    refine ⟨slots₂, ?_, hlen₂.trans hlen₁, hholds₂⟩
    rw [insertAll, List.foldlM_cons, hinsert]
    exact hall

/-- An empty row holds nothing. -/
theorem holds_replicate (hash : K → Nat) (size : Nat) :
    Holds hash (List.replicate size (none : Option (K × V))) [] := by
  refine ⟨?_, ?_, ?_⟩
  · intro slot key value hslot
    exact absurd (List.eq_of_mem_replicate (List.mem_of_getElem? hslot)) (by simp)
  · intro key value
    constructor
    · intro hmem
      exact absurd (List.eq_of_mem_replicate hmem) (by simp)
    · intro hput
      exact nomatch hput
  · rw [List.countP_replicate]
    rfl

/-- The entries of a row say about every key what the puts said. -/
theorem Holds.lastPut_entries {puts : List (K × V)} (h : Holds hash slots puts) (key : K) :
    lastPut (slots.filterMap id) key = lastPut puts key := by
  have hmem : ∀ entry : K × V, entry ∈ slots.filterMap id ↔ some entry ∈ slots := by
    intro entry
    simp [List.mem_filterMap]
  cases hput : lastPut (slots.filterMap id) key with
  | some value =>
    have hin := (hmem (key, value)).mp (mem_of_lastPut hput)
    exact ((h.entries key value).mp hin).symm
  | none =>
    by_contra hne
    obtain ⟨value, hvalue⟩ := Option.ne_none_iff_exists'.mp (Ne.symm hne)
    have hin := (hmem (key, value)).mpr ((h.entries key value).mpr hvalue)
    exact lastPut_eq_none.mp hput (List.mem_map.mpr ⟨_, hin, rfl⟩)

/-- **Rehashing**: the entries of a row, put one after the other into a fresh and larger one. -/
theorem insertAll_fresh {puts : List (K × V)} (h : Holds hash slots puts) {size : Nat}
    (hroom : (keys puts).card < size) :
    ∃ slots', insertAll hash (List.replicate size none) (slots.filterMap id) = some slots' ∧
      slots'.length = size ∧ Holds hash slots' puts := by
  have hkeys : keys (slots.filterMap id) = keys puts := by
    ext key
    rw [mem_keys, mem_keys, h.lastPut_entries]
  obtain ⟨slots', hall, hlen, hholds⟩ :=
    insertAll_holds (holds_replicate hash size)
      (by rw [List.nil_append, hkeys, List.length_replicate]; exact hroom)
  rw [List.length_replicate] at hlen
  exact ⟨slots', hall, hlen, hholds.congr h.lastPut_entries⟩

example : (insertAll (fun key : Nat => key * 8 + 6) (List.replicate 8 none)
    [(1, 'a'), (2, 'b'), (3, 'c'), (1, 'd')]).bind (get (fun key => key * 8 + 6) · 3) = some (some 'c') := by
  decide

end Lib.Probing
