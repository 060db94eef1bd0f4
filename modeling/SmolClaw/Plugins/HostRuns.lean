/-
  Whole runs of the plugin host.

  1. **Handles** — making and destroying adapters, clearing the observer list and unloading keep the
     invariant: a plugin without references has no adapter anywhere.

  2. **Runs** — every operation of a run keeps what it owes exactly if every operation is clean
     (`run_keeps_iff`), and then a plugin is unloaded exactly while nothing refers to it (`unload_iff`).
-/
import SmolClaw.Plugins.GuestTools

namespace SmolClaw.Plugins

open Lib.Run

/-! ## Handles -/

section Handles

variable {host : Host}

theorem ids_countRefs (f : Nat → Nat) (plugin : Nat) : (host.countRefs f plugin).ids = host.ids := by
  unfold Host.ids Host.countRefs
  rw [List.map_map]
  refine List.map_congr_left fun p _ => ?_
  rw [Function.comp_apply]
  split
  · rfl
  · rfl

/-- A plugin after a change of a reference count. -/
theorem mem_countRefs {f : Nat → Nat} {plugin : Nat} {p : Plugin}
    (hp : p ∈ (host.countRefs f plugin).loadedPlugins) :
    ∃ q ∈ host.loadedPlugins, p.id = q.id ∧
      p.activeRefs = if q.id = plugin then f q.activeRefs else q.activeRefs := by
  obtain ⟨q, hq, rfl⟩ := List.mem_map.mp hp
  refine ⟨q, hq, ?_⟩
  split
  · exact ⟨rfl, rfl⟩
  · exact ⟨rfl, rfl⟩

/-- References may be counted anew as long as they fit the adapters. -/
theorem Sound.recount (h : Sound host) {host' : Host} (hids : host'.ids = host.ids)
    (hentries : host'.entries = host.entries) (hoptions : host'.options = host.options)
    (hnext : host'.next = host.next) (hobservers : ∀ plugin ∈ host'.observers, plugin ∈ host.ids)
    (hadapters : ∀ plugin ∈ host'.adapters, plugin ∈ host.ids)
    (hrefs : ∀ p ∈ host'.loadedPlugins,
      p.activeRefs = host'.observers.count p.id + host'.adapters.count p.id) : Sound host' where
  entries := by rw [hentries, hids]; exact h.entries
  observers := by rw [hids]; exact hobservers
  names := by rw [hentries]; exact h.names
  builtin := by rw [hentries, hoptions]; exact h.builtin
  adapters := by rw [hids]; exact hadapters
  single := by rw [hids]; exact h.single
  old := by rw [hids, hnext]; exact h.old
  refs := hrefs

/-- **Making an adapter** adds a reference. -/
theorem Sound.create (h : Sound host) {r : Registry} {name : Bytes} {context : Bool} {made handle : Res Unit}
    {host' : Host} (hcreate : host.create r name context made handle = .ok host') : Sound host' := by
  unfold Host.create at hcreate
  split at hcreate
  · exact absurd hcreate (Status.invalidArgument_ne_ok _ _)
  split at hcreate
  · exact absurd hcreate (Status.invalidArgument_ne_ok _ _)
  next entry _ =>
  obtain ⟨-, -, hcreate⟩ := Res.bind_eq_ok.mp hcreate
  obtain ⟨acquired, hacquire, hcreate⟩ := Res.bind_eq_ok.mp hcreate
  obtain ⟨-, -, hcreate⟩ := Res.bind_eq_ok.mp hcreate
  obtain rfl := Except.ok.inj hcreate
  unfold Host.acquire at hacquire
  split at hacquire
  · next hplugin =>
    obtain rfl := Except.ok.inj hacquire
    refine h.recount (ids_countRefs _ _) rfl rfl rfl h.observers ?_ ?_
    · intro plugin hmem
      rcases List.mem_append.mp hmem with hmem | hmem
      · exact h.adapters plugin hmem
      · rw [List.mem_singleton.mp hmem]
        exact hplugin
    · intro p hp
      obtain ⟨q, hq, hid, hrefs⟩ := mem_countRefs hp
      have hold := h.refs q hq
      show p.activeRefs = host.observers.count p.id + (host.adapters ++ [entry.plugin]).count p.id
      rw [hrefs, hid, List.count_append, List.count_singleton]
      by_cases hself : q.id = entry.plugin
      · simp [hself] at hold ⊢
        omega
      · simp [hself, Ne.symm hself] at hold ⊢
        omega
  · exact absurd hacquire (Status.invalidArgument_ne_ok _ _)

/-- **Destroying an adapter** takes its reference away. -/
theorem Sound.destroyAdapter (h : Sound host) (plugin : Nat) : Sound (host.destroyAdapter plugin) := by
  unfold Host.destroyAdapter
  split
  · next hplugin =>
    refine h.recount (@ids_countRefs host (· - 1) plugin) rfl rfl rfl h.observers
      (fun other hother => h.adapters other (List.mem_of_mem_erase hother)) ?_
    intro p hp
    change p ∈ (host.countRefs (· - 1) plugin).loadedPlugins at hp
    obtain ⟨q, hq, hid, hrefs⟩ := mem_countRefs hp
    have hold := h.refs q hq
    have hpos : 0 < host.adapters.count plugin := List.count_pos_iff.mpr hplugin
    show p.activeRefs = host.observers.count p.id + (host.adapters.erase plugin).count p.id
    rw [hrefs, hid, List.count_erase]
    by_cases hself : q.id = plugin
    · simp [hself] at hold ⊢
      omega
    · simp [hself, Ne.symm hself] at hold ⊢
      omega
  · exact h

/-- Releasing one plugin after another. -/
theorem foldl_release (plugins : List Nat) : ∀ host : Host,
    plugins.foldl Host.release host =
      { host with loadedPlugins := host.loadedPlugins.map fun p =>
          { p with activeRefs := p.activeRefs - plugins.count p.id } } := by
  induction plugins with
  | nil => intro host; simp
  | cons plugin plugins ih =>
    intro host
    rw [List.foldl_cons, ih]
    unfold Host.release Host.countRefs
    simp only [List.map_map]
    congr 1
    refine List.map_congr_left fun p _ => ?_
    rw [Function.comp_apply, List.count_cons]
    by_cases hself : p.id = plugin
    · simp [hself, Nat.sub_sub, Nat.add_comm]
    · simp [hself, Ne.symm hself]

/-- **Clearing the observer list** releases the plugins of its adapters. -/
theorem Sound.clearObservers (h : Sound host) : Sound host.clearObservers := by
  unfold Host.clearObservers
  rw [foldl_release]
  refine h.recount ?_ rfl rfl rfl (fun plugin hplugin => by cases hplugin) h.adapters ?_
  · simp [Host.ids, Function.comp_def]
  · intro p hp
    obtain ⟨q, hq, rfl⟩ := List.mem_map.mp hp
    have hold := h.refs q hq
    show q.activeRefs - host.observers.count q.id = [].count q.id + host.adapters.count q.id
    rw [List.count_nil]
    omega

/-- **Unloading**: nothing refers to a plugin that has no references, and its entries go with it. -/
theorem Sound.unload (h : Sound host) {plugin : Nat} {host' : Host}
    (hunload : host.unload plugin = .ok host') : Sound host' := by
  unfold Host.unload at hunload
  split at hunload
  · exact absurd hunload (Status.invalidArgument_ne_ok _ _)
  next p hfind =>
  split at hunload
  · exact absurd hunload (Status.cancelled_ne_ok _ _)
  next hrefs =>
  obtain rfl := Except.ok.inj hunload
  have hid : p.id = plugin := by simpa using List.find?_some hfind
  have hnone := h.refs p (List.mem_of_find?_eq_some hfind)
  rw [hid] at hnone
  -- what is left after the plugin: the other plugins
  have hids : ∀ other, other ∈ ((host.loadedPlugins.filter fun q => q.id ≠ plugin).map Plugin.id) ↔
      other ∈ host.ids ∧ other ≠ plugin := by
    intro other
    simp only [Host.ids, List.mem_map, List.mem_filter, decide_eq_true_eq]
    constructor
    · rintro ⟨q, ⟨hq, hne⟩, rfl⟩
      exact ⟨⟨q, hq, rfl⟩, hne⟩
    · rintro ⟨⟨q, hq, rfl⟩, hne⟩
      exact ⟨q, ⟨hq, hne⟩, rfl⟩
  have hobservers : plugin ∉ host.observers := List.count_eq_zero.mp (by omega)
  have hadapters : plugin ∉ host.adapters := List.count_eq_zero.mp (by omega)
  constructor
  · constructor
    · intro r entry hentry
      obtain ⟨hentry, hne⟩ := List.mem_filter.mp hentry
      exact (hids _).mpr ⟨h.entries r entry hentry, of_decide_eq_true hne⟩
    · intro other hother
      refine (hids _).mpr ⟨h.observers other hother, ?_⟩
      rintro rfl
      exact hobservers hother
    · intro r
      exact (h.names r).filter _
    · intro r entry hentry
      exact h.builtin r entry (List.mem_filter.mp hentry).1
  · intro other hother
    refine (hids _).mpr ⟨h.adapters other hother, ?_⟩
    rintro rfl
    exact hadapters hother
  · exact h.single.sublist (List.Sublist.map _ List.filter_sublist)
  · intro other hother
    exact h.old other ((hids other).mp hother).1
  · intro q hq
    exact h.refs q (List.mem_filter.mp hq).1

end Handles

/-! ## Whole runs -/

/-- **One operation**: it keeps what it owes exactly if it is clean, and then it keeps the invariant. -/
theorem step_spec {host : Host} (h : Sound host) (op : Op) :
    (Keeps host op ↔ Clean host op) ∧ (Clean host op → Sound (step host op)) := by
  -- an operation that is no load owes no more than the invariant
  have hother : ∀ {host' : Host}, Sound host' → (Held host' ↔ True) ∧ (True → Sound host') := fun hs =>
    ⟨iff_true_intro hs.toHeld, fun _ => hs⟩
  have hsame : ∀ {result : Res Host}, (∀ {host'}, result = .ok host' → Sound host') →
      Sound (host.orSame result) := by
    intro result hresult
    cases result with
    | error e => exact h
    | ok host' => exact hresult rfl
  cases op with
  | loadDescriptor descriptor manifest init => exact loadDescriptor_spec h descriptor manifest init
  | loadWasm manifest module => exact loadWasm_spec h manifest module
  | loadPython manifest script => exact loadPython_spec h manifest script
  | create r name context made handle => exact hother (hsame h.create)
  | destroyAdapter plugin => exact hother (h.destroyAdapter plugin)
  | clearObservers => exact hother h.clearObservers
  | unload plugin => exact hother (hsame h.unload)

/-- **In a run from a new host every operation keeps what it owes** exactly if every operation is clean. -/
theorem run_keeps_iff (options : Options) (ops : List Op) :
    EachStep step Keeps (hostNew options) ops ↔ EachStep step Clean (hostNew options) ops := by
  constructor
  · exact EachStep.imp (fun host op h hkeeps => (step_spec h op).2 ((step_spec h op).1.mp hkeeps))
      (fun host op h hkeeps => (step_spec h op).1.mp hkeeps) (Sound.new options)
  · exact EachStep.imp (fun host op h hclean => (step_spec h op).2 hclean)
      (fun host op h hclean => (step_spec h op).1.mpr hclean) (Sound.new options)

/-- A descriptor whose init registers an observer. -/
def observerLoad (status : Res Unit) : Op :=
  .loadDescriptor (some ⟨48, 0, some (str "p"), some (str "1"), true, 0, 0, 0⟩)
    ⟨str "p", str "1", 0, capObserver, permissionObserver⟩
    { calls := [.observer ⟨str "log", true⟩ (some (.ok ()))], status }

/-- A host with an observer list. -/
def observedOptions : Options := ⟨fun _ => [], true, permissionObserver, false⟩

/-- An init that registers an observer and then fails: the plugin is freed, its adapter stays in the list. -/
theorem observer_stays : ¬ ∀ options ops, EachStep step Keeps (hostNew options) ops := by
  intro h
  have hkeeps := (h observedOptions [observerLoad (Status.cancelled "sc.plugin.init_failed")]).1
  exact absurd (hkeeps.ends.held.observers 0 (by decide)) (by decide)

/-- **A plugin is unloaded exactly while nothing refers to it**, after every run of clean operations, and
    then nothing of it is left: no registration, no adapter, no handle. -/
theorem unload_iff {options : Options} {ops : List Op} (hclean : EachStep step Clean (hostNew options) ops)
    {plugin : Nat} (hplugin : plugin ∈ (run step (hostNew options) ops).ids) :
    ((∃ host', (run step (hostNew options) ops).unload plugin = .ok host') ↔
      plugin ∉ (run step (hostNew options) ops).observers ∧
        plugin ∉ (run step (hostNew options) ops).adapters) ∧
    ∀ host', (run step (hostNew options) ops).unload plugin = .ok host' →
      plugin ∉ host'.ids ∧ plugin ∉ host'.observers ∧ plugin ∉ host'.adapters ∧
        ∀ r, ∀ entry ∈ host'.entries r, entry.plugin ≠ plugin := by
  have hstep : ∀ host op, Sound host → Clean host op → Sound (step host op) := fun _ op h => (step_spec h op).2
  have hsound := run_invariant hstep ops _ (Sound.new options) hclean
  generalize run step (hostNew options) ops = host at hsound hplugin
  unfold Host.unload
  cases hfind : host.loadedPlugins.find? fun p => p.id == plugin with
  | none =>
    obtain ⟨p, hp, rfl⟩ := List.mem_map.mp hplugin
    exact absurd (beq_self_eq_true p.id) (List.find?_eq_none.mp hfind p hp)
  | some p =>
    obtain rfl : p.id = plugin := by simpa using List.find?_some hfind
    -- the references are the adapters
    have hrefs : p.activeRefs = 0 ↔ p.id ∉ host.observers ∧ p.id ∉ host.adapters := by
      rw [hsound.refs p (List.mem_of_find?_eq_some hfind), Nat.add_eq_zero_iff, List.count_eq_zero,
        List.count_eq_zero]
    dsimp only
    by_cases hzero : p.activeRefs = 0
    · rw [if_neg (by omega)]
      refine ⟨iff_of_true ⟨_, rfl⟩ (hrefs.mp hzero), fun host' hhost' => ?_⟩
      obtain rfl := Except.ok.inj hhost'
      obtain ⟨hobservers, hadapters⟩ := hrefs.mp hzero
      refine ⟨?_, hobservers, hadapters, fun r entry hentry => of_decide_eq_true (List.mem_filter.mp hentry).2⟩
      simp [Host.ids]
    · rw [if_pos (by omega)]
      refine ⟨iff_of_false ?_ (mt hrefs.mpr hzero), fun host' hhost' => ?_⟩
      · rintro ⟨host', hhost'⟩
        exact absurd hhost' (Status.cancelled_ne_ok _ _)
      · exact absurd hhost' (Status.cancelled_ne_ok _ _)

/-- The observer keeps its plugin, until the list is cleared. -/
theorem unload_iff_observer :
    (¬ ∃ host', (run step (hostNew observedOptions) [observerLoad (.ok ())]).unload 0 = .ok host') ∧
    ∃ host', (run step (hostNew observedOptions) [observerLoad (.ok ()), .clearObservers]).unload 0 =
      .ok host' := by
  have hload : Clean (hostNew observedOptions) (observerLoad (.ok ())) := fun _ hstatus => absurd rfl hstatus
  have hkept : EachStep step Clean (hostNew observedOptions) [observerLoad (.ok ())] := ⟨hload, trivial⟩
  have hcleared : EachStep step Clean (hostNew observedOptions) [observerLoad (.ok ()), .clearObservers] :=
    ⟨hload, trivial, trivial⟩
  refine ⟨fun hunload => ?_, (unload_iff hcleared (by decide)).1.mpr (by decide)⟩
  exact absurd ((unload_iff hkept (by decide)).1.mp hunload).1 (by decide)

end SmolClaw.Plugins
