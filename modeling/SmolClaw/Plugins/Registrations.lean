/-
  Whose registrations the plugin host keeps.

  1. **Held** — every entry and every observer adapter belongs to a plugin that the host holds, and no name
     stands twice in a registry.  `Keeps` is what an operation owes: `Held` after it, and after every call of
     a guest with the plugin being loaded counted in; nothing new after a load that fails; nothing lost in a
     call that is refused.

  2. **The invariant** — `Sound` adds the reference counts: an adapter in the observer list, and an adapter
     that the program holds, is a reference of its plugin, so a plugin is unloaded after all of them are gone.

  3. **Defects** — a failing descriptor load leaves the adapters in the observer list and whatever its
     shutdown registers, a failing WASM load leaves the tools, a script's duplicate takes the script's other
     tools away, and a name with a NUL in it is looked up whole but found by what is before the NUL.  `Clean`
     excludes exactly these.

  4. **Loads** — what the three loaders have in common, and a descriptor's load.
-/
import SmolClaw.Lib.Table
import SmolClaw.Plugins.Host

namespace SmolClaw.Plugins

open Lib.Run Lib.Table

/-! ## What is owed -/

/-- The plugins that the host holds. -/
def Host.ids (host : Host) : List Nat := host.loadedPlugins.map Plugin.id

/-- **Every registration belongs to a plugin of the host**, and names stand for one thing in each registry. -/
structure Held (host : Host) : Prop where
  entries : ∀ r, ∀ entry ∈ host.entries r, entry.plugin ∈ host.ids
  observers : ∀ plugin ∈ host.observers, plugin ∈ host.ids
  names : ∀ r, Keyed Entry.name (host.entries r)
  builtin : ∀ r, ∀ entry ∈ host.entries r, entry.name ∉ host.options.builtin r

/-- The registries and the observer list are as they were. -/
def Same (host host' : Host) : Prop := host'.entries = host.entries ∧ host'.observers = host.observers

section Owed

variable {C : Type} (call : Loading → C → Loading × Bool) (cleanup : Loading → Loading)

/-- What a call of a guest owes: the registrations belong to plugins of the host or to the one being loaded,
    and a refused call takes nothing away. -/
structure CallKeeps (l : Loading) (c : C) : Prop where
  held : Held (call l c).1.keep
  entries : (call l c).2 = false → ∀ r, ∀ entry ∈ l.host.entries r, entry ∈ (call l c).1.host.entries r
  observers : (call l c).2 = false → ∀ plugin ∈ l.host.observers, plugin ∈ (call l c).1.host.observers

/-- What the calls of a guest owe, those of its shutdown included if the load fails. -/
structure CallsKeep (guest : Guest C) (l : Loading) : Prop where
  calls : EachStep (calling call) (CallKeeps call) l guest.calls
  shutdown : ∀ e, guest.finish (run (calling call) l guest.calls).tools = .error e →
    EachStep (calling call) (CallKeeps call) (cleanup (run (calling call) l guest.calls)) guest.shutdown

/-- What the end of a load owes. -/
structure EndKeeps (host : Host) (result : Host × Res Nat) : Prop where
  held : Held result.1
  failed : ∀ e, result.2 = .error e → Same host result.1

/-- What a load owes: each of its calls, and its end. -/
structure LoadKeeps (checks : Res Unit) (guest : Guest C) (host : Host) (manifest : Manifest)
    (result : Host × Res Nat) : Prop where
  calls : checks = .ok () → guest.start = .ok () → CallsKeep call cleanup guest (begin host manifest)
  ends : EndKeeps host result

end Owed

/-- **What an operation owes.** -/
def Keeps (host : Host) : Op → Prop
  | .loadDescriptor descriptor manifest init =>
      LoadKeeps apiCall dropRegistrations (validateDescriptorAndManifest host descriptor manifest) init.guest host manifest
        (loadDescriptor host descriptor manifest init)
  | .loadWasm manifest module =>
      LoadKeeps wasmHostRegisterTool id (wasmValidateManifest host manifest) module.guest host manifest
        (loadWasmPath host manifest module)
  | .loadPython manifest script =>
      LoadKeeps scriptRegisterTool dropRegistrations (pythonChecks host manifest script) script.guest host manifest
        (loadPythonPath host manifest script)
  | op => Held (step host op)

/-! ## Where nothing goes wrong -/

/-- A call puts an adapter into the observer list. -/
def observes (options : Options) (manifest : Manifest) : ApiCall → Bool
  | .observer vtab (some (.ok ())) =>
      options.observers && vtab.valid && manifest.requestedPermissions &&& permissionObserver != 0 &&
        manifest.capabilities &&& capObserver != 0
  | _ => false

section Names

variable {C : Type} (name : C → Option Bytes)

/-- The names of the tool registry after a call, if it registers what is free and nothing goes wrong. -/
def take (taken : List Bytes) (c : C) : List Bytes :=
  match name c with
  | none => taken
  | some n => if n ∈ taken then taken else taken ++ [vtabName n]

/-- A name that is free as a whole is free up to its first NUL. -/
def ToldApart (taken : List Bytes) (c : C) : Prop := ∀ n, name c = some n → n ∉ taken → vtabName n ∉ taken

/-- A name that is taken comes before the guest has registered anything. -/
def NoLoss (before taken : List Bytes) (c : C) : Prop := ∀ n, name c = some n → n ∈ taken → taken = before

/-- The calls ask for names that are taken, if for any. -/
def AllTaken (taken : List Bytes) (calls : List C) : Prop := ∀ c ∈ calls, ∀ n, name c = some n → n ∈ taken

end Names

/-- The load of a module fails once it runs: an export is missing, traps or returns another version, or the
    module registers no tool. -/
def WasmModule.Fails (module : WasmModule) (taken : List Bytes) : Prop :=
  module.exports ≠ .ok () ∨ AllTaken WasmCall.name taken module.calls

/-- **The operations that keep what they owe.** -/
def Clean (host : Host) : Op → Prop
  | .loadDescriptor descriptor manifest init =>
      validateDescriptorAndManifest host descriptor manifest = .ok () → init.status ≠ .ok () →
        (∀ c ∈ init.calls, observes host.options manifest c = false) ∧
          ∀ c ∈ init.shutdown, (apiCall (begin host manifest) c).2 = false
  | .loadWasm manifest module =>
      wasmValidateManifest host manifest = .ok () → module.start = .ok () →
        EachStep (take WasmCall.name) (ToldApart WasmCall.name) (host.taken .tool) module.calls ∧
          (module.Fails (host.taken .tool) →
            AllTaken WasmCall.name (host.taken .tool) (module.calls ++ module.shutdown))
  | .loadPython manifest script =>
      pythonChecks host manifest script = .ok () → script.guest.start = .ok () →
        EachStep (take scriptName)
          (fun taken c => ToldApart scriptName taken c ∧ NoLoss scriptName (host.taken .tool) taken c)
          (host.taken .tool) script.calls
  | _ => True

/-! ## The invariant -/

/-- What holds between the operations. -/
structure Sound (host : Host) : Prop extends Held host where
  adapters : ∀ plugin ∈ host.adapters, plugin ∈ host.ids
  single : host.ids.Nodup
  old : ∀ plugin ∈ host.ids, plugin < host.next
  refs : ∀ p ∈ host.loadedPlugins, p.activeRefs = host.observers.count p.id + host.adapters.count p.id

theorem Sound.new (options : Options) : Sound (hostNew options) := by
  constructor
  · constructor
    · intro r entry h; cases h
    · intro plugin h; cases h
    · intro r; exact Keyed.nil
    · intro r entry h; cases h
  · intro plugin h; cases h
  · exact List.nodup_nil
  · intro plugin h; cases h
  · intro p h; cases h

/-- A number that is used up changes nothing. -/
theorem Sound.skip {host : Host} (h : Sound host) : Sound { host with next := host.next + 1 } where
  entries := h.entries
  observers := h.observers
  names := h.names
  builtin := h.builtin
  adapters := h.adapters
  single := h.single
  old plugin hplugin := Nat.lt_succ_of_lt (h.old plugin hplugin)
  refs := h.refs

theorem entries_push_self {host : Host} {r : Registry} {entry : Entry} :
    (host.push r entry).entries r = host.entries r ++ [entry] :=
  Function.update_self r _ _

theorem entries_push_ne {host : Host} {r r' : Registry} {entry : Entry} (h : r' ≠ r) :
    (host.push r entry).entries r' = host.entries r' :=
  Function.update_of_ne h _ _

theorem mem_push {host : Host} {r r' : Registry} {entry other : Entry} :
    other ∈ (host.push r entry).entries r' ↔ other ∈ host.entries r' ∨ (r' = r ∧ other = entry) := by
  by_cases hr : r' = r
  · subst hr
    simp [entries_push_self]
  · simp [entries_push_ne hr, hr]

/-- A new name keeps the names apart, and no other does. -/
theorem held_push_iff {host : Host} (h : Held host) {r : Registry} {plugin : Nat} {name : Bytes}
    (hplugin : plugin ∈ host.ids) : Held (host.push r ⟨plugin, name⟩) ↔ name ∉ host.taken r := by
  constructor
  · intro hpush hname
    rcases List.mem_append.mp hname with hbuiltin | hentry
    · exact hpush.builtin r ⟨plugin, name⟩ (mem_push.mpr (Or.inr ⟨rfl, rfl⟩)) hbuiltin
    · have hnames := hpush.names r
      rw [Keyed, entries_push_self, List.map_append] at hnames
      exact (List.nodup_append.mp hnames).2.2 name hentry name List.mem_cons_self rfl
  · intro hname
    obtain ⟨hbuiltin, hentry⟩ := not_or.mp (fun hor => hname (List.mem_append.mpr hor))
    constructor
    · intro r' entry hmem
      rcases mem_push.mp hmem with hmem | ⟨-, rfl⟩
      · exact h.entries r' entry hmem
      · exact hplugin
    · exact h.observers
    · intro r'
      by_cases hr : r' = r
      · subst hr
        have hnew := (h.names r').upsert (⟨plugin, name⟩ : Entry)
        rw [upsert_of_not_mem hentry] at hnew
        rw [entries_push_self]
        exact hnew
      · rw [entries_push_ne hr]
        exact h.names r'
    · intro r' entry hmem
      rcases mem_push.mp hmem with hmem | ⟨rfl, rfl⟩
      · exact h.builtin r' entry hmem
      · exact hbuiltin

theorem Sound.push {host : Host} (h : Sound host) {r : Registry} {plugin : Nat} {name : Bytes}
    (hplugin : plugin ∈ host.ids) (hname : name ∉ host.taken r) : Sound (host.push r ⟨plugin, name⟩) where
  toHeld := (held_push_iff h.toHeld hplugin).mpr hname
  adapters := h.adapters
  single := h.single
  old := h.old
  refs := h.refs

/-! ## A load under way -/

/-- A plugin while its guest runs: what it has registered, by name, how many adapters it has in the observer
    list, and the tools in its own vector. -/
def grown (host : Host) (manifest : Manifest) (own : Registry → List Bytes) (observers tools : Nat) :
    Loading where
  host := { host with
    next := host.next + 1
    entries := fun r => host.entries r ++ (own r).map (Entry.mk host.next)
    observers := host.observers ++ List.replicate observers host.next }
  plugin := ⟨host.next, manifest, observers⟩
  tools := tools

section Grown

variable {host : Host} {manifest : Manifest} {own : Registry → List Bytes} {observers tools : Nat}

theorem begin_eq : begin host manifest = grown host manifest (fun _ => []) 0 0 := by
  simp [begin, grown]

theorem taken_grown (r : Registry) :
    (grown host manifest own observers tools).host.taken r = host.taken r ++ own r := by
  simp [Host.taken, grown, Function.comp_def]

/-- One more name. -/
theorem push_grown (r : Registry) (name : Bytes) :
    (grown host manifest own observers tools).host.push r ⟨host.next, name⟩ =
      (grown host manifest (Function.update own r (own r ++ [name])) observers tools).host := by
  unfold Host.push grown
  congr 1
  funext r'
  by_cases hr : r' = r
  · subst hr
    simp
  · simp [Function.update_of_ne hr]

/-- The host holds no registration of a plugin that is still to come. -/
theorem Sound.entry_old (h : Sound host) {r : Registry} {entry : Entry} (hentry : entry ∈ host.entries r) :
    entry.plugin ≠ host.next :=
  fun heq => Nat.lt_irrefl _ (heq ▸ h.old _ (h.entries r entry hentry))

/-- Taking the registrations of a new plugin away. -/
theorem remove_grown (h : Sound host) :
    (grown host manifest own observers tools).host.removePluginRegistrations host.next =
      (grown host manifest (fun _ => []) observers tools).host := by
  unfold Host.removePluginRegistrations grown
  congr 1
  funext r
  have hold : (host.entries r).filter (fun entry => entry.plugin ≠ host.next) = host.entries r :=
    List.filter_eq_self.mpr fun entry hentry => decide_eq_true (h.entry_old hentry)
  have hown : ((own r).map (Entry.mk host.next)).filter (fun entry => entry.plugin ≠ host.next) = [] := by
    refine List.filter_eq_nil_iff.mpr fun entry hentry => ?_
    obtain ⟨name, -, rfl⟩ := List.mem_map.mp hentry
    simp
  rw [List.filter_append, hold, hown]
  rfl

theorem sound_begin (h : Sound host) : Sound (begin host manifest).keep where
  entries r entry hentry := by
    rw [Host.ids, Loading.keep, List.map_append]
    exact List.mem_append_left _ (h.entries r entry hentry)
  observers plugin hplugin := by
    rw [Host.ids, Loading.keep, List.map_append]
    exact List.mem_append_left _ (h.observers plugin hplugin)
  names := h.names
  builtin := h.builtin
  adapters plugin hplugin := by
    rw [Host.ids, Loading.keep, List.map_append]
    exact List.mem_append_left _ (h.adapters plugin hplugin)
  single := by
    rw [Host.ids, Loading.keep, List.map_append, List.nodup_append]
    refine ⟨h.single, List.nodup_singleton _, fun id hid id' hid' heq => ?_⟩
    rw [List.map_singleton, List.mem_singleton] at hid'
    exact Nat.lt_irrefl host.next (by simpa [begin, heq, hid'] using h.old id hid)
  old plugin hplugin := by
    rw [Host.ids, Loading.keep, List.map_append] at hplugin
    rcases List.mem_append.mp hplugin with hplugin | hplugin
    · exact Nat.lt_succ_of_lt (h.old plugin hplugin)
    · rw [List.mem_singleton.mp hplugin]
      exact Nat.lt_succ_self host.next
  refs p hp := by
    rcases List.mem_append.mp hp with hp | hp
    · exact h.refs p hp
    · -- nothing can refer to the new plugin
      rw [List.mem_singleton.mp hp]
      have hnone : host.next ∉ host.ids := fun hmem => Nat.lt_irrefl _ (h.old _ hmem)
      have hobservers : host.observers.count host.next = 0 :=
        List.count_eq_zero.mpr fun hmem => hnone (h.observers _ hmem)
      have hadapters : host.adapters.count host.next = 0 :=
        List.count_eq_zero.mpr fun hmem => hnone (h.adapters _ hmem)
      show 0 = host.observers.count host.next + host.adapters.count host.next
      rw [hobservers, hadapters]

theorem ids_grown : (grown host manifest own observers tools).keep.ids = host.ids ++ [host.next] := by
  simp [Host.ids, Loading.keep, grown]

theorem new_mem_ids : host.next ∈ (grown host manifest own observers tools).keep.ids := by
  simp [ids_grown]

/-- **One more adapter in the observer list, and one more reference.** -/
theorem sound_observe (h : Sound (grown host manifest own observers tools).keep) :
    Sound (grown host manifest own (observers + 1) tools).keep := by
  have hids : (grown host manifest own (observers + 1) tools).keep.ids =
      (grown host manifest own observers tools).keep.ids := by rw [ids_grown, ids_grown]
  have hsingle := h.single
  rw [ids_grown, List.nodup_append] at hsingle
  refine { names := h.names, builtin := h.builtin, entries := ?_, observers := ?_, adapters := ?_,
           single := ?_, old := ?_, refs := ?_ }
  · rw [hids]; exact h.entries
  · intro plugin hplugin
    rw [hids]
    rcases List.mem_append.mp hplugin with hold | hnew
    · exact h.observers plugin (List.mem_append_left _ hold)
    · rw [List.eq_of_mem_replicate hnew]
      exact new_mem_ids
  · rw [hids]; exact h.adapters
  · rw [hids]; exact h.single
  · rw [hids]; exact h.old
  · intro p hp
    rcases List.mem_append.mp hp with hp | hp
    · -- the other plugins are not referred to by the new adapter
      have hne : host.next ≠ p.id := fun heq =>
        hsingle.2.2 p.id (List.mem_map_of_mem hp) host.next List.mem_cons_self heq.symm
      have hrefs := h.refs p (List.mem_append_left _ hp)
      simpa [Loading.keep, grown, List.count_replicate, hne] using hrefs
    · rw [List.mem_singleton.mp hp]
      have hrefs := h.refs _ (List.mem_append_right _ List.mem_cons_self)
      simp only [Loading.keep, grown, List.count_append, List.count_replicate_self] at hrefs ⊢
      omega

end Grown

/-! ## Loads -/

theorem endLoad_ok {C : Type} {call : Loading → C → Loading × Bool} {cleanup : Loading → Loading}
    {guest : Guest C} {l : Loading} (h : guest.finish l.tools = .ok ()) :
    endLoad call cleanup guest l = (l.keep, .ok l.plugin.id) := by
  rw [endLoad, h]

theorem endLoad_error {C : Type} {call : Loading → C → Loading × Bool} {cleanup : Loading → Loading}
    {guest : Guest C} {l : Loading} {e : ScError} (h : guest.finish l.tools = .error e) :
    endLoad call cleanup guest l = ((run (calling call) (cleanup l) guest.shutdown).host, .error e) := by
  rw [endLoad, h]

/-- **A load keeps what it owes** exactly if its calls and its end do, once there is a plugin; and with a
    sound end the host behind it is sound. -/
theorem load_spec {C : Type} {call : Loading → C → Loading × Bool} {cleanup : Loading → Loading}
    {checks : Res Unit} {guest : Guest C} {host : Host} {manifest : Manifest} {clean : Prop} (h : Sound host)
    (hnone : (cleanup (begin host manifest)).host = { host with next := host.next + 1 })
    (hend : checks = .ok () → guest.start = .ok () →
      (CallsKeep call cleanup guest (begin host manifest) ∧
          EndKeeps host (endLoad call cleanup guest (run (calling call) (begin host manifest) guest.calls)) ↔
            clean) ∧
        (clean → Sound (endLoad call cleanup guest (run (calling call) (begin host manifest) guest.calls)).1)) :
    (LoadKeeps call cleanup checks guest host manifest (load call cleanup checks guest host manifest) ↔
        (checks = .ok () → guest.start = .ok () → clean)) ∧
      ((checks = .ok () → guest.start = .ok () → clean) →
        Sound (load call cleanup checks guest host manifest).1) := by
  unfold load
  cases checks with
  | error e =>
    have hnever : ∀ {p : Prop}, (.error e : Res Unit) = .ok () → p := fun hok => by cases hok
    exact ⟨⟨fun _ => hnever, fun _ => ⟨hnever, h.toHeld, fun _ _ => ⟨rfl, rfl⟩⟩⟩, fun _ => h⟩
  | ok =>
    cases hstart : guest.start with
    | error e =>
      have hnever : ∀ {p : Prop}, (.error e : Res Unit) = .ok () → p := fun hok => by cases hok
      dsimp only
      rw [hnone]
      exact ⟨⟨fun _ _ => hnever, fun _ =>
        ⟨fun _ hok => hnever (hstart.symm.trans hok), h.skip.toHeld, fun _ _ => ⟨rfl, rfl⟩⟩⟩, fun _ => h.skip⟩
    | ok =>
      obtain ⟨hkeeps, hsound⟩ := hend rfl hstart
      exact ⟨⟨fun hk _ _ => hkeeps.mp ⟨hk.calls rfl hstart, hk.ends⟩, fun hclean =>
        ⟨fun _ _ => (hkeeps.mpr (hclean rfl rfl)).1, (hkeeps.mpr (hclean rfl rfl)).2⟩⟩,
        fun hclean => hsound (hclean rfl rfl)⟩

/-- A call that changes nothing keeps what it owes. -/
theorem callKeeps_refused {C : Type} {call : Loading → C → Loading × Bool} {l : Loading} {c : C} {ok : Bool}
    (hcall : call l c = (l, ok)) (h : Held l.keep) : CallKeeps call l c := by
  constructor
  · rw [hcall]
    exact h
  · intro _ r entry hentry
    rw [hcall]
    exact hentry
  · intro _ plugin hplugin
    rw [hcall]
    exact hplugin

/-- A call that succeeds owes the state behind it. -/
theorem callKeeps_accepted {C : Type} {call : Loading → C → Loading × Bool} {l l' : Loading} {c : C}
    (hcall : call l c = (l', true)) : CallKeeps call l c ↔ Held l'.keep := by
  constructor
  · intro h
    have hheld := h.held
    rw [hcall] at hheld
    exact hheld
  · intro h
    refine ⟨by rw [hcall]; exact h, ?_, ?_⟩
    · intro hok
      rw [hcall] at hok
      cases hok
    · intro hok
      rw [hcall] at hok
      cases hok

/-! ## Descriptors -/

theorem addEntry_ok {r : Registry} {l l' : Loading} {name : Bytes} (h : addEntry r l name = .ok l') :
    name ∉ l.host.taken r ∧ l' = { l with host := l.host.push r ⟨l.plugin.id, name⟩ } := by
  obtain ⟨-, -, hadd⟩ := Res.bind_eq_ok.mp h
  split at hadd
  · exact absurd hadd (Status.invalidArgument_ne_ok _ _)
  · next hfree => exact ⟨fun hname => hfree (decide_eq_true hname), (Except.ok.inj hadd).symm⟩

theorem registerApi_ok {r : Registry} {l l' : Loading} {vtab : Vtab} {factory : Bool}
    (h : registerApi r l vtab factory = .ok l') :
    vtab.name ∉ l.host.taken r ∧ l' = { l with host := l.host.push r ⟨l.plugin.id, vtab.name⟩ } := by
  unfold registerApi at h
  split at h
  · exact absurd h (Status.invalidArgument_ne_ok _ _)
  · exact addEntry_ok h

/-- A memory backend is registered as anything else is, on a host that allows it. -/
theorem registerMemoryApi_ok {l l' : Loading} {vtab : Vtab} {factory : Bool}
    (h : registerMemoryApi l vtab factory = .ok l') :
    l.host.options.allowMemoryBackends = true ∧ registerApi .memory l vtab factory = .ok l' := by
  unfold registerMemoryApi at h
  split at h
  · exact absurd h (Status.invalidArgument_ne_ok _ _)
  · next hvalid =>
    split at h
    · exact absurd h (Status.securityDenied_ne_ok _ _)
    · next hallowed =>
      refine ⟨by simpa using hallowed, ?_⟩
      rw [registerApi, if_neg hvalid]
      exact h

/-- **A registration through the host API** adds one entry, under a name that was free. -/
theorem answer_register {r : Registry} {l l' : Loading} {vtab : Vtab} {factory : Bool}
    (h : (ApiCall.register r vtab factory).answer l = .ok l') :
    vtab.name ∉ l.host.taken r ∧ l' = { l with host := l.host.push r ⟨l.plugin.id, vtab.name⟩ } := by
  cases r with
  | memory => exact registerApi_ok (registerMemoryApi_ok h).2
  | provider | channel | tool | peripheral => exact registerApi_ok h

/-- **An observer's registration** puts one adapter into the list. -/
theorem answer_observer {l : Loading} {vtab : Vtab} {factory : Option (Res Unit)} :
    orElse l ((ApiCall.observer vtab factory).answer l) =
      if observes l.host.options l.plugin.manifest (.observer vtab factory) then
        ({ l with
            host := { l.host with observers := l.host.observers ++ [l.plugin.id] }
            plugin := { l.plugin with activeRefs := l.plugin.activeRefs + 1 } }, true)
      else (l, false) := by
  unfold ApiCall.answer registerObserverApi
  cases factory with
  | none => rfl
  | some made =>
    by_cases hgiven : l.host.options.observers = true ∧ vtab.valid = true
    · have hcheck : ¬ (!l.host.options.observers || !vtab.valid) = true := by simp [hgiven]
      simp only [if_neg hcheck]
      by_cases hbits : l.plugin.manifest.requestedPermissions &&& permissionObserver = 0 ∨
          l.plugin.manifest.capabilities &&& capObserver = 0
      · have hrefused : observes l.host.options l.plugin.manifest (.observer vtab (some made)) = false := by
          rcases made with e | _
          · rfl
          · rcases hbits with hbits | hbits <;> simp [observes, hbits]
        rw [registerPermissionCheck, if_pos hbits, hrefused]
        rfl
      · rw [registerPermissionCheck, if_neg hbits]
        rcases made with e | _
        · rfl
        · have haccepted :
              observes l.host.options l.plugin.manifest (.observer vtab (some (.ok ()))) = true := by
            obtain ⟨hpermission, hcapability⟩ := not_or.mp hbits
            simp [observes, hgiven, hpermission, hcapability]
          rw [if_pos haccepted]
          rfl
    · have hcheck : (!l.host.options.observers || !vtab.valid) = true := by
        rw [← Bool.not_and, Bool.not_eq_true', ← Bool.not_eq_true, Bool.and_eq_true]
        exact hgiven
      have hrefused : observes l.host.options l.plugin.manifest (.observer vtab (some made)) = false := by
        rcases made with e | _
        · rfl
        · rw [← Bool.and_eq_true, Bool.not_eq_true] at hgiven
          simp [observes, hgiven]
      simp only [if_pos hcheck, hrefused]
      rfl

/-- **One more call of a descriptor's init** keeps what it owes, and leaves an adapter in the list exactly if
    it is an observer's registration that is accepted. -/
theorem apiCall_grown {host : Host} {manifest : Manifest} {own : Registry → List Bytes} {observers : Nat}
    (h : Sound (grown host manifest own observers 0).keep) (c : ApiCall) :
    CallKeeps apiCall (grown host manifest own observers 0) c ∧
    Sound (calling apiCall (grown host manifest own observers 0) c).keep ∧
    ∃ own', calling apiCall (grown host manifest own observers 0) c =
      grown host manifest own' (observers + if observes host.options manifest c then 1 else 0) 0 := by
  cases c with
  | register r vtab factory =>
    cases hanswer : (ApiCall.register r vtab factory).answer (grown host manifest own observers 0) with
    | error e =>
      have hcall : apiCall (grown host manifest own observers 0) (.register r vtab factory) =
          (grown host manifest own observers 0, false) := by rw [apiCall, hanswer]; rfl
      rw [calling, hcall]
      exact ⟨callKeeps_refused hcall h.toHeld, h, own, rfl⟩
    | ok l' =>
      have hcall : apiCall (grown host manifest own observers 0) (.register r vtab factory) = (l', true) := by
        rw [apiCall, hanswer]; rfl
      obtain ⟨hfree, rfl⟩ := answer_register hanswer
      have hsound := Sound.push h new_mem_ids hfree
      rw [calling, hcall]
      refine ⟨(callKeeps_accepted hcall).mpr hsound.toHeld, hsound,
        Function.update own r (own r ++ [vtab.name]), ?_⟩
      exact congrArg (fun host' => Loading.mk host' ⟨host.next, manifest, observers⟩ 0)
        (push_grown r vtab.name)
  | observer vtab factory =>
    have hanswer := @answer_observer (grown host manifest own observers 0) vtab factory
    rw [calling]
    by_cases hobserves : observes host.options manifest (.observer vtab factory) = true
    · have hcall : apiCall (grown host manifest own observers 0) (.observer vtab factory) =
          (grown host manifest own (observers + 1) 0, true) := by
        refine hanswer.trans ((if_pos hobserves).trans ?_)
        simp [grown, List.replicate_succ']
      rw [hcall, if_pos hobserves]
      have hsound := sound_observe h
      exact ⟨(callKeeps_accepted hcall).mpr hsound.toHeld, hsound, own, rfl⟩
    · have hcall : apiCall (grown host manifest own observers 0) (.observer vtab factory) =
          (grown host manifest own observers 0, false) := hanswer.trans (if_neg hobserves)
      rw [hcall, if_neg hobserves]
      exact ⟨callKeeps_refused hcall h.toHeld, h, own, rfl⟩

/-- **A descriptor's whole init.** -/
theorem run_apiCall {host : Host} {manifest : Manifest} {calls : List ApiCall} :
    ∀ {own : Registry → List Bytes} {observers : Nat}, Sound (grown host manifest own observers 0).keep →
      EachStep (calling apiCall) (CallKeeps apiCall) (grown host manifest own observers 0) calls ∧
      Sound (run (calling apiCall) (grown host manifest own observers 0) calls).keep ∧
      ∃ own', run (calling apiCall) (grown host manifest own observers 0) calls =
        grown host manifest own' (observers + calls.countP (observes host.options manifest)) 0 := by
  induction calls with
  | nil => intro own observers h; exact ⟨trivial, h, own, rfl⟩
  | cons c calls ih =>
    intro own observers h
    obtain ⟨hkeeps, hsound, own', hnext⟩ := apiCall_grown h c
    rw [hnext] at hsound
    obtain ⟨heach, hlast, own'', hrun⟩ := ih hsound
    refine ⟨⟨hkeeps, by rw [hnext]; exact heach⟩, ?_, own'', ?_⟩
    · show Sound (run (calling apiCall) (calling apiCall _ c) calls).keep
      rw [hnext]
      exact hlast
    · show run (calling apiCall) (calling apiCall _ c) calls = _
      rw [hnext, hrun, List.countP_cons, Nat.add_assoc, Nat.add_comm (List.countP _ calls)]

/-- What is left of a new plugin when its registrations are taken away: the adapters in the observer list. -/
theorem dropRegistrations_grown {host : Host} (h : Sound host) {manifest : Manifest}
    {own : Registry → List Bytes} {observers tools : Nat} :
    dropRegistrations (grown host manifest own observers tools) =
      grown host manifest (fun _ => []) observers tools :=
  congrArg (fun host' => Loading.mk host' ⟨host.next, manifest, observers⟩ tools) (remove_grown h)

/-- The host behind a failed load, when nothing was left. -/
theorem endKeeps_skip {host : Host} (h : Sound host) {e : ScError} :
    EndKeeps host ({ host with next := host.next + 1 }, .error e) :=
  ⟨h.skip.toHeld, fun _ _ => ⟨rfl, rfl⟩⟩

/-- A load that succeeds owes the plugin's registrations only. -/
theorem endKeeps_keep {host : Host} {l : Loading} (h : Sound l.keep) {id : Nat} :
    EndKeeps host (l.keep, .ok id) := by
  refine ⟨h.toHeld, ?_⟩
  intro e he
  cases he

theorem dropRegistrations_begin {host : Host} (h : Sound host) {manifest : Manifest} :
    dropRegistrations (begin host manifest) = begin host manifest := by
  rw [begin_eq, dropRegistrations_grown h]

/-- A guest whose calls are all refused leaves everything as it is. -/
theorem run_refused {C : Type} {call : Loading → C → Loading × Bool} {l : Loading} (hheld : Held l.keep) :
    ∀ {calls : List C}, (∀ c ∈ calls, call l c = (l, false)) →
      EachStep (calling call) (CallKeeps call) l calls ∧ run (calling call) l calls = l := by
  intro calls
  induction calls with
  | nil => exact fun _ => ⟨trivial, rfl⟩
  | cons c calls ih =>
    intro h
    have hcall := h c List.mem_cons_self
    have hsame : calling call l c = l := congrArg Prod.fst hcall
    obtain ⟨heach, hrun⟩ := ih fun c hc => h c (List.mem_cons_of_mem _ hc)
    refine ⟨⟨callKeeps_refused hcall hheld, ?_⟩, ?_⟩
    · rwa [hsame]
    · show run (calling call) (calling call l c) calls = l
      rwa [hsame]

theorem apiCall_refused {l : Loading} {c : ApiCall} (h : (apiCall l c).2 = false) : apiCall l c = (l, false) := by
  unfold apiCall at h ⊢
  cases hanswer : c.answer l with
  | error e => rfl
  | ok l' => rw [hanswer] at h; exact absurd h.symm Bool.false_ne_true

/-- The number of registrations. -/
def Host.size (host : Host) : Nat :=
  ((host.entries .provider).length + (host.entries .channel).length + (host.entries .tool).length +
    (host.entries .memory).length + (host.entries .peripheral).length) + host.observers.length

/-- A call that is accepted registers something. -/
theorem apiCall_size {l : Loading} {c : ApiCall} (h : (apiCall l c).2 = true) :
    (calling apiCall l c).host.size = l.host.size + 1 := by
  cases c with
  | register r vtab factory =>
    cases hanswer : (ApiCall.register r vtab factory).answer l with
    | error e => rw [apiCall, hanswer] at h; exact absurd h Bool.false_ne_true
    | ok l' =>
      rw [calling, apiCall, hanswer]
      obtain ⟨-, rfl⟩ := answer_register hanswer
      show (l.host.push r ⟨l.plugin.id, vtab.name⟩).size = l.host.size + 1
      cases r <;> simp only [Host.size, Host.push, Function.update, reduceCtorEq, eq_rec_constant, dite_eq_ite,
        if_true, if_false, List.length_append, List.length_singleton] <;> omega
  | observer vtab factory =>
    have hanswer := @answer_observer l vtab factory
    rw [calling, apiCall, hanswer]
    rw [apiCall, hanswer] at h
    split at h
    · next hobserves =>
      rw [if_pos hobserves]
      show (Host.size { l.host with observers := l.host.observers ++ [l.plugin.id] }) = l.host.size + 1
      rw [Host.size, List.length_append]
      exact (Nat.add_assoc _ _ _).symm
    · exact absurd h Bool.false_ne_true

/-- **Registrations only come**, so a run that leaves as many has none of its calls accepted. -/
theorem run_size {calls : List ApiCall} : ∀ {l : Loading},
    l.host.size ≤ (run (calling apiCall) l calls).host.size ∧
      ((run (calling apiCall) l calls).host.size = l.host.size → ∀ c ∈ calls, (apiCall l c).2 = false) := by
  induction calls with
  | nil => exact ⟨Nat.le_refl _, fun _ _ hc => absurd hc List.not_mem_nil⟩
  | cons c calls ih =>
    intro l
    obtain ⟨hle, hnone⟩ := @ih (calling apiCall l c)
    change _ ≤ (run (calling apiCall) (calling apiCall l c) calls).host.size ∧
      ((run (calling apiCall) (calling apiCall l c) calls).host.size = _ → _)
    cases hcall : (apiCall l c).2 with
    | true =>
      have hmore := apiCall_size hcall
      exact ⟨by omega, fun hsame => by omega⟩
    | false =>
      have hsame : calling apiCall l c = l := congrArg Prod.fst (apiCall_refused hcall)
      rw [hsame] at hle hnone ⊢
      exact ⟨hle, fun h => List.forall_mem_cons.mpr ⟨hcall, hnone h⟩⟩

/-- **A descriptor's load** keeps what it owes exactly if it succeeds, or its init has put nothing into the
    observer list and its shutdown registers nothing. -/
theorem loadDescriptor_spec {host : Host} (h : Sound host) (descriptor : Option Descriptor)
    (manifest : Manifest) (init : DescriptorInit) :
    (Keeps host (.loadDescriptor descriptor manifest init) ↔
        Clean host (.loadDescriptor descriptor manifest init)) ∧
      (Clean host (.loadDescriptor descriptor manifest init) →
        Sound (loadDescriptor host descriptor manifest init).1) := by
  have hstart : ∀ {p q : Prop}, (p → (.ok () : Res Unit) = .ok () → q) ↔ (p → q) := fun {p q} =>
    ⟨fun hq hp => hq hp rfl, fun hq hp _ => hq hp⟩
  have hspec := @load_spec _ apiCall dropRegistrations (validateDescriptorAndManifest host descriptor manifest)
    init.guest host manifest
    (init.status ≠ .ok () → (∀ c ∈ init.calls, observes host.options manifest c = false) ∧
      ∀ c ∈ init.shutdown, (apiCall (begin host manifest) c).2 = false) h
    (congrArg Loading.host (dropRegistrations_begin h)) fun _ _ => ?_
  · exact ⟨hspec.1.trans hstart, fun hclean => hspec.2 (hstart.mpr hclean)⟩
  have hbegin := @sound_begin host manifest h
  obtain ⟨heach, hlast, own, hrun⟩ := @run_apiCall host manifest init.calls _ _ (begin_eq ▸ hbegin)
  rw [← begin_eq] at heach hrun hlast
  rw [Nat.zero_add] at hrun
  have hnone : (init.calls.countP (observes host.options manifest) = 0) ↔
      ∀ c ∈ init.calls, observes host.options manifest c = false :=
    List.countP_eq_zero.trans (forall₂_congr fun _ _ => Bool.eq_false_iff.symm)
  rw [← hnone]
  change (CallsKeep apiCall dropRegistrations init.guest _ ∧
    EndKeeps host (endLoad apiCall dropRegistrations init.guest (run _ _ init.calls)) ↔ _) ∧
      (_ → Sound (endLoad apiCall dropRegistrations init.guest (run _ _ init.calls)).1)
  cases hstatus : init.status with
  | ok =>
    have hfinish : ∀ tools, init.guest.finish tools = .ok () := fun _ => hstatus
    rw [hrun] at hlast
    rw [endLoad_ok (hfinish _), hrun]
    refine ⟨iff_of_true ⟨⟨heach, fun e he => ?_⟩, endKeeps_keep hlast⟩ fun hfails => absurd rfl hfails,
      fun _ => hlast⟩
    exact absurd ((hfinish _).symm.trans he) nofun
  | error e =>
    have hfinish : ∀ tools, init.guest.finish tools = .error e := fun _ => hstatus
    have hfails : (.error e : Res Unit) ≠ .ok () := nofun
    have hdropped : dropRegistrations (run (calling apiCall) (begin host manifest) init.calls) =
        grown host manifest (fun _ => []) (init.calls.countP (observes host.options manifest)) 0 := by
      rw [hrun, dropRegistrations_grown h]
    -- a shutdown whose calls are refused, behind an init without observers
    have hquiet : init.calls.countP (observes host.options manifest) = 0 →
        (∀ c ∈ init.shutdown, (apiCall (begin host manifest) c).2 = false) →
        EachStep (calling apiCall) (CallKeeps apiCall) (begin host manifest) init.shutdown ∧
          dropRegistrations (run (calling apiCall) (begin host manifest) init.calls) = begin host manifest ∧
          run (calling apiCall) (begin host manifest) init.shutdown = begin host manifest := by
      intro hobservers hshutdown
      obtain ⟨hsteps, hsame⟩ := run_refused hbegin.toHeld fun c hc => apiCall_refused (hshutdown c hc)
      rw [hdropped, hobservers, ← begin_eq]
      exact ⟨hsteps, rfl, hsame⟩
    have hend : endLoad apiCall dropRegistrations init.guest (run (calling apiCall) (begin host manifest)
        init.calls) = ((run (calling apiCall) (dropRegistrations (run (calling apiCall) (begin host manifest)
          init.calls)) init.shutdown).host, .error e) := endLoad_error (hfinish _)
    rw [hend]
    refine ⟨⟨fun hkeeps _ => ?_, fun hclean => ?_⟩, fun hclean => ?_⟩
    · obtain ⟨hentries, hobservers⟩ := hkeeps.2.failed e rfl
      have hsize : (run (calling apiCall) (dropRegistrations (run (calling apiCall) (begin host manifest)
          init.calls)) init.shutdown).host.size = host.size := by
        unfold Host.size
        rw [hentries, hobservers]
      rw [hdropped] at hsize
      obtain ⟨hle, hrefused⟩ := @run_size init.shutdown
        (grown host manifest (fun _ => []) (init.calls.countP (observes host.options manifest)) 0)
      have hgrown : (grown host manifest (fun _ => [])
          (init.calls.countP (observes host.options manifest)) 0).host.size =
            host.size + init.calls.countP (observes host.options manifest) := by
        simp only [Host.size, grown, List.map_nil, List.append_nil, List.length_append, List.length_replicate]
        omega
      have hzero : init.calls.countP (observes host.options manifest) = 0 := by omega
      rw [hzero, ← begin_eq] at hrefused hgrown hsize
      exact ⟨hzero, hrefused (hsize.trans (by omega))⟩
    · obtain ⟨hobservers, hshutdown⟩ := hclean hfails
      obtain ⟨hsteps, hdrop, hsame⟩ := hquiet hobservers hshutdown
      rw [hdrop, hsame]
      refine ⟨⟨heach, fun _ _ => ?_⟩, endKeeps_skip h⟩
      show EachStep _ _ (dropRegistrations (run (calling apiCall) (begin host manifest) init.calls)) init.shutdown
      rwa [hdrop]
    · obtain ⟨hobservers, hshutdown⟩ := hclean hfails
      obtain ⟨-, hdrop, hsame⟩ := hquiet hobservers hshutdown
      rw [hdrop, hsame]
      exact h.skip

end SmolClaw.Plugins
