/-
  The loads of guests that register tools: WASM modules and Python scripts.

  1. **Calls** — a guest's call is nothing, a refusal, or one more tool (`guestCall_cases`).

  2. **In step** — `Under` ties a load to the list of names that the tool registry answers to: both grow by the
     same names, so what a guest's calls owe is a question about names alone (`guest_run`), which is how
     `Clean` puts it.

  3. **Ends** — a WASM module may register in its shutdown too, which a failing load runs behind everything
     else (`loadWasm_spec`); a script's load takes away what it registered (`loadPython_spec`).
-/
import SmolClaw.Plugins.Registrations

namespace SmolClaw.Plugins

open Lib.Run

/-! ## Guests that register tools -/

/-- A guest's load under way: the names of its tools, as vtabs show them. -/
def toolsGrown (host : Host) (manifest : Manifest) (names : List Bytes) : Loading :=
  grown host manifest (Function.update (fun _ => []) .tool names) 0 names.length

section Tools

variable {host : Host} {manifest : Manifest} {names : List Bytes}

theorem begin_tools : begin host manifest = toolsGrown host manifest [] := by
  rw [begin_eq, toolsGrown, Function.update_eq_self_iff.mpr rfl, List.length_nil]

theorem taken_tools : (toolsGrown host manifest names).host.taken .tool = host.taken .tool ++ names := by
  rw [toolsGrown, taken_grown, Function.update_self]

theorem push_tools (name : Bytes) :
    (toolsGrown host manifest names).host.push .tool ⟨host.next, name⟩ =
      (toolsGrown host manifest (names ++ [name])).host := by
  rw [toolsGrown, push_grown, Function.update_self, Function.update_idem]
  rfl

theorem push_tools_keep (name : Bytes) :
    (toolsGrown host manifest names).keep.push .tool ⟨host.next, name⟩ =
      (toolsGrown host manifest (names ++ [name])).keep :=
  congrArg (fun host' => Loading.keep ⟨host', ⟨host.next, manifest, 0⟩, 0⟩) (push_tools name)

/-- A tool is added behind the others, unless its name is taken. -/
theorem registerToolEntry_tools (name : Bytes) :
    registerToolEntry (toolsGrown host manifest names) name =
      if name ∈ host.taken .tool ++ names then Status.invalidArgument "sc.plugin.tool.duplicate"
      else .ok (toolsGrown host manifest (names ++ [vtabName name])) := by
  rw [registerToolEntry, Host.registered, taken_tools]
  simp only [decide_eq_true_eq]
  split
  · rfl
  · refine congrArg Except.ok ?_
    show Loading.mk ((toolsGrown host manifest names).host.push .tool ⟨host.next, vtabName name⟩)
      ⟨host.next, manifest, 0⟩ (names.length + 1) = _
    rw [push_tools, toolsGrown, List.length_append]
    rfl

/-- A tool may be added exactly under a new name. -/
theorem held_tools_iff (h : Sound (toolsGrown host manifest names).keep) (name : Bytes) :
    Held (toolsGrown host manifest (names ++ [name])).keep ↔ name ∉ host.taken .tool ++ names := by
  rw [← push_tools_keep, held_push_iff h.toHeld new_mem_ids, ← @taken_tools host manifest]
  rfl

theorem sound_tools (h : Sound (toolsGrown host manifest names).keep) {name : Bytes}
    (hname : name ∉ host.taken .tool ++ names) : Sound (toolsGrown host manifest (names ++ [name])).keep := by
  rw [← push_tools_keep]
  refine h.push new_mem_ids ?_
  rw [← @taken_tools host manifest] at hname
  exact hname

end Tools

/-- The calls of both guest languages: a text that passes is registered, and a refusal does `refuse`. -/
def guestCall {C : Type} (name : C → Option Bytes) (refuse : Loading → Loading) (l : Loading) (c : C) :
    Loading × Bool :=
  match name c with
  | none => (l, false)
  | some n =>
      match registerToolEntry l n with
      | .ok l' => (l', true)
      | .error _ => (refuse l, false)

/-- WASM: a refusal changes nothing. -/
theorem wasmHostRegisterTool_eq : wasmHostRegisterTool = guestCall WasmCall.name id := by
  funext l call
  unfold wasmHostRegisterTool guestCall
  cases call.name with
  | none => rfl
  | some n => cases hn : registerToolEntry l n <;> simp [hn, orElse]

/-- Python: a refusal takes back what was registered. -/
theorem scriptRegisterTool_eq :
    scriptRegisterTool = guestCall scriptName dropRegistrations := rfl

/-- A load under way, and the names that the tool registry answers to: what every call of a guest leaves so,
    and what makes a question about the registry one about names. -/
def Under (host : Host) (manifest : Manifest) (l : Loading) (taken : List Bytes) : Prop :=
  ∃ names, l = toolsGrown host manifest names ∧ taken = host.taken .tool ++ names ∧ Sound l.keep

/-- The calls that keep what they owe, where a refusal does no harm under `P`. -/
def Allowed {C : Type} (name : C → Option Bytes) (P : List Bytes → Prop) (taken : List Bytes) (c : C) :
    Prop :=
  ToldApart name taken c ∧ ∀ n, name c = some n → n ∈ taken → P taken

section GuestCalls

variable {C : Type} {name : C → Option Bytes} {refuse : Loading → Loading} {P : List Bytes → Prop}
  {host : Host} {manifest : Manifest}

/-- What a guest's call does: nothing, a refusal, or one more tool. -/
theorem guestCall_cases (names : List Bytes) (c : C) :
    (name c = none ∧ guestCall name refuse (toolsGrown host manifest names) c =
      (toolsGrown host manifest names, false)) ∨
    (∃ n, name c = some n ∧ n ∈ host.taken .tool ++ names ∧
      guestCall name refuse (toolsGrown host manifest names) c =
        (refuse (toolsGrown host manifest names), false)) ∨
    (∃ n, name c = some n ∧ n ∉ host.taken .tool ++ names ∧
      guestCall name refuse (toolsGrown host manifest names) c =
        (toolsGrown host manifest (names ++ [vtabName n]), true)) := by
  unfold guestCall
  cases hname : name c with
  | none => exact Or.inl ⟨rfl, rfl⟩
  | some n =>
    simp only [registerToolEntry_tools]
    by_cases hn : n ∈ host.taken .tool ++ names
    · refine Or.inr (Or.inl ⟨n, rfl, hn, ?_⟩)
      rw [if_pos hn]
      rfl
    · refine Or.inr (Or.inr ⟨n, rfl, hn, ?_⟩)
      rw [if_neg hn]

/-- A guest's calls: what they owe is a question about its names, and the load goes on as they do. -/
structure GuestRun (host : Host) (manifest : Manifest) (name : C → Option Bytes)
    (call : Loading → C → Loading × Bool) (allowed : List Bytes → C → Prop) (calls : List C) : Prop where
  each : EachStep (calling call) (CallKeeps call) (begin host manifest) calls ↔
    EachStep (take name) allowed (host.taken .tool) calls
  under : EachStep (take name) allowed (host.taken .tool) calls →
    Under host manifest (run (calling call) (begin host manifest) calls) (run (take name) (host.taken .tool) calls)

section Refusals

variable
    (hkeep : ∀ names, P (host.taken .tool ++ names) →
      refuse (toolsGrown host manifest names) = toolsGrown host manifest names)
    (hlose : ∀ names, ¬ P (host.taken .tool ++ names) →
      ∃ entry ∈ (toolsGrown host manifest names).host.entries .tool,
        entry ∉ (refuse (toolsGrown host manifest names)).host.entries .tool)

include hkeep

/-- **The load goes on** as its names do. -/
theorem guestCall_under {l : Loading} {taken : List Bytes} (h : Under host manifest l taken) {c : C}
    (hallowed : Allowed name P taken c) :
    Under host manifest (calling (guestCall name refuse) l c) (take name taken c) := by
  obtain ⟨names, rfl, rfl, hsound⟩ := h
  rw [calling, take]
  rcases guestCall_cases names c with ⟨hname, hcall⟩ | ⟨n, hname, hn, hcall⟩ | ⟨n, hname, hn, hcall⟩
  · rw [hcall, hname]
    exact ⟨names, rfl, rfl, hsound⟩
  · rw [hkeep names (hallowed.2 n hname hn)] at hcall
    simp only [hcall, hname, if_pos hn]
    exact ⟨names, rfl, rfl, hsound⟩
  · simp only [hcall, hname, if_neg hn]
    exact ⟨names ++ [vtabName n], rfl, List.append_assoc _ _ _, sound_tools hsound (hallowed.1 n hname hn)⟩

include hlose

/-- **A guest's call keeps what it owes** exactly if it is allowed. -/
theorem guestCall_keeps_iff {l : Loading} {taken : List Bytes} (h : Under host manifest l taken) (c : C) :
    CallKeeps (guestCall name refuse) l c ↔ Allowed name P taken c := by
  obtain ⟨names, rfl, rfl, hsound⟩ := h
  rcases guestCall_cases names c with ⟨hname, hcall⟩ | ⟨n, hname, hn, hcall⟩ | ⟨n, hname, hn, hcall⟩
  · refine ⟨fun _ => ⟨fun m hm => ?_, fun m hm => ?_⟩, fun _ => callKeeps_refused hcall hsound.toHeld⟩
    all_goals
      rw [hname] at hm
      cases hm
  · constructor
    · intro hkeeps
      refine ⟨fun m hm hfree => ?_, fun _ _ _ => ?_⟩
      · rw [hname] at hm
        exact absurd (Option.some.inj hm ▸ hn) hfree
      · by_contra hP
        obtain ⟨entry, hentry, hlost⟩ := hlose names hP
        have hkept := hkeeps.entries (by rw [hcall]) .tool entry hentry
        rw [hcall] at hkept
        exact hlost hkept
    · intro hallowed
      rw [hkeep names (hallowed.2 n hname hn)] at hcall
      exact callKeeps_refused hcall hsound.toHeld
  · rw [callKeeps_accepted hcall, held_tools_iff hsound]
    constructor
    · intro hfree
      refine ⟨fun m hm _ => ?_, fun m hm htaken => ?_⟩
      · rw [hname] at hm
        exact Option.some.inj hm ▸ hfree
      · rw [hname] at hm
        exact absurd (Option.some.inj hm ▸ htaken) hn
    · intro hallowed
      exact hallowed.1 n hname hn

/-- **A guest's whole init** follows its names. -/
theorem guest_run (hsound : Sound host) (calls : List C) :
    GuestRun host manifest name (guestCall name refuse) (Allowed name P) calls := by
  have hbegin : Under host manifest (begin host manifest) (host.taken .tool) :=
    ⟨[], begin_tools, (List.append_nil _).symm, sound_begin hsound⟩
  have hsim := @eachStep_sim Loading C (List Bytes) (calling (guestCall name refuse)) (take name)
    (CallKeeps (guestCall name refuse)) (Allowed name P) (Under host manifest)
    (fun l taken c h => guestCall_keeps_iff hkeep hlose h c)
    (fun l taken c h hkeeps => guestCall_under hkeep h ((guestCall_keeps_iff hkeep hlose h c).mp hkeeps))
    calls _ _ hbegin
  exact ⟨hsim.1, fun hallowed => hsim.2 (hsim.1.mpr hallowed)⟩

end Refusals

end GuestCalls

/-! ## WASM modules and Python scripts -/

/-- No name is given back. -/
theorem prefix_run_take {C : Type} {name : C → Option Bytes} :
    ∀ (calls : List C) (taken : List Bytes), taken <+: run (take name) taken calls := by
  intro calls
  induction calls with
  | nil => intro taken; exact List.prefix_rfl
  | cons c calls ih =>
    intro taken
    refine List.IsPrefix.trans ?_ (ih (take name taken c))
    rw [take]
    split
    · exact List.prefix_rfl
    · split
      · exact List.prefix_rfl
      · exact List.prefix_append _ _

/-- A name that is taken adds none. -/
theorem take_taken {C : Type} {name : C → Option Bytes} {c : C} {taken : List Bytes}
    (h : ∀ n, name c = some n → n ∈ taken) : take name taken c = taken := by
  rw [take]
  split
  · rfl
  · next n hn => rw [if_pos (h n hn)]

/-- The names stay as they are exactly if every call asks for a name that is taken. -/
theorem run_take_eq_iff {C : Type} {name : C → Option Bytes} {calls : List C} {taken : List Bytes} :
    run (take name) taken calls = taken ↔ AllTaken name taken calls := by
  induction calls with
  | nil =>
    refine ⟨fun _ c hc => ?_, fun _ => rfl⟩
    cases hc
  | cons c calls ih =>
    have hcons : run (take name) taken (c :: calls) = run (take name) (take name taken c) calls := rfl
    rw [hcons, AllTaken, List.forall_mem_cons]
    by_cases hasks : ∀ n, name c = some n → n ∈ taken
    · rw [take_taken hasks, ih]
      exact ⟨fun h => ⟨hasks, h⟩, fun h => h.2⟩
    · refine ⟨fun hrun => ?_, fun h => absurd h.1 hasks⟩
      -- the name of this call stays
      obtain ⟨n, hn⟩ := not_forall.mp hasks
      obtain ⟨hname, hfree⟩ := Classical.not_imp.mp hn
      have hgrown : take name taken c = taken ++ [vtabName n] := by simp only [take, hname, if_neg hfree]
      have hlength := (@prefix_run_take C name calls (take name taken c)).length_le
      rw [hrun, hgrown, List.length_append] at hlength
      exact absurd hlength (by simp)

/-- Where every name is taken none has to be told apart. -/
theorem eachStep_allTaken {C : Type} {name : C → Option Bytes} {taken : List Bytes} :
    ∀ {calls : List C}, AllTaken name taken calls → EachStep (take name) (ToldApart name) taken calls := by
  intro calls
  induction calls with
  | nil => exact fun _ => trivial
  | cons c calls ih =>
    intro h
    obtain ⟨hc, hcalls⟩ := List.forall_mem_cons.mp h
    refine ⟨fun n hn hfree => absurd (hc n hn) hfree, ?_⟩
    rw [take_taken hc]
    exact ih hcalls

theorem allowed_true {C : Type} {name : C → Option Bytes} :
    Allowed name (fun _ => True) = ToldApart name := by
  funext taken c
  exact propext ⟨And.left, fun h => ⟨h, fun _ _ _ => trivial⟩⟩

theorem toolsGrown_nil {host : Host} {manifest : Manifest} :
    (toolsGrown host manifest []).host = { host with next := host.next + 1 } := by
  rw [← begin_tools]
  rfl

/-- A failed load that leaves tools behind does not keep what it owes. -/
theorem endKeeps_left_iff {host : Host} (h : Sound host) {manifest : Manifest} {names : List Bytes}
    {e : ScError} :
    EndKeeps host ((toolsGrown host manifest names).host, .error e) ↔ names = [] := by
  constructor
  · intro hkeeps
    have hsame := congrFun (hkeeps.failed e rfl).1 .tool
    simpa [toolsGrown, grown] using hsame
  · rintro rfl
    rw [toolsGrown_nil]
    exact endKeeps_skip h

section Wasm

variable {host : Host} {manifest : Manifest} {module : WasmModule}

/-- A WASM module's calls. -/
theorem wasm_run (h : Sound host) (calls : List WasmCall) :
    GuestRun host manifest WasmCall.name wasmHostRegisterTool (ToldApart WasmCall.name) calls := by
  rw [wasmHostRegisterTool_eq, ← allowed_true]
  exact guest_run (fun _ _ => rfl) (fun _ hP => absurd trivial hP) h calls

/-- The calls that leave no name behind. -/
theorem names_eq_nil_iff {calls : List WasmCall} {names : List Bytes}
    (htaken : run (take WasmCall.name) (host.taken .tool) calls = host.taken .tool ++ names) :
    names = [] ↔ AllTaken WasmCall.name (host.taken .tool) calls := by
  rw [← run_take_eq_iff, htaken]
  exact List.append_right_eq_self.symm

/-- How a module's load ends. -/
theorem wasm_finish {taken names : List Bytes}
    (hnone : names = [] ↔ AllTaken WasmCall.name taken module.calls) :
    (∃ e, module.guest.finish names.length = .error e) ↔ module.Fails taken := by
  rw [WasmModule.Fails, ← hnone]
  show (∃ e, (module.exports >>= fun _ => _) = .error e) ↔ _
  cases module.exports with
  | error e => exact iff_of_true ⟨e, rfl⟩ (Or.inl nofun)
  | ok =>
    cases names with
    | nil => exact iff_of_true ⟨_, rfl⟩ (Or.inr rfl)
    | cons name names => exact iff_of_false (fun ⟨_, he⟩ => nomatch he) fun hor => hor.elim (· rfl) nofun

end Wasm

/-- **A WASM module's load** keeps what it owes exactly if a name that is free is free up to its first NUL,
    and a module whose load fails registers nothing, its shutdown included. -/
theorem loadWasm_spec {host : Host} (h : Sound host) (manifest : Manifest) (module : WasmModule) :
    (Keeps host (.loadWasm manifest module) ↔ Clean host (.loadWasm manifest module)) ∧
      (Clean host (.loadWasm manifest module) → Sound (loadWasmPath host manifest module).1) := by
  refine load_spec h rfl fun _ _ => ?_
  obtain ⟨heach, hunder⟩ := @wasm_run host manifest h module.calls
  suffices hend : EachStep (take WasmCall.name) (ToldApart WasmCall.name) (host.taken .tool) module.calls →
      (CallsKeep wasmHostRegisterTool id module.guest (begin host manifest) ∧
          EndKeeps host (endLoad wasmHostRegisterTool id module.guest (run (calling wasmHostRegisterTool)
            (begin host manifest) module.calls)) ↔
        (module.Fails (host.taken .tool) →
          AllTaken WasmCall.name (host.taken .tool) (module.calls ++ module.shutdown))) ∧
      ((module.Fails (host.taken .tool) →
          AllTaken WasmCall.name (host.taken .tool) (module.calls ++ module.shutdown)) →
        Sound (endLoad wasmHostRegisterTool id module.guest (run (calling wasmHostRegisterTool)
          (begin host manifest) module.calls)).1) from
    ⟨⟨fun hkeeps => ⟨heach.mp hkeeps.1.calls, (hend (heach.mp hkeeps.1.calls)).1.mp hkeeps⟩,
      fun hclean => (hend hclean.1).1.mpr hclean.2⟩, fun hclean => (hend hclean.1).2 hclean.2⟩
  intro hnames
  obtain ⟨names, hrun, htaken, hsound⟩ := hunder hnames
  have hfinish := wasm_finish (names_eq_nil_iff htaken)
  by_cases hfails : module.Fails (host.taken .tool)
  · obtain ⟨e, he⟩ := hfinish.mpr hfails
    -- the shutdown goes on where the other calls ended
    obtain ⟨heach', hunder'⟩ := @wasm_run host manifest h (module.calls ++ module.shutdown)
    have hlast : endLoad wasmHostRegisterTool id module.guest (run (calling wasmHostRegisterTool)
        (begin host manifest) module.calls) = ((run (calling wasmHostRegisterTool) (begin host manifest)
          (module.calls ++ module.shutdown)).host, .error e) := by
      rw [hrun, endLoad_error he, ← hrun]
      exact congrArg (fun l => (Loading.host l, _)) List.foldl_append.symm
    have hcalls : CallsKeep wasmHostRegisterTool id module.guest (begin host manifest) ↔
        EachStep (calling wasmHostRegisterTool) (CallKeeps wasmHostRegisterTool) (begin host manifest)
          (module.calls ++ module.shutdown) := by
      refine ⟨fun hkeeps => eachStep_append.mpr ⟨hkeeps.calls, hkeeps.shutdown e ?_⟩, fun hsteps => ?_⟩
      · show module.guest.finish (run (calling wasmHostRegisterTool) (begin host manifest) module.calls).tools = _
        rw [hrun]
        exact he
      · obtain ⟨hbefore, hbehind⟩ := eachStep_append.mp hsteps
        exact ⟨hbefore, fun _ _ => hbehind⟩
    rw [hlast, hcalls, heach', forall_prop_of_true hfails]
    have hends : EachStep (take WasmCall.name) (ToldApart WasmCall.name) (host.taken .tool)
          (module.calls ++ module.shutdown) →
        (EndKeeps host ((run (calling wasmHostRegisterTool) (begin host manifest)
            (module.calls ++ module.shutdown)).host, .error e) ↔
          AllTaken WasmCall.name (host.taken .tool) (module.calls ++ module.shutdown)) ∧
        (AllTaken WasmCall.name (host.taken .tool) (module.calls ++ module.shutdown) →
          Sound (run (calling wasmHostRegisterTool) (begin host manifest)
            (module.calls ++ module.shutdown)).host) := by
      intro hall
      obtain ⟨names', hrun', htaken', -⟩ := hunder' hall
      rw [hrun', endKeeps_left_iff h, ← names_eq_nil_iff htaken']
      refine ⟨Iff.rfl, ?_⟩
      rintro rfl
      rw [toolsGrown_nil]
      exact h.skip
    exact ⟨⟨fun ⟨hall, hkeeps⟩ => (hends hall).1.mp hkeeps,
      fun hall => ⟨eachStep_allTaken hall, (hends (eachStep_allTaken hall)).1.mpr hall⟩⟩,
      fun hall => (hends (eachStep_allTaken hall)).2 hall⟩
  · have hok : module.guest.finish names.length = .ok () := by
      cases hresult : module.guest.finish names.length with
      | error e => exact absurd (hfinish.mp ⟨e, hresult⟩) hfails
      | ok => rfl
    have hcalls : CallsKeep wasmHostRegisterTool id module.guest (begin host manifest) := by
      refine ⟨heach.mpr hnames, fun e he => ?_⟩
      change module.guest.finish (run (calling wasmHostRegisterTool) (begin host manifest) module.calls).tools = _
        at he
      rw [hrun] at he
      exact absurd (hok.symm.trans he) nofun
    rw [hrun] at hsound ⊢
    rw [endLoad_ok hok]
    exact ⟨iff_of_true ⟨hcalls, endKeeps_keep hsound⟩ fun hf => absurd hf hfails, fun _ => hsound⟩

section Python

variable {host : Host} {manifest : Manifest} {script : PythonScript}

theorem dropRegistrations_tools (h : Sound host) (names : List Bytes) :
    (dropRegistrations (toolsGrown host manifest names)).host = { host with next := host.next + 1 } := by
  rw [toolsGrown, dropRegistrations_grown h]
  simp [grown]

/-- A Python script's init: a name that is taken drops what the script has registered. -/
theorem python_run (h : Sound host) :
    GuestRun host manifest scriptName scriptRegisterTool
      (Allowed scriptName fun taken => taken = host.taken .tool) script.calls := by
  rw [scriptRegisterTool_eq]
  refine guest_run (fun names hnone => ?_) (fun names hsome => ?_) h script.calls
  · rw [List.append_right_eq_self.mp hnone, ← begin_tools, dropRegistrations_begin h]
  · cases names with
    | nil => exact absurd (List.append_nil _) hsome
    | cons name names =>
      refine ⟨⟨host.next, name⟩, ?_, fun hleft => ?_⟩
      · simp [toolsGrown, grown]
      · rw [dropRegistrations_tools h] at hleft
        exact h.entry_old hleft rfl

/-- The end of a Python script: its cleanup leaves nothing, and nothing of it runs behind that. -/
theorem python_end (h : Sound host) {names : List Bytes}
    (hsound : Sound (toolsGrown host manifest names).keep) :
    EndKeeps host (endLoad scriptRegisterTool dropRegistrations script.guest (toolsGrown host manifest names)) ∧
      Sound (endLoad scriptRegisterTool dropRegistrations script.guest (toolsGrown host manifest names)).1 := by
  cases hfinish : script.guest.finish (toolsGrown host manifest names).tools with
  | error e =>
    rw [endLoad_error hfinish, show script.guest.shutdown = [] from rfl, run, List.foldl_nil,
      dropRegistrations_tools h]
    exact ⟨endKeeps_skip h, h.skip⟩
  | ok =>
    rw [endLoad_ok hfinish]
    exact ⟨endKeeps_keep hsound, hsound⟩

end Python

/-- **A Python script's load** keeps what it owes exactly if a name that is free is free up to its first NUL,
    and a name that is taken is not asked for behind one that was free. -/
theorem loadPython_spec {host : Host} (h : Sound host) (manifest : Manifest) (script : PythonScript) :
    (Keeps host (.loadPython manifest script) ↔ Clean host (.loadPython manifest script)) ∧
      (Clean host (.loadPython manifest script) → Sound (loadPythonPath host manifest script).1) := by
  refine load_spec h (congrArg Loading.host (dropRegistrations_begin h)) fun _ _ => ?_
  obtain ⟨heach, hunder⟩ := @python_run host manifest script h
  refine ⟨⟨fun hkeeps => heach.mp hkeeps.1.calls,
    fun hnames => ⟨⟨heach.mpr hnames, fun _ _ => trivial⟩, ?_⟩⟩, fun hnames => ?_⟩
  all_goals
    obtain ⟨names, hrun, -, hsound⟩ := hunder hnames
    rw [hrun] at hsound
    have hend := @python_end host manifest script h names hsound
    rw [← hrun] at hend
  · exact hend.1
  · exact hend.2

end SmolClaw.Plugins
