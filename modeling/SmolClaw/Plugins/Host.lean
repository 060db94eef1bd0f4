/-
  The plugin host (`src/plugins/plugin.c`, `src/plugins/plugin_python.c`).

  The host keeps the plugins it holds, five vectors of registrations and the plugin adapters it has put into
  the program's observer list.  A plugin is a pointer in the source; here it is a number that is never given
  out twice, so a registration that outlives its plugin can be told from one of a later plugin.

  1. **Registrations** — a descriptor's guest calls the host API; a WASM guest and a Python script hand over
     the JSON text of a tool.  A call may be refused at any point.

  2. **Loads** — each loader checks the manifest, runs the guest, and either keeps the plugin or cleans up:
     `sc_plugin_load_descriptor`, `plugin_load_wasm_path`, `sc_plugin_load_python_path`.  A guest may register
     in whatever of it a load runs: its init, the ABI export of a WASM module, and the shutdown that a failing
     load of a descriptor or of a WASM module calls.

  3. **Handles** — an adapter made for the program counts as a reference of its plugin, and so does an
     observer adapter; `sc_plugin_unload` refuses a plugin that has references.

  What a guest does is input: the calls it makes in order, where its runtime fails, what its factories and its
  init return.  Memory never runs out.
-/
import SmolClaw.Json.Parse
import SmolClaw.Lib.Run

namespace SmolClaw.Plugins

open Lib.Run

/-! ## Manifests and descriptors -/

/-- `SC_ABI_VERSION_MAJOR` -/
def abiVersionMajor : UInt32 := 0

/-- `sc_plugin_manifest`, as far as the host reads it. -/
structure Manifest where
  name : Bytes
  version : Bytes
  abiMajor : UInt32
  capabilities : UInt64
  requestedPermissions : UInt64
  deriving DecidableEq, Repr

/-- `SC_PLUGIN_CAP_WASM` -/
def capWasm : UInt64 := 0x10
/-- `SC_PLUGIN_CAP_OBSERVER` -/
def capObserver : UInt64 := 0x20
/-- `SC_PLUGIN_CAP_PYTHON` -/
def capPython : UInt64 := 0x80
/-- `SC_PLUGIN_PERMISSION_OBSERVER` -/
def permissionObserver : UInt64 := 0x400

/-- `sc_plugin_descriptor`, as far as the host reads it: pointers that may be null are options. -/
structure Descriptor where
  structSize : Nat
  abiMajor : UInt32
  name : Option Bytes
  version : Option Bytes
  init : Bool
  requestedCapabilities : UInt64
  requestedPermissions : UInt64
  minimumHostDescriptorSize : Nat
  deriving DecidableEq, Repr

/-- `sizeof(sc_plugin_descriptor)` with pointers of 8 bytes. -/
def Descriptor.size : Nat := 96
/-- The end of the field `shutdown`. -/
def Descriptor.minimumSize : Nat := 48

/-- `islower` or `isdigit` -/
def isLowerOrDigit (c : UInt8) : Bool := (chr 'a' ≤ c && c ≤ chr 'z') || isDigit c

/-- `sc_contract_name_is_valid` -/
def contractNameIsValid (name : Bytes) : Bool :=
  decide (name.length ≤ 64) && name.head?.any isLowerOrDigit &&
    name.all fun c => isLowerOrDigit c || c == chr '-' || c == chr '_' || c == chr '.'

/-- `descriptor_requested_capabilities`: 0 in a descriptor that ends before the field. -/
def Descriptor.capabilities (d : Descriptor) : UInt64 :=
  if 64 ≤ d.structSize then d.requestedCapabilities else 0

/-- `descriptor_requested_permissions` -/
def Descriptor.permissions (d : Descriptor) : UInt64 :=
  if 72 ≤ d.structSize then d.requestedPermissions else 0

/-- `descriptor_valid` -/
def Descriptor.valid (d : Descriptor) : Bool :=
  decide (Descriptor.minimumSize ≤ d.structSize) && d.abiMajor == abiVersionMajor &&
    d.name.any contractNameIsValid && d.version.isSome && d.init

/-! ## The host -/

/-- The five vectors of entries. -/
inductive Registry where
  | provider | channel | tool | memory | peripheral
  deriving DecidableEq, Repr

/-- An entry of a vector: who registered it, and `vtab->name`. -/
structure Entry where
  plugin : Nat
  name : Bytes
  deriving DecidableEq, Repr

/-- `sc_plugin` -/
structure Plugin where
  id : Nat
  manifest : Manifest
  activeRefs : Nat
  deriving DecidableEq, Repr

/-- `sc_plugin_host_options`: the names in the registries the program fills itself (none where a registry is
    null), whether there is an observer list, and what plugins may do. -/
structure Options where
  builtin : Registry → List Bytes
  observers : Bool
  allowedPermissions : UInt64
  allowMemoryBackends : Bool

/-- `sc_plugin_host`, with the plugin adapters in the observer list, the adapters the program holds (each by
    its plugin), and the next plugin's number. -/
structure Host where
  options : Options
  entries : Registry → List Entry
  loadedPlugins : List Plugin
  observers : List Nat
  adapters : List Nat
  next : Nat

/-- `sc_plugin_host_new` -/
def hostNew (options : Options) : Host := ⟨options, fun _ => [], [], [], [], 0⟩

/-- The names a registry answers to. -/
def Host.taken (host : Host) (r : Registry) : List Bytes :=
  host.options.builtin r ++ (host.entries r).map Entry.name

/-- `provider_registered`, `channel_registered`, `tool_registered`, `memory_registered` and
    `peripheral_registered` -/
def Host.registered (host : Host) (r : Registry) (name : Bytes) : Bool := decide (name ∈ host.taken r)

/-- `sc_vec_push` on one of the vectors. -/
def Host.push (host : Host) (r : Registry) (entry : Entry) : Host :=
  { host with entries := Function.update host.entries r (host.entries r ++ [entry]) }

/-- `remove_plugin_registrations` -/
def Host.removePluginRegistrations (host : Host) (plugin : Nat) : Host :=
  { host with entries := fun r => (host.entries r).filter fun entry => entry.plugin ≠ plugin }

/-- `plugin_name_loaded` -/
def Host.pluginNameLoaded (host : Host) (name : Bytes) : Bool :=
  host.loadedPlugins.any fun plugin => plugin.manifest.name == name

/-! ## The checks of the loaders -/

/-- `validate_descriptor_and_manifest` -/
def validateDescriptorAndManifest (host : Host) (descriptor : Option Descriptor) (manifest : Manifest) :
    Res Unit :=
  match descriptor with
  | none => Status.invalidArgument "sc.plugin_loader.invalid_descriptor"
  | some d =>
      if !d.valid then Status.invalidArgument "sc.plugin_loader.invalid_descriptor"
      else if 80 ≤ d.structSize ∧ Descriptor.size < d.minimumHostDescriptorSize then
        Status.unsupported "sc.plugin_loader.host_descriptor_too_small"
      else if manifest.abiMajor ≠ abiVersionMajor ∨ manifest.abiMajor ≠ d.abiMajor then
        Status.invalidArgument "sc.plugin_loader.abi_mismatch"
      else if d.name ≠ some manifest.name ∨ d.version ≠ some manifest.version then
        Status.invalidArgument "sc.plugin_loader.manifest_mismatch"
      else if host.pluginNameLoaded manifest.name then
        Status.invalidArgument "sc.plugin_loader.duplicate_plugin"
      else if d.capabilities ≠ 0 ∧ d.capabilities ≠ manifest.capabilities then
        Status.securityDenied "sc.plugin_loader.capability_mismatch"
      else if d.permissions ≠ 0 ∧ d.permissions ≠ manifest.requestedPermissions then
        Status.securityDenied "sc.plugin_loader.permission_mismatch"
      else if manifest.requestedPermissions &&& ~~~host.options.allowedPermissions ≠ 0 then
        Status.securityDenied "sc.plugin_loader.permission_denied"
      else .ok ()

/-- The words in which the checks of the two guest languages differ. -/
structure Language where
  capability : UInt64
  capabilityMissing : String
  capabilityUnsupported : String
  toolRequired : String

/-- `SC_PLUGIN_CAP_TOOL` -/
def capTool : UInt64 := 0x4
/-- `SC_PLUGIN_PERMISSION_TOOL` -/
def permissionTool : UInt64 := 0x200

/-- The checks of a manifest whose guest may register tools only. -/
def Language.validateManifest (l : Language) (host : Host) (manifest : Manifest) : Res Unit :=
  if manifest.capabilities &&& l.capability = 0 then Status.invalidArgument l.capabilityMissing
  else if manifest.capabilities &&& ~~~(l.capability ||| capTool) ≠ 0 then
    Status.unsupported l.capabilityUnsupported
  else if manifest.capabilities &&& capTool = 0 then Status.unsupported l.toolRequired
  else if manifest.abiMajor ≠ abiVersionMajor then Status.invalidArgument "sc.plugin_loader.abi_mismatch"
  else if manifest.name = [] ∨ manifest.version = [] then
    Status.invalidArgument "sc.plugin_loader.manifest_mismatch"
  else if manifest.requestedPermissions &&& permissionTool = 0 then
    Status.securityDenied "sc.plugin.registration.permission_denied"
  else if manifest.requestedPermissions &&& ~~~host.options.allowedPermissions ≠ 0 then
    Status.securityDenied "sc.plugin_loader.permission_denied"
  else if host.pluginNameLoaded manifest.name then
    Status.invalidArgument "sc.plugin_loader.duplicate_plugin"
  else .ok ()

/-- `wasm_validate_manifest` -/
def wasmValidateManifest : Host → Manifest → Res Unit :=
  Language.validateManifest
    ⟨capWasm, "sc.plugin_loader.wasm_capability_missing", "sc.plugin_loader.wasm_capability_unsupported",
      "sc.plugin_loader.wasm_tool_required"⟩

/-- `script_validate_manifest` -/
def scriptValidateManifest : Host → Manifest → Res Unit :=
  Language.validateManifest
    ⟨capPython, "sc.plugin_loader.python_capability_missing",
      "sc.plugin_loader.script_capability_unsupported", "sc.plugin_loader.script_tool_required"⟩

/-! ## The host API -/

/-- `SC_PLUGIN_PERMISSION_PROVIDER` and its siblings. -/
def Registry.permission : Registry → UInt64
  | .provider => 0x80
  | .channel => 0x100
  | .tool => permissionTool
  | .memory => 0x10
  | .peripheral => 0x800

/-- `SC_PLUGIN_CAP_PROVIDER` and its siblings. -/
def Registry.capability : Registry → UInt64
  | .provider => 0x1
  | .channel => 0x2
  | .tool => capTool
  | .memory => 0x8
  | .peripheral => 0x40

/-- The word for a registry in the error keys. -/
def Registry.word : Registry → String
  | .provider => "provider"
  | .channel => "channel"
  | .tool => "tool"
  | .memory => "memory"
  | .peripheral => "peripheral"

/-- A vtab: its name, and whether everything else its check asks for is there. -/
structure Vtab where
  name : Bytes
  complete : Bool
  deriving DecidableEq, Repr

/-- `sc_provider_vtab_valid` and its siblings -/
def Vtab.valid (vtab : Vtab) : Bool := vtab.complete && contractNameIsValid vtab.name

/-- A plugin while its load runs its guest: the host as it is now, the plugin, and how many tools are in the
    guest's own vector (`state->tools`). -/
structure Loading where
  host : Host
  plugin : Plugin
  tools : Nat

/-- `register_permission_check` -/
def registerPermissionCheck (plugin : Plugin) (permission capability : UInt64) : Res Unit :=
  if plugin.manifest.requestedPermissions &&& permission = 0 ∨
      plugin.manifest.capabilities &&& capability = 0 then
    Status.securityDenied "sc.plugin.registration.permission_denied"
  else .ok ()

/-- Where all the registrations end: the permission, the name, the new entry. -/
def addEntry (r : Registry) (l : Loading) (name : Bytes) : Res Loading := do
  registerPermissionCheck l.plugin r.permission r.capability
  if l.host.registered r name then Status.invalidArgument ("sc.plugin." ++ r.word ++ ".duplicate")
  else .ok { l with host := l.host.push r ⟨l.plugin.id, name⟩ }

/-- A registration of a vtab, with whether a factory comes with it. -/
def registerApi (r : Registry) (l : Loading) (vtab : Vtab) (factory : Bool) : Res Loading :=
  if !factory || !vtab.valid then
    Status.invalidArgument ("sc.plugin." ++ r.word ++ ".invalid_registration")
  else addEntry r l vtab.name

/-- `register_provider_api` -/
def registerProviderApi : Loading → Vtab → Bool → Res Loading := registerApi .provider
/-- `register_channel_api` -/
def registerChannelApi : Loading → Vtab → Bool → Res Loading := registerApi .channel
/-- `register_tool_api` -/
def registerToolApi : Loading → Vtab → Bool → Res Loading := registerApi .tool
/-- `register_peripheral_api` -/
def registerPeripheralApi : Loading → Vtab → Bool → Res Loading := registerApi .peripheral

/-- `register_memory_api`: the host must allow memory backends of plugins. -/
def registerMemoryApi (l : Loading) (vtab : Vtab) (factory : Bool) : Res Loading :=
  if !factory || !vtab.valid then Status.invalidArgument "sc.plugin.memory.invalid_registration"
  else if !l.host.options.allowMemoryBackends then Status.securityDenied "sc.plugin.memory.not_allowed"
  else addEntry .memory l vtab.name

/-- `register_observer_api`, with what the factory returns when there is one: the adapter goes into the
    program's list and holds a reference. -/
def registerObserverApi (l : Loading) (vtab : Vtab) (factory : Option (Res Unit)) : Res Loading :=
  match factory with
  | none => Status.invalidArgument "sc.plugin.observer.invalid_registration"
  | some made =>
      if !l.host.options.observers || !vtab.valid then
        Status.invalidArgument "sc.plugin.observer.invalid_registration"
      else do
        registerPermissionCheck l.plugin permissionObserver capObserver
        made
        .ok { l with
          host := { l.host with observers := l.host.observers ++ [l.plugin.id] }
          plugin := { l.plugin with activeRefs := l.plugin.activeRefs + 1 } }

/-- A call of the host API. -/
inductive ApiCall where
  | register (r : Registry) (vtab : Vtab) (factory : Bool)
  | observer (vtab : Vtab) (factory : Option (Res Unit))

/-- The function of `make_host_api` that a call reaches. -/
def ApiCall.answer (l : Loading) : ApiCall → Res Loading
  | .register .provider vtab factory => registerProviderApi l vtab factory
  | .register .channel vtab factory => registerChannelApi l vtab factory
  | .register .tool vtab factory => registerToolApi l vtab factory
  | .register .memory vtab factory => registerMemoryApi l vtab factory
  | .register .peripheral vtab factory => registerPeripheralApi l vtab factory
  | .observer vtab factory => registerObserverApi l vtab factory

/-- The load after a call, and whether the call succeeded: a refused call leaves everything as it is. -/
def orElse (l : Loading) : Res Loading → Loading × Bool
  | .ok l' => (l', true)
  | .error _ => (l, false)

def apiCall (l : Loading) (call : ApiCall) : Loading × Bool := orElse l (call.answer l)

/-! ## The tools of a guest -/

/-- `copy_json_string` -/
def copyJsonString (object : Json) (key : String) (required : Bool) : Res Bytes :=
  match object.objectGet (str key) with
  | none | some .null =>
      if required then Status.parse "sc.plugin_manifest.missing_string" else .ok []
  | some (.string text) =>
      if required ∧ text = [] then Status.parse "sc.plugin_manifest.empty_string" else .ok text
  | some _ => Status.parse "sc.plugin_manifest.string_type"

/-- `(double)UINT64_MAX`, rounded up to the next power of two. -/
def uint64Limit : Double := ⟨0x43F0000000000000⟩

/-- `wasm_parse_u64_field` and `script_parse_u64_field`, which differ in the key; nothing in the host looks at
    the number again. -/
def parseU64Field (invalid : String) (object : Json) (key : String) : Res Unit :=
  match object.objectGet (str key) with
  | none | some .null => .ok ()
  | some (.number d) =>
      if d.lt ⟨0⟩ || uint64Limit.lt d then Status.parse invalid else .ok ()
  | some _ => Status.parse invalid

/-- The keys in which the tool specs of the two guest languages differ. -/
structure SpecKeys where
  rootNotObject : String
  numberInvalid : String
  invalidVtab : String

/-- The name under which other code finds a tool: `vtab.name` points at the spec's name, and a C string ends
    at its first NUL. -/
def vtabName (name : Bytes) : Bytes := name.takeWhile (· ≠ 0)

/-- The name in the JSON text of a tool. -/
def SpecKeys.parseToolSpec (keys : SpecKeys) (spec : Bytes) : Res Bytes := do
  let root ← jsonParseStatus spec
  match root with
  | .object _ => do
      let name ← copyJsonString root "name" true
      let _ ← copyJsonString root "description" true
      let _ ← copyJsonString root "catalog_metadata_key" false
      parseU64Field keys.numberInvalid root "capabilities"
      parseU64Field keys.numberInvalid root "risk"
      parseU64Field keys.numberInvalid root "capability_category"
      parseU64Field keys.numberInvalid root "side_effect"
      parseU64Field keys.numberInvalid root "default_autonomy"
      if !contractNameIsValid (vtabName name) then Status.invalidArgument keys.invalidVtab
      else .ok name
  | _ => Status.parse keys.rootNotObject

/-- `wasm_parse_tool_spec` -/
def wasmParseToolSpec : Bytes → Res Bytes :=
  SpecKeys.parseToolSpec
    ⟨"sc.plugin_loader.wasm_spec_root_not_object", "sc.plugin_loader.wasm_spec_number_invalid",
      "sc.plugin_loader.wasm_tool_invalid_vtab"⟩

/-- `script_parse_tool_spec` -/
def scriptParseToolSpec : Bytes → Res Bytes :=
  SpecKeys.parseToolSpec
    ⟨"sc.plugin_loader.script_spec_root_not_object", "sc.plugin_loader.script_spec_number_invalid",
      "sc.plugin_loader.script_tool_invalid_vtab"⟩

/-- `wasm_register_tool_entry` and `script_register_tool_entry`: the spec's name is looked up, the vtab's name
    is what is found later. -/
def registerToolEntry (l : Loading) (name : Bytes) : Res Loading :=
  if l.host.registered .tool name then Status.invalidArgument "sc.plugin.tool.duplicate"
  else .ok { l with
    host := l.host.push .tool ⟨l.plugin.id, vtabName name⟩
    tools := l.tools + 1 }

/-- A call of `sc_host_register_tool`: the two texts, `none` for a range that is empty or not in the guest's
    memory. -/
structure WasmCall where
  spec : Option Bytes
  invokeName : Option Bytes

/-- The name that a call registers, if its texts pass. -/
def WasmCall.name (call : WasmCall) : Option Bytes :=
  match call.spec, call.invokeName with
  | some spec, some _ => (wasmParseToolSpec spec).toOption
  | _, _ => none

/-- `wasm_host_register_tool`: a refused tool is destroyed, and nothing else happens. -/
def wasmHostRegisterTool (l : Loading) (call : WasmCall) : Loading × Bool :=
  match call.name with
  | none => (l, false)
  | some name => orElse l (registerToolEntry l name)

/-- The name that a script's call registers, if the spec passes. -/
def scriptName (spec : Bytes) : Option Bytes := (scriptParseToolSpec spec).toOption

/-- `sc_plugin_script_register_tool`: a failure behind the parser takes the plugin's registrations away. -/
def scriptRegisterTool (l : Loading) (spec : Bytes) : Loading × Bool :=
  match scriptName spec with
  | none => (l, false)
  | some name =>
      match registerToolEntry l name with
      | .ok l' => (l', true)
      | .error _ => ({ l with host := l.host.removePluginRegistrations l.plugin.id }, false)

/-! ## Loads -/

/-- A guest, as a load sees it: what happens before it runs, the calls it makes, how the load ends, from the
    number of tools in the guest's own vector, and the calls its shutdown makes when the load fails. -/
structure Guest (C : Type) where
  start : Res Unit
  calls : List C
  finish : Nat → Res Unit
  shutdown : List C

/-- The new plugin, before its guest runs. -/
def begin (host : Host) (manifest : Manifest) : Loading :=
  ⟨{ host with next := host.next + 1 }, ⟨host.next, manifest, 0⟩, 0⟩

/-- The plugin goes into `loaded_plugins`. -/
def Loading.keep (l : Loading) : Host :=
  { l.host with loadedPlugins := l.host.loadedPlugins ++ [l.plugin] }

section Load

variable {C : Type} (call : Loading → C → Loading × Bool) (cleanup : Loading → Loading)

/-- The calls of a guest, one after the other. -/
def calling (l : Loading) (c : C) : Loading := (call l c).1

/-- The end of a load: the plugin is kept, or the loader cleans up and the guest is shut down. -/
def endLoad (guest : Guest C) (l : Loading) : Host × Res Nat :=
  match guest.finish l.tools with
  | .error e => ((run (calling call) (cleanup l) guest.shutdown).host, .error e)
  | .ok () => (l.keep, .ok l.plugin.id)

/-- What the loaders share: the checks, the new plugin, its guest, and the loader's own cleanup. -/
def load (checks : Res Unit) (guest : Guest C) (host : Host) (manifest : Manifest) : Host × Res Nat :=
  match checks with
  | .error e => (host, .error e)
  | .ok () =>
      match guest.start with
      | .error e => ((cleanup (begin host manifest)).host, .error e)
      | .ok () => endLoad call cleanup guest (run (calling call) (begin host manifest) guest.calls)

end Load

/-- The cleanup of a descriptor's load and `sc_plugin_script_load_abort` -/
def dropRegistrations (l : Loading) : Loading :=
  { l with host := l.host.removePluginRegistrations l.plugin.id }

/-- A descriptor's init: its calls, the status it returns, and the calls of the shutdown that a failed load
    makes behind the cleanup, with the host API still in place (none where it is not called). -/
structure DescriptorInit where
  calls : List ApiCall
  status : Res Unit
  shutdown : List ApiCall := []

def DescriptorInit.guest (init : DescriptorInit) : Guest ApiCall :=
  ⟨.ok (), init.calls, fun _ => init.status, init.shutdown⟩

/-- `plugin_load_descriptor_with_handle` -/
def loadDescriptor (host : Host) (descriptor : Option Descriptor) (manifest : Manifest)
    (init : DescriptorInit) : Host × Res Nat :=
  load apiCall dropRegistrations (validateDescriptorAndManifest host descriptor manifest) init.guest host
    manifest

/-- An export of a WASM module: the calls of the host API that it makes, and whether it traps behind them. -/
structure WasmExport where
  calls : List WasmCall
  trapped : Bool

/-- Where a WASM module stops before any of it can register, or what its exports do: the one for the ABI, with
    the version it returns, the init, and the calls of the shutdown. -/
inductive WasmModule where
  | initFailed
  | unread (status : ScError)
  | loadFailed
  | instantiateFailed
  | noExecEnv
  | runs (abi : Option (WasmExport × UInt32)) (init : Option WasmExport) (shutdown : List WasmCall)

/-- What `plugin_load_wasm_path` does before it looks for the exports. -/
def WasmModule.start : WasmModule → Res Unit
  | .initFailed => Status.unsupported "sc.plugin_loader.wamr_init_failed"
  | .unread status => .error status
  | .loadFailed => Status.parse "sc.plugin_loader.wasm_load_failed"
  | .instantiateFailed => Status.invalidArgument "sc.plugin_loader.wasm_instantiate_failed"
  | .noExecEnv => Status.noMemory
  | .runs _ _ _ => .ok ()

/-- The calls of `sc_plugin_guest_abi_version` and of `sc_plugin_init`, as far as these run. -/
def WasmModule.calls : WasmModule → List WasmCall
  | .runs (some (abi, version)) (some init) _ =>
      abi.calls ++ if abi.trapped ∨ version ≠ 1 then [] else init.calls
  | _ => []

/-- What the two exports come to. -/
def WasmModule.exports : WasmModule → Res Unit
  | .runs (some (abi, version)) (some init) _ =>
      if abi.trapped then Status.invalidArgument "sc.plugin_loader.wasm_abi_failed"
      else if version ≠ 1 then Status.unsupported "sc.plugin_loader.wasm_abi_unsupported"
      else if init.trapped then Status.invalidArgument "sc.plugin_loader.wasm_init_failed"
      else .ok ()
  | _ => Status.invalidArgument "sc.plugin_loader.wasm_missing_export"

def WasmModule.shutdown : WasmModule → List WasmCall
  | .runs _ _ shutdown => shutdown
  | _ => []

def WasmModule.guest (module : WasmModule) : Guest WasmCall where
  start := module.start
  calls := module.calls
  finish tools := do
    module.exports
    if tools = 0 then Status.invalidArgument "sc.plugin_loader.wasm_no_tools_registered" else .ok ()
  shutdown := module.shutdown

/-- `plugin_load_wasm_path`: its cleanup is `plugin_wasm_shutdown`, which runs the module's shutdown and leaves
    the host as it is. -/
def loadWasmPath (host : Host) (manifest : Manifest) (module : WasmModule) : Host × Res Nat :=
  load wasmHostRegisterTool id (wasmValidateManifest host manifest) module.guest host manifest

/-- Where a Python script stops before its init is called. -/
inductive PythonFault where
  | compile | importModule | missingInit | host

/-- The status of a fault. -/
def PythonFault.status : PythonFault → Res Unit
  | .compile => Status.invalidArgument "sc.plugin_loader.python_compile_failed"
  | .importModule => Status.invalidArgument "sc.plugin_loader.python_import_failed"
  | .missingInit => Status.invalidArgument "sc.plugin_loader.python_missing_init"
  | .host => Status.invalidArgument "sc.plugin_loader.python_host_failed"

/-- A Python script: the runtime, the file, a fault before the init, the specs its init registers, whether the
    init raises, and whether the module has a shutdown that is not callable. -/
structure PythonScript where
  runtime : Res Unit
  source : Res Unit
  fault : Option PythonFault
  calls : List Bytes
  raised : Bool
  badShutdown : Bool

def PythonScript.guest (script : PythonScript) : Guest Bytes where
  start := do
    script.source
    script.fault.elim (.ok ()) PythonFault.status
  calls := script.calls
  finish tools :=
    if script.raised then Status.invalidArgument "sc.plugin_loader.python_init_failed"
    else if script.badShutdown then Status.invalidArgument "sc.plugin_loader.python_shutdown_not_callable"
    else if tools = 0 then Status.invalidArgument "sc.plugin_loader.script_no_tools_registered"
    else .ok ()
  shutdown := []

/-- What `sc_plugin_load_python_path` checks before there is a plugin. -/
def pythonChecks (host : Host) (manifest : Manifest) (script : PythonScript) : Res Unit := do
  script.runtime
  scriptValidateManifest host manifest

/-- `sc_plugin_load_python_path` with `sc_plugin_script_load_begin`, `sc_plugin_script_load_finish` and
    `sc_plugin_script_load_abort` -/
def loadPythonPath (host : Host) (manifest : Manifest) (script : PythonScript) : Host × Res Nat :=
  load scriptRegisterTool dropRegistrations (pythonChecks host manifest script) script.guest host manifest

/-! ## Handles -/

/-- One more or one fewer reference of a plugin. -/
def Host.countRefs (host : Host) (f : Nat → Nat) (plugin : Nat) : Host :=
  { host with loadedPlugins := host.loadedPlugins.map fun p =>
      if p.id = plugin then { p with activeRefs := f p.activeRefs } else p }

/-- `sc_plugin_acquire`: only plugins in `loaded_plugins` are initialized. -/
def Host.acquire (host : Host) (plugin : Nat) : Res Host :=
  if plugin ∈ host.loadedPlugins.map Plugin.id then .ok (host.countRefs (· + 1) plugin)
  else Status.invalidArgument "sc.plugin.invalid_argument"

/-- `sc_plugin_release` -/
def Host.release (host : Host) (plugin : Nat) : Host := host.countRefs (· - 1) plugin

/-- `sc_plugin_host_create_provider` and its four siblings, with whether a tool's context comes with a policy,
    what the entry's factory returns, and what becomes of the handle around the adapter. -/
def Host.create (host : Host) (r : Registry) (name : Bytes) (context : Bool) (made handle : Res Unit) :
    Res Host :=
  if r = .tool ∧ !context then Status.invalidArgument "sc.plugin_host.invalid_argument"
  else
    match (host.entries r).find? fun entry => entry.name == name with
    | none => Status.invalidArgument ("sc.plugin_host." ++ r.word ++ "_not_found")
    | some entry => do
        made
        let acquired ← host.acquire entry.plugin
        handle
        .ok { acquired with adapters := acquired.adapters ++ [entry.plugin] }

/-- `provider_adapter_destroy` and its siblings, for one of the adapters of a plugin that the program
    holds. -/
def Host.destroyAdapter (host : Host) (plugin : Nat) : Host :=
  if plugin ∈ host.adapters then { host.release plugin with adapters := host.adapters.erase plugin }
  else host

/-- `sc_observer_list_clear`: every observer adapter is destroyed, and releases its plugin. -/
def Host.clearObservers (host : Host) : Host :=
  { host.observers.foldl Host.release host with observers := [] }

/-- `sc_plugin_unload`, of a plugin that the host holds.  What a guest registers in its shutdown goes with the
    rest. -/
def Host.unload (host : Host) (id : Nat) : Res Host :=
  match host.loadedPlugins.find? fun p => p.id == id with
  | none => Status.invalidArgument "sc.plugin.invalid_argument"
  | some plugin =>
      if 0 < plugin.activeRefs then Status.cancelled "sc.plugin.active_references"
      else .ok { host.removePluginRegistrations id with
        loadedPlugins := host.loadedPlugins.filter fun p => p.id ≠ id }

/-! ## Runs -/

/-- What can happen to a host. -/
inductive Op where
  | loadDescriptor (descriptor : Option Descriptor) (manifest : Manifest) (init : DescriptorInit)
  | loadWasm (manifest : Manifest) (module : WasmModule)
  | loadPython (manifest : Manifest) (script : PythonScript)
  | create (r : Registry) (name : Bytes) (context : Bool) (made handle : Res Unit)
  | destroyAdapter (plugin : Nat)
  | clearObservers
  | unload (plugin : Nat)

/-- A refused operation leaves the host as it is. -/
def Host.orSame (host : Host) : Res Host → Host
  | .ok host' => host'
  | .error _ => host

/-- The host after an operation. -/
def step (host : Host) : Op → Host
  | .loadDescriptor descriptor manifest init => (loadDescriptor host descriptor manifest init).1
  | .loadWasm manifest module => (loadWasmPath host manifest module).1
  | .loadPython manifest script => (loadPythonPath host manifest script).1
  | .create r name context made handle => host.orSame (host.create r name context made handle)
  | .destroyAdapter plugin => host.destroyAdapter plugin
  | .clearObservers => host.clearObservers
  | .unload plugin => host.orSame (host.unload plugin)

end SmolClaw.Plugins
