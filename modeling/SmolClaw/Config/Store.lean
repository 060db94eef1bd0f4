/-
  The configuration store (`src/config/config.c`).

  1. **Places** — one write goes to a typed field, to the string map, to the table of MCP servers, to
     the source map and perhaps to a secret store.  17 paths are read from typed fields, all others
     from the string map.

  2. **Failure** — a write returns its status together with the configuration it leaves: a write that
     fails late has changed the parts it had reached.

  3. **Effect** — `Written` says what a successful write leaves behind, place by place;
     `setPropFromText_written` proves it once for all callers.

  The provider aliases and proxy rules of `sc_config` are filled by other functions and left out;
  `secretStoreEnabled` stands for an attached store that is enabled.
-/
import Mathlib.Data.List.Nodup
import Mathlib.Logic.Function.Basic
import SmolClaw.Config.Schema
import SmolClaw.Core.WholeNumber
import SmolClaw.Lib.Run
import SmolClaw.Net.Url

namespace SmolClaw.Config

open SmolClaw.Net (isSpace strtol10 atNul)

/-! ## The record -/

/-- `sc_config_source_kind` -/
inductive SourceKind where
  | builtinDefaults
  | defaultFile
  | workspaceMarker
  | explicitFile
  | environment
  | runtime
  deriving DecidableEq, Repr

/-- `source_kind_name` -/
def sourceKindName : SourceKind → Bytes
  | .builtinDefaults => str "builtin"
  | .defaultFile => str "default-file"
  | .workspaceMarker => str "workspace-marker"
  | .explicitFile => str "explicit-file"
  | .environment => str "environment"
  | .runtime => str "runtime"

/-- `sc_mcp_transport` -/
inductive McpTransport where
  | stdio
  | sse
  | http
  | unknown
  deriving DecidableEq, Repr

/-- `sc_mcp_transport_from_str` -/
def mcpTransportFromStr (transport : Bytes) : McpTransport :=
  if transport = str "stdio" then .stdio
  else if transport = str "sse" then .sse
  else if transport = str "http" then .http
  else .unknown

/-- `sc_mcp_server` -/
structure McpServer where
  name : Bytes := []
  transport : McpTransport := .unknown
  command : Bytes := []
  args : Bytes := []
  url : Bytes := []
  headers : Bytes := []
  enabled : Bool := true
  deferredLoading : Bool
  deferredLoadingSet : Bool := false
  deriving DecidableEq, Repr

/-- `sc_config` -/
structure ScConfig where
  schemaVersion : UInt32 := 0
  runtimeAutonomyLevel : Bytes := []
  runtimeWorkspacePath : Bytes := []
  providerDefault : Bytes := []
  providerDefaultModel : Bytes := []
  providerApiKey : Bytes := []
  providerApiKeyEnv : Bytes := []
  modelRouteDefault : Bytes := []
  reliabilityMaxRetries : Int := 0
  reliabilityRetryBackoffMs : Int := 0
  reliabilityTimeoutMs : Int := 0
  memoryBackend : Bytes := []
  gatewayBind : Bytes := []
  gatewayPort : Int := 0
  proxyEnabled : Bool := false
  proxyDefaultUrl : Bytes := []
  mcpDeferredLoading : Bool := false
  mcpServers : List McpServer := []
  values : Bytes → Option Bytes := fun _ => none
  sources : Bytes → Option Bytes := fun _ => none
  secretStoreEnabled : Bool := false

/-! ## Values as text -/

/-- `int_from_text`: the buffer of 64 bytes is filled up with zeros. -/
def intFromText (input : Bytes) : Res Int :=
  if input.length = 0 ∨ 64 ≤ input.length then Status.parse "sc.config.invalid_int"
  else
    match strtol10 input with
    | some (parsed, rest) =>
        if atNul rest then .ok parsed else Status.parse "sc.config.invalid_int"
    | none => Status.parse "sc.config.invalid_int"

/-- `bool_from_text` -/
def boolFromText (input : Bytes) : Res Bool :=
  if input = str "true" then .ok true
  else if input = str "false" then .ok false
  else Status.parse "sc.config.invalid_bool"

/-- `string_from_bool` -/
def stringFromBool (value : Bool) : Bytes := if value then str "true" else str "false"

/-- `normalize_path` -/
def normalizePath (path : Bytes) : Bytes :=
  if path = str "schema_version" then str "schema.version" else path

/-- `path_looks_secret`: one of the needles occurs in the path. -/
def pathLooksSecret (path : Bytes) : Bool :=
  ["api_key", "apikey", "bot_token", "token", "secret", "password", "authorization", "cookie"].any
    fun needle => decide (str needle <:+: path)

/-! ## The typed fields

  `sc_config_get_prop` and `set_prop_from_text` compare the path with the same 17 texts one after the
  other; the texts differ, so the comparisons are one look-up. -/

/-- The paths with a typed field of their own. -/
inductive TypedProp where
  | schemaVersion
  | runtimeAutonomyLevel
  | runtimeWorkspacePath
  | providerDefault
  | providerDefaultModel
  | providerApiKey
  | providerApiKeyEnv
  | modelRouteDefault
  | reliabilityMaxRetries
  | reliabilityRetryBackoffMs
  | reliabilityTimeoutMs
  | memoryBackend
  | gatewayBind
  | gatewayPort
  | proxyEnabled
  | proxyDefaultUrl
  | mcpDeferredLoading
  deriving DecidableEq, Repr

namespace TypedProp

/-- In the order of `sc_config_get_prop`. -/
def all : List TypedProp :=
  [schemaVersion, runtimeAutonomyLevel, runtimeWorkspacePath, providerDefault, providerDefaultModel,
    providerApiKey, providerApiKeyEnv, modelRouteDefault, reliabilityMaxRetries,
    reliabilityRetryBackoffMs, reliabilityTimeoutMs, memoryBackend, gatewayBind, gatewayPort,
    proxyEnabled, proxyDefaultUrl, mcpDeferredLoading]

def path : TypedProp → Bytes
  | schemaVersion => str "schema.version"
  | runtimeAutonomyLevel => str "runtime.autonomy_level"
  | runtimeWorkspacePath => str "runtime.workspace_path"
  | providerDefault => str "provider.default"
  | providerDefaultModel => str "provider.default_model"
  | providerApiKey => str "provider.api_key"
  | providerApiKeyEnv => str "provider.api_key_env"
  | modelRouteDefault => str "model.route_default"
  | reliabilityMaxRetries => str "reliability.max_retries"
  | reliabilityRetryBackoffMs => str "reliability.retry_backoff_ms"
  | reliabilityTimeoutMs => str "reliability.timeout_ms"
  | memoryBackend => str "memory.backend"
  | gatewayBind => str "gateway.bind"
  | gatewayPort => str "gateway.port"
  | proxyEnabled => str "proxy.enabled"
  | proxyDefaultUrl => str "proxy.default_url"
  | mcpDeferredLoading => str "mcp.deferred_loading"

end TypedProp

/-- The typed field a path is compared equal with. -/
def typedProp (path : Bytes) : Option TypedProp := TypedProp.all.find? fun t => t.path == path

/-- A branch of `sc_config_get_prop`. -/
def readTyped (c : ScConfig) : TypedProp → Bytes
  | .schemaVersion => decimalInt c.schemaVersion.toNat
  | .runtimeAutonomyLevel => c.runtimeAutonomyLevel
  | .runtimeWorkspacePath => c.runtimeWorkspacePath
  | .providerDefault => c.providerDefault
  | .providerDefaultModel => c.providerDefaultModel
  | .providerApiKey => c.providerApiKey
  | .providerApiKeyEnv => c.providerApiKeyEnv
  | .modelRouteDefault => c.modelRouteDefault
  | .reliabilityMaxRetries => decimalInt c.reliabilityMaxRetries
  | .reliabilityRetryBackoffMs => decimalInt c.reliabilityRetryBackoffMs
  | .reliabilityTimeoutMs => decimalInt c.reliabilityTimeoutMs
  | .memoryBackend => c.memoryBackend
  | .gatewayBind => c.gatewayBind
  | .gatewayPort => decimalInt c.gatewayPort
  | .proxyEnabled => stringFromBool c.proxyEnabled
  | .proxyDefaultUrl => c.proxyDefaultUrl
  | .mcpDeferredLoading => stringFromBool c.mcpDeferredLoading

/-- `sc_config_get_prop` -/
def getProp (c : ScConfig) (path : Bytes) : Res Bytes :=
  match typedProp (normalizePath path) with
  | some t => .ok (readTyped c t)
  | none =>
      match c.values (normalizePath path) with
      | some stored => .ok stored
      | none => Status.invalidArgument "sc.config.unknown_field"

/-- `sc_config_get_prop_source` -/
def getPropSource (c : ScConfig) (path : Bytes) : Res Bytes :=
  match c.sources (normalizePath path) with
  | some source => .ok source
  | none => Status.invalidArgument "sc.config.unknown_field"

/-! ## Writing -/

/-- The loop over the servers when the default for deferred loading changes. -/
def deferServers (flag : Bool) (servers : List McpServer) : List McpServer :=
  servers.map fun s => if s.deferredLoadingSet then s else { s with deferredLoading := flag }

/-- A branch of `set_prop_from_text`: the typed field takes the text, the integer or the boolean. -/
def writeTyped (c : ScConfig) (value : Bytes) (parsedInt : Int) (parsedBool : Bool) : TypedProp → ScConfig
  | .schemaVersion => { c with schemaVersion := UInt32.ofInt parsedInt }
  | .runtimeAutonomyLevel => { c with runtimeAutonomyLevel := value }
  | .runtimeWorkspacePath => { c with runtimeWorkspacePath := value }
  | .providerDefault => { c with providerDefault := value }
  | .providerDefaultModel => { c with providerDefaultModel := value }
  | .providerApiKey => { c with providerApiKey := value }
  | .providerApiKeyEnv => { c with providerApiKeyEnv := value }
  | .modelRouteDefault => { c with modelRouteDefault := value }
  | .reliabilityMaxRetries => { c with reliabilityMaxRetries := parsedInt }
  | .reliabilityRetryBackoffMs => { c with reliabilityRetryBackoffMs := parsedInt }
  | .reliabilityTimeoutMs => { c with reliabilityTimeoutMs := parsedInt }
  | .memoryBackend => { c with memoryBackend := value }
  | .gatewayBind => { c with gatewayBind := value }
  | .gatewayPort => { c with gatewayPort := parsedInt }
  | .proxyEnabled => { c with proxyEnabled := parsedBool }
  | .proxyDefaultUrl => { c with proxyDefaultUrl := value }
  | .mcpDeferredLoading =>
      { c with mcpDeferredLoading := parsedBool, mcpServers := deferServers parsedBool c.mcpServers }

/-- `path.len > strlen(prefix) && memcmp(path.ptr, prefix, strlen(prefix)) == 0` -/
def startsAfter (text path : Bytes) : Bool := decide (text <+: path ∧ text.length < path.length)

/-- The branches of `set_prop_from_text` that only keep the text. -/
def keptAsText (path : Bytes) : Bool :=
  (["autonomy.level", "autonomy.shell_enabled", "autonomy.workspace_only", "autonomy.forbidden_paths",
    "autonomy.shell_env_passthrough", "autonomy.auto_approve", "autonomy.always_ask",
    "autonomy.never_allow", "autonomy.auto_approve.tools", "autonomy.always_ask.tools",
    "autonomy.never_allow.tools", "autonomy.allowed_commands", "autonomy.forbidden_commands",
    "tool_filter_groups"].any fun p => path == str p) ||
  ["logging.", "gateway.", "security.", "agent.", "tools.", "media.", "browser.", "hardware.", "sop.",
    "heartbeat.", "cron.", "channels.", "providers.models."].any fun p => startsAfter (str p) path

/-- `set_value`; `stored` is what the secret store answers when it is asked. -/
def setValue (c : ScConfig) (stored : Res Unit) (path value : Bytes) (secret : Bool) :
    ScConfig × Res Unit :=
  match c.secretStoreEnabled && secret, stored with
  | true, .error e => (c, .error e)
  | _, _ => ({ c with values := Function.update c.values path (some value) }, .ok ())

/-- `set_source` -/
def setSource (c : ScConfig) (path : Bytes) (kind : SourceKind) (sourcePath : Bytes) : ScConfig :=
  let source := sourceKindName kind ++ (if sourcePath = [] then [] else chr ':' :: sourcePath)
  { c with sources := Function.update c.sources path (some source) }

/-- The digits of `parse_mcp_server_path`: the index, unless it would pass `SIZE_MAX`, and the text
    left. -/
def parseIndex : Nat → Bytes → Option (Nat × Bytes)
  | parsed, [] => some (parsed, [])
  | parsed, c :: rest =>
      if isDigit c then
        if (2 ^ 64 - 1 - (c.toNat - 48)) / 10 < parsed then none
        else parseIndex (parsed * 10 + (c.toNat - 48)) rest
      else some (parsed, c :: rest)

/-- `parse_mcp_server_path` -/
def parseMcpServerPath (path : Bytes) : Option (Nat × Bytes) :=
  if startsAfter (str "mcp.servers.") path then
    let digits := path.drop (str "mcp.servers.").length
    if (digits.head?.map isDigit).getD false then
      match parseIndex 0 digits with
      | some (index, dot :: c :: field) => if dot = chr '.' then some (index, c :: field) else none
      | _ => none
    else none
  else none

/-- `mcp_server_for_index`: the table is filled up to the index. -/
def mcpServerForIndex (c : ScConfig) (index : Nat) : ScConfig :=
  { c with
    mcpServers := c.mcpServers ++
      List.replicate (index + 1 - c.mcpServers.length) { deferredLoading := c.mcpDeferredLoading } }

/-- The assignments of `apply_mcp_server_prop` to one server. -/
def setServerField (server : McpServer) (field value : Bytes) : Res McpServer :=
  if field = str "name" then .ok { server with name := value }
  else if field = str "transport" then .ok { server with transport := mcpTransportFromStr value }
  else if field = str "command" then .ok { server with command := value }
  else if field = str "args" then .ok { server with args := value }
  else if field = str "url" then .ok { server with url := value }
  else if field = str "headers" then .ok { server with headers := value }
  else if field = str "enabled" then
    (boolFromText value).map fun flag => { server with enabled := flag }
  else if field = str "deferred_loading" then
    (boolFromText value).map fun flag =>
      { server with deferredLoading := flag, deferredLoadingSet := true }
  else .ok server

/-- `apply_mcp_server_prop` -/
def applyMcpServerProp (c : ScConfig) (path value : Bytes) : ScConfig × Res Unit :=
  match parseMcpServerPath path with
  | none => (c, .ok ())
  | some (index, field) =>
      let c := mcpServerForIndex c index
      match c.mcpServers[index]? with
      | none => (c, Status.noMemory)
      | some server =>
          match setServerField server field value with
          | .error e => (c, .error e)
          | .ok server => ({ c with mcpServers := c.mcpServers.set index server }, .ok ())

/-- The parts of `set_prop_from_text` after the type check: a field of the table. -/
def setKnown (c : ScConfig) (stored : Res Unit) (secret : Bool) (path value : Bytes) (kind : SourceKind)
    (parsedInt : Int) (parsedBool : Bool) : ScConfig × Res Unit :=
  let typed :=
    match typedProp path with
    | some t => some (writeTyped c value parsedInt parsedBool t)
    | none => if keptAsText path then some c else none
  match typed with
  | none => (c, Status.parse "sc.config.unknown_field")
  | some c =>
      match setValue c stored path value secret with
      | (c, .error e) => (c, .error e)
      | (c, .ok ()) => (setSource c path kind (sourceKindName kind), .ok ())

/-- The parts of `set_prop_from_text` for a path that is no field of the table. -/
def setUnknown (c : ScConfig) (stored : Res Unit) (path value : Bytes) (kind : SourceKind) :
    ScConfig × Res Unit :=
  match setValue c stored path value (pathLooksSecret path) with
  | (c, .error e) => (c, .error e)
  | (c, .ok ()) =>
      match applyMcpServerProp c path value with
      | (c, .error e) => (c, .error e)
      | (c, .ok ()) => (setSource c path kind (sourceKindName kind), .ok ())

/-- `set_prop_from_text`: the configuration it leaves and its status. -/
def setPropFromText (c : ScConfig) (stored : Res Unit) (path value : Bytes) (kind : SourceKind) :
    ScConfig × Res Unit :=
  let path := normalizePath path
  match configFieldLookup path with
  | none => setUnknown c stored path value kind
  | some field =>
      let secret := field.secret || pathLooksSecret path
      match field.type with
      | .int =>
          match intFromText value with
          | .error _ => (c, Status.parse "sc.config.invalid_type")
          | .ok parsed => setKnown c stored secret path value kind parsed false
      | .bool =>
          match boolFromText value with
          | .error _ => (c, Status.parse "sc.config.invalid_type")
          | .ok parsed => setKnown c stored secret path value kind 0 parsed
      | .string => setKnown c stored secret path value kind 0 false

/-- `sc_config_apply_override`, and `sc_config_set_prop` with the kind `runtime` -/
def applyOverride (c : ScConfig) (stored : Res Unit) (kind : SourceKind) (path value : Bytes) :
    ScConfig × Res Unit :=
  setPropFromText c stored (normalizePath path) value kind

/-- The loop of `sc_config_init_defaults`: every field without `<name>` takes its default. -/
def initDefaults : Res ScConfig :=
  (configFields.filter fun f => (wildcardSplit f.path).isNone).foldlM
    (fun c f =>
      match setPropFromText c (.ok ()) f.path f.defaultValue .builtinDefaults with
      | (c, .ok ()) => .ok c
      | (_, .error e) => .error e)
    {}

/-! ## What a write leaves behind -/

namespace TypedProp

/-- The type the table of fields gives the path. -/
def type : TypedProp → FieldType
  | schemaVersion | reliabilityMaxRetries | reliabilityRetryBackoffMs | reliabilityTimeoutMs
  | gatewayPort => .int
  | proxyEnabled | mcpDeferredLoading => .bool
  | _ => .string

theorem mem_all (t : TypedProp) : t ∈ all := by cases t <;> decide

theorem path_injective {t u : TypedProp} (h : t.path = u.path) : t = u := by
  have hnodup : (all.map path).Nodup := by decide +kernel
  exact List.inj_on_of_nodup_map hnodup (mem_all t) (mem_all u) h

/-- The row of the table for a typed path; typed integers and booleans are no secrets. -/
theorem lookup_path (t : TypedProp) :
    ∃ f, configFieldLookup t.path = some f ∧ f.type = t.type ∧
      (t.type ≠ .string → (f.secret || pathLooksSecret t.path) = false) := by
  have hrow : ∀ t ∈ all, ((configFieldLookup t.path).any fun f =>
      f.type == t.type && (t.type == .string || !(f.secret || pathLooksSecret t.path))) = true := by
    decide +kernel
  have hany := hrow t (mem_all t)
  cases hf : configFieldLookup t.path with
  | none => rw [hf] at hany; exact absurd hany Bool.false_ne_true
  | some f =>
    rw [hf, Option.any_some, Bool.and_eq_true, Bool.or_eq_true] at hany
    refine ⟨f, rfl, eq_of_beq hany.1, fun hne => ?_⟩
    rcases hany.2 with hstring | hsecret
    · exact absurd (eq_of_beq hstring) hne
    · exact Bool.not_eq_true' _ ▸ hsecret

end TypedProp

theorem typedProp_eq_some {path : Bytes} {t : TypedProp} :
    typedProp path = some t ↔ path = t.path := by
  constructor
  · intro h
    have hpath := List.find?_some (p := fun t : TypedProp => t.path == path) h
    exact (eq_of_beq hpath).symm
  · rintro rfl
    cases hu : typedProp t.path with
    | none =>
      have hnone := List.find?_eq_none.mp hu t (TypedProp.mem_all t)
      exact absurd (beq_self_eq_true t.path) hnone
    | some u =>
      have hpath := List.find?_some (p := fun u : TypedProp => u.path == t.path) hu
      rw [TypedProp.path_injective (eq_of_beq hpath)]

/-- The text a typed field is read as after a write. -/
def typedText (value : Bytes) (parsedInt : Int) (parsedBool : Bool) (t : TypedProp) : Bytes :=
  match t.type with
  | .string => value
  | .int => decimalInt (if t = .schemaVersion then (UInt32.ofInt parsedInt).toNat else parsedInt)
  | .bool => stringFromBool parsedBool

/-- A write changes the typed field it is for, and no other. -/
theorem readTyped_writeTyped (c : ScConfig) (value : Bytes) (i : Int) (b : Bool) (t u : TypedProp) :
    readTyped (writeTyped c value i b t) u = if u = t then typedText value i b t else readTyped c u := by
  cases t <;> cases u <;> rfl

theorem writeTyped_frame (c : ScConfig) (value : Bytes) (i : Int) (b : Bool) (t : TypedProp) :
    (writeTyped c value i b t).values = c.values ∧ (writeTyped c value i b t).sources = c.sources ∧
      (writeTyped c value i b t).secretStoreEnabled = c.secretStoreEnabled ∧
      (t.type = .string → (writeTyped c value i b t).mcpServers = c.mcpServers) := by
  cases t <;> exact ⟨rfl, rfl, rfl, fun h => by first | rfl | exact absurd h (by decide)⟩

/-! ## One write -/

/-- Whether `set_value` takes the path to the secret store. -/
def isSecret (path : Bytes) : Bool :=
  ((configFieldLookup path).map ConfigField.secret).getD false || pathLooksSecret path

/-- The secret store is asked and refuses. -/
def Refused (c : ScConfig) (stored : Res Unit) (path : Bytes) : Prop :=
  c.secretStoreEnabled = true ∧ isSecret path = true ∧ stored ≠ .ok ()

theorem setValue_cases (c : ScConfig) (stored : Res Unit) (path value : Bytes) (secret : Bool) :
    (∃ e, stored = .error e ∧ c.secretStoreEnabled = true ∧ secret = true ∧
      setValue c stored path value secret = (c, .error e)) ∨
    (¬ (c.secretStoreEnabled = true ∧ secret = true ∧ stored ≠ .ok ()) ∧
      setValue c stored path value secret =
        ({ c with values := Function.update c.values path (some value) }, .ok ())) := by
  unfold setValue
  cases hs : c.secretStoreEnabled <;> cases secret <;> cases stored <;> simp

/-- The fields of a server that hold a flag. -/
def isFlagField (field : Bytes) : Bool := field == str "enabled" || field == str "deferred_loading"

theorem setServerField_error {server : McpServer} {field value : Bytes} :
    (∃ e, setServerField server field value = .error e) ↔
      isFlagField field = true ∧ ∃ e, boolFromText value = .error e := by
  have hflag : isFlagField field = true ↔ field = str "enabled" ∨ field = str "deferred_loading" := by
    rw [isFlagField, Bool.or_eq_true, beq_iff_eq, beq_iff_eq]
  have hmap : ∀ f : Bool → McpServer,
      (∃ e, (boolFromText value).map f = .error e) ↔ ∃ e, boolFromText value = .error e := by
    intro f
    cases boolFromText value with
    | ok b => constructor <;> exact fun ⟨_, h⟩ => nomatch h
    | error e => exact ⟨fun _ => ⟨e, rfl⟩, fun _ => ⟨e, rfl⟩⟩
  rw [hflag]
  unfold setServerField
  by_cases h7 : field = str "enabled"
  · subst h7
    rw [if_neg (by decide), if_neg (by decide), if_neg (by decide),
      if_neg (by decide), if_neg (by decide), if_neg (by decide), if_pos rfl,
      hmap]
    exact ⟨fun h => ⟨Or.inl rfl, h⟩, And.right⟩
  · by_cases h8 : field = str "deferred_loading"
    · subst h8
      rw [if_neg (by decide), if_neg (by decide), if_neg (by decide),
        if_neg (by decide), if_neg (by decide), if_neg (by decide), if_neg h7,
        if_pos rfl, hmap]
      exact ⟨fun h => ⟨Or.inr rfl, h⟩, And.right⟩
    · -- every other field takes any text
      rw [if_neg h7, if_neg h8]
      constructor
      · rintro ⟨e, h⟩
        repeat' split at h
        all_goals exact nomatch h
      · rintro ⟨h | h, -⟩
        · exact absurd h h7
        · exact absurd h h8

/-- Filling up the table of servers changes it exactly when the index is not there yet. -/
theorem mcpServerForIndex_eq_iff {c : ScConfig} {index : Nat} :
    (mcpServerForIndex c index).mcpServers = c.mcpServers ↔ index < c.mcpServers.length := by
  rw [mcpServerForIndex]
  constructor
  · intro h
    have hlen := congrArg List.length h
    rw [List.length_append, List.length_replicate] at hlen
    omega
  · intro h
    have hzero : index + 1 - c.mcpServers.length = 0 := by omega
    show c.mcpServers ++ List.replicate _ _ = _
    rw [hzero, List.replicate_zero, List.append_nil]

/-- A flag of an MCP server that is given a text which is no flag. -/
def BadFlag (path value : Bytes) (index : Nat) : Prop :=
  ∃ field, parseMcpServerPath path = some (index, field) ∧ isFlagField field = true ∧
    ∃ e, boolFromText value = .error e

theorem applyMcpServerProp_cases (c : ScConfig) (path value : Bytes) :
    (∃ index e, BadFlag path value index ∧
      applyMcpServerProp c path value = (mcpServerForIndex c index, .error e)) ∨
    ((∀ index, ¬ BadFlag path value index) ∧
      ∃ servers, applyMcpServerProp c path value = ({ c with mcpServers := servers }, .ok ())) := by
  cases hparse : parseMcpServerPath path with
  | none =>
    refine Or.inr ⟨fun index ⟨field, h, _⟩ => ?_, c.mcpServers, ?_⟩
    · rw [hparse] at h
      exact nomatch h
    · rw [applyMcpServerProp, hparse]
  | some found =>
    obtain ⟨index, field⟩ := found
    -- the table reaches the index once it has been filled up
    have hlen : index < (mcpServerForIndex c index).mcpServers.length := by
      rw [mcpServerForIndex]
      show index < (c.mcpServers ++ List.replicate _ _).length
      rw [List.length_append, List.length_replicate]
      omega
    have hget := List.getElem?_eq_getElem hlen
    cases hset : setServerField (mcpServerForIndex c index).mcpServers[index] field value with
    | error e =>
      obtain ⟨hflag, hbool⟩ := setServerField_error.mp ⟨e, hset⟩
      refine Or.inl ⟨index, e, ⟨field, hparse, hflag, hbool⟩, ?_⟩
      simp only [applyMcpServerProp, hparse, hget, hset]
    | ok server =>
      refine Or.inr ⟨?_, (mcpServerForIndex c index).mcpServers.set index server, ?_⟩
      · rintro i ⟨field', hparse', hflag, hbool⟩
        rw [hparse] at hparse'
        obtain ⟨-, rfl⟩ := Prod.mk.inj (Option.some.inj hparse')
        obtain ⟨e, he⟩ := setServerField_error.mpr ⟨hflag, hbool⟩
        rw [he] at hset
        exact nomatch hset
      · simp only [applyMcpServerProp, hparse, hget, hset]
        rfl

/-- What a successful write of `value` to `path` leaves behind, place by place. -/
structure Written (c c' : ScConfig) (path value : Bytes) (kind : SourceKind) : Prop where
  values : c'.values = Function.update c.values path (some value)
  sources : c'.sources = Function.update c.sources path
    (some (sourceKindName kind ++ chr ':' :: sourceKindName kind))
  typed : ∀ t, typedProp path = some t → ∃ i b, (t.type = .int → intFromText value = .ok i) ∧
    (t.type = .bool → boolFromText value = .ok b) ∧ readTyped c' t = typedText value i b t
  others : ∀ t, typedProp path ≠ some t → readTyped c' t = readTyped c t

/-- The five ways a call ends. -/
inductive Outcome (c : ScConfig) (stored : Res Unit) (path value : Bytes) (kind : SourceKind) :
    ScConfig × Res Unit → Prop where
  /-- The text is not of the field's type, or the field has no branch. -/
  | invalid (e : ScError) (hknown : configFieldLookup path ≠ none)
      (htyped : ∀ t, typedProp path = some t →
        t.type ≠ .string ∧ (t.type = .int → ∃ e, intFromText value = .error e)) :
      Outcome c stored path value kind (c, .error e)
  /-- The secret store refuses a path without a typed field. -/
  | refused (e : ScError) (hrefused : Refused c stored path) (htyped : typedProp path = none) :
      Outcome c stored path value kind (c, .error e)
  /-- The secret store refuses, and the typed field is changed already. -/
  | refusedTyped (e : ScError) (t : TypedProp) (i : Int) (b : Bool)
      (hrefused : Refused c stored path) (htyped : typedProp path = some t) :
      Outcome c stored path value kind (writeTyped c value i b t, .error e)
  /-- A malformed flag of an MCP server, noticed after the text is stored. -/
  | badFlag (e : ScError) (index : Nat) (hstored : ¬ Refused c stored path)
      (hunknown : configFieldLookup path = none) (hbad : BadFlag path value index) :
      Outcome c stored path value kind
        (mcpServerForIndex { c with values := Function.update c.values path (some value) } index,
          .error e)
  | written (c' : ScConfig) (hstored : ¬ Refused c stored path)
      (hflag : configFieldLookup path = none → ∀ index, ¬ BadFlag path value index)
      (hwritten : Written c c' path value kind) : Outcome c stored path value kind (c', .ok ())

theorem typedProp_of_unknown {path : Bytes} (h : configFieldLookup path = none) :
    typedProp path = none := by
  cases ht : typedProp path with
  | none => rfl
  | some t =>
    obtain ⟨f, hf, -⟩ := t.lookup_path
    rw [typedProp_eq_some.mp ht, hf] at h
    exact nomatch h

theorem setSource_source (c : ScConfig) (path : Bytes) (kind : SourceKind) :
    (setSource c path kind (sourceKindName kind)).sources = Function.update c.sources path
      (some (sourceKindName kind ++ chr ':' :: sourceKindName kind)) := by
  have hne : sourceKindName kind ≠ [] := by cases kind <;> decide
  rw [setSource]
  simp only [if_neg hne]

/-- Reading a typed field looks at no other part of the record. -/
theorem readTyped_congr (c : ScConfig) (servers : List McpServer) (values sources : Bytes → Option Bytes)
    (t : TypedProp) :
    readTyped { c with mcpServers := servers, values := values, sources := sources } t =
      readTyped c t := by
  cases t <;> rfl

theorem setUnknown_outcome {c : ScConfig} {stored : Res Unit} {path value : Bytes} {kind : SourceKind}
    (h : configFieldLookup path = none) :
    Outcome c stored path value kind (setUnknown c stored path value kind) := by
  have htyped := typedProp_of_unknown h
  have hsecret : isSecret path = pathLooksSecret path := by rw [isSecret, h]; rfl
  unfold setUnknown
  rcases setValue_cases c stored path value (pathLooksSecret path) with
    ⟨e, rfl, henabled, hlooks, hset⟩ | ⟨hstored, hset⟩
  · rw [hset]
    exact .refused e ⟨henabled, hsecret.trans hlooks, nofun⟩ htyped
  · rw [hset]
    have hnot : ¬ Refused c stored path := by rwa [Refused, hsecret]
    rcases applyMcpServerProp_cases { c with values := Function.update c.values path (some value) } path
      value with ⟨index, e, hbad, happly⟩ | ⟨hflag, servers, happly⟩
    · simp only [happly]
      exact .badFlag e index hnot h hbad
    · simp only [happly]
      refine .written _ hnot (fun _ => hflag) ⟨rfl, setSource_source _ path kind, ?_, ?_⟩
      · intro t ht
        rw [htyped] at ht
        exact nomatch ht
      · intro t _
        exact readTyped_congr c servers _ _ t

theorem setKnown_outcome {c : ScConfig} {stored : Res Unit} {path value : Bytes} {kind : SourceKind}
    {field : ConfigField} {i : Int} {b : Bool} (h : configFieldLookup path = some field)
    (hi : field.type = .int → intFromText value = .ok i)
    (hb : field.type = .bool → boolFromText value = .ok b) :
    Outcome c stored path value kind
      (setKnown c stored (field.secret || pathLooksSecret path) path value kind i b) := by
  have hknown : configFieldLookup path ≠ none := by rw [h]; nofun
  have hsecret : isSecret path = (field.secret || pathLooksSecret path) := by rw [isSecret, h]; rfl
  unfold setKnown
  cases ht : typedProp path with
  | some t =>
    obtain ⟨f, hf, htype, -⟩ := t.lookup_path
    have hfield : f = field := by
      rw [typedProp_eq_some.mp ht, hf] at h
      exact Option.some.inj h
    rw [hfield] at htype
    obtain ⟨hvalues, hsources, henabled, -⟩ := writeTyped_frame c value i b t
    simp only
    rcases setValue_cases (writeTyped c value i b t) stored path value
      (field.secret || pathLooksSecret path) with ⟨e, rfl, hstore, hlooks, hset⟩ | ⟨hstored, hset⟩
    · rw [hset]
      exact .refusedTyped e t i b ⟨henabled ▸ hstore, hsecret.trans hlooks, nofun⟩ ht
    · rw [hset]
      have hnot : ¬ Refused c stored path := by rwa [Refused, hsecret, ← henabled]
      refine .written _ hnot (fun hnone => absurd hnone hknown) ⟨?_, ?_, ?_, ?_⟩
      · show Function.update (writeTyped c value i b t).values path (some value) = _
        rw [hvalues]
      · rw [setSource_source]
        show Function.update (writeTyped c value i b t).sources path _ = _
        rw [hsources]
      · intro u hu
        obtain rfl : t = u := Option.some.inj (ht ▸ hu)
        refine ⟨i, b, fun hint => hi (htype ▸ hint), fun hbool => hb (htype ▸ hbool), ?_⟩
        refine (readTyped_congr (writeTyped c value i b t) _ _ _ t).trans ?_
        rw [readTyped_writeTyped, if_pos rfl]
      · intro u hu
        refine (readTyped_congr (writeTyped c value i b t) _ _ _ u).trans ?_
        rw [readTyped_writeTyped, if_neg]
        rintro rfl
        exact hu ht
  | none =>
    simp only
    split
    · exact .invalid _ hknown fun t ht' => by rw [ht] at ht'; exact nomatch ht'
    · rename_i c₁ hc
      obtain rfl : c = c₁ := by
        split at hc
        · exact Option.some.inj hc
        · exact nomatch hc
      rcases setValue_cases c stored path value (field.secret || pathLooksSecret path) with
        ⟨e, rfl, hstore, hlooks, hset⟩ | ⟨hstored, hset⟩
      · rw [hset]
        exact .refused e ⟨hstore, hsecret.trans hlooks, nofun⟩ ht
      · rw [hset]
        have hnot : ¬ Refused c stored path := by rwa [Refused, hsecret]
        refine .written _ hnot (fun hnone => absurd hnone hknown)
          ⟨rfl, setSource_source _ path kind, ?_, fun t _ => readTyped_congr c _ _ _ t⟩
        intro t ht'
        rw [ht] at ht'
        exact nomatch ht'

/-- **What a call can do.** -/
theorem setPropFromText_outcome (c : ScConfig) (stored : Res Unit) (path value : Bytes)
    (kind : SourceKind) :
    Outcome c stored (normalizePath path) value kind (setPropFromText c stored path value kind) := by
  unfold setPropFromText
  simp only
  cases h : configFieldLookup (normalizePath path) with
  | none =>
    simp only
    exact setUnknown_outcome h
  | some field =>
    have hknown : configFieldLookup (normalizePath path) ≠ none := by rw [h]; nofun
    have htype : ∀ t, typedProp (normalizePath path) = some t → t.type = field.type := by
      intro t ht
      obtain ⟨f, hf, htype, -⟩ := t.lookup_path
      rw [typedProp_eq_some.mp ht, hf] at h
      rw [← htype, Option.some.inj h]
    cases hf : field.type with
    | string =>
      simp only [hf]
      exact setKnown_outcome h (fun h' => by rw [hf] at h'; exact nomatch h')
        (fun h' => by rw [hf] at h'; exact nomatch h')
    | int =>
      cases hint : intFromText value with
      | error e =>
        simp only [hf]
        refine .invalid _ hknown fun t ht => ⟨?_, fun _ => ⟨e, hint⟩⟩
        rw [htype t ht, hf]
        nofun
      | ok i =>
        simp only [hf]
        exact setKnown_outcome h (fun _ => hint) (fun h' => by rw [hf] at h'; exact nomatch h')
    | bool =>
      cases hbool : boolFromText value with
      | error e =>
        simp only [hf]
        refine .invalid _ hknown fun t ht => ?_
        rw [htype t ht, hf]
        exact ⟨nofun, nofun⟩
      | ok b =>
        simp only [hf]
        exact setKnown_outcome h (fun h' => by rw [hf] at h'; exact nomatch h') (fun _ => hbool)

/-! ## Reading after a write -/

theorem normalizePath_idem (path : Bytes) : normalizePath (normalizePath path) = normalizePath path := by
  by_cases h : path = str "schema_version"
  · subst h
    decide
  · simp only [normalizePath, if_neg h]

/-- Another path reads as before. -/
theorem Written.getProp_ne {c c' : ScConfig} {path value q : Bytes} {kind : SourceKind}
    (h : Written c c' path value kind) (hq : normalizePath q ≠ path) : getProp c' q = getProp c q := by
  unfold getProp
  cases ht : typedProp (normalizePath q) with
  | none =>
    simp only
    rw [h.values, Function.update_of_ne hq]
  | some t =>
    simp only
    rw [h.others t fun hp => hq ((typedProp_eq_some.mp ht).trans (typedProp_eq_some.mp hp).symm)]

/-- A path without a typed field reads as the text that was written. -/
theorem Written.getProp_text {c c' : ScConfig} {path value q : Bytes} {kind : SourceKind}
    (h : Written c c' path value kind) (hq : normalizePath q = path) (ht : typedProp path = none) :
    getProp c' q = .ok value := by
  rw [getProp, hq, ht]
  simp only
  rw [h.values, Function.update_self]

end SmolClaw.Config
