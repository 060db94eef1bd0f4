/-
  The argument vector that the process runner starts (`make_argv`, `src/tools/process_runner.c`), with the
  sandboxes it comes from (`src/security/sandbox.c`, `sandbox_bubblewrap.c`, `sandbox_firejail.c` and
  `sandbox_container.c`).

  1. **Selection** — a policy names a backend, or an order in which to try them; a sandbox is made if the
     machine has it.

  2. **Plans** — a sandbox puts its options in front of the command (`bubblewrap_check`, `firejail_check` and
     `container_check`), and the words become C strings.

  3. **Result** — `makeArgv_ok`: what is returned is the plan of the sandbox that was selected.

  `sc_alloc` always succeeds, and the pointers of the request are not null.
-/
import Mathlib.Data.List.Infix
import Mathlib.Data.List.TakeWhile
import SmolClaw.Core.Double
import SmolClaw.Core.Text

namespace SmolClaw.ProcessRunner

/-! ## Policies and requests -/

/-- `sc_sandbox_backend` -/
inductive SandboxBackend where
  | auto | landlock | bubblewrap | firejail | docker | seatbelt | appcontainer | podman | container | noop
  | unknown
  deriving DecidableEq, Repr

/-- `sc_sandbox_network_policy` -/
inductive SandboxNetwork where
  | full | allowedDomains | none
  deriving DecidableEq, Repr

/-- `sc_security_policy`, as far as the process runner reads it for a plan. -/
structure SandboxPolicy where
  backend : SandboxBackend
  network : SandboxNetwork := .full
  memoryLimitMb : Int64 := 0
  maxSubprocesses : Int64 := 0
  allowDevices : List Bytes := []
  containerRuntime : Bytes := []
  dockerPath : Bytes := []
  podmanPath : Bytes := []
  imageName : Bytes := []
  shellEnvPassthrough : List Bytes := []
  fallbackOrder : List SandboxBackend := []
  allowNoopFallback : Bool := false

/-- `sc_tool_process_request`, as far as a plan reads it. -/
structure ProcessRequest where
  policy : Option SandboxPolicy
  executable : Bytes
  args : List Bytes
  cwd : Bytes
  envPassthrough : List Bytes := []

/-- `sc_sandbox_request` -/
structure SandboxRequest where
  executable : Bytes
  args : List Bytes
  cwd : Bytes
  network : SandboxNetwork
  memoryLimitMb : Int64
  maxSubprocesses : Int64
  allowedDevices : List Bytes
  envPassthrough : List Bytes
  imageName : Bytes

/-- What the machine has: the files that may be executed, and Landlock. -/
structure Host where
  executable : Bytes → Bool
  landlock : Bool

/-- A C string: the bytes up to the first NUL. -/
def argBytes (bytes : Bytes) : Bytes := bytes.takeWhile (· ≠ 0)

/-! ## Sandboxes -/

/-- A sandbox that was made, with the path of the runtime. -/
inductive Sandbox where
  | noop
  | landlock
  | bubblewrap
  | firejail
  | container (path : Bytes)

/-- `container_new` -/
def containerNew (host : Host) (runtime : Bytes) : Res Sandbox :=
  if runtime = [] then Status.invalidArgument "sc.sandbox.container.invalid_argument"
  else if 4096 ≤ runtime.length then Status.invalidArgument "sc.sandbox.container.runtime_invalid"
  else if host.executable (argBytes runtime) then .ok (.container runtime)
  else Status.unsupported "sc.sandbox.container.unavailable"

/-- `sc_sandbox_landlock_new` -/
def landlockNew (host : Host) : Res Sandbox :=
  if host.landlock then .ok .landlock else Status.unsupported "sc.sandbox.landlock.unavailable"

/-- `sc_sandbox_bubblewrap_new` -/
def bubblewrapNew (host : Host) : Res Sandbox :=
  if host.executable (str "/usr/bin/bwrap") then .ok .bubblewrap
  else Status.unsupported "sc.sandbox.bubblewrap.unavailable"

/-- `sc_sandbox_firejail_new` -/
def firejailNew (host : Host) : Res Sandbox :=
  if host.executable (str "/usr/bin/firejail") then .ok .firejail
  else Status.unsupported "sc.sandbox.firejail.unavailable"

/-- `sc_sandbox_docker_new` -/
def dockerNew (host : Host) : Res Sandbox := containerNew host (str "/usr/bin/docker")

/-- `sc_sandbox_podman_new` -/
def podmanNew (host : Host) : Res Sandbox := containerNew host (str "/usr/bin/podman")

/-- The first that can be made, or the last resort. -/
def firstOf (candidates : List (Res Sandbox)) (otherwise : Res Sandbox) : Res Sandbox :=
  match candidates.findSome? Except.toOption with
  | some sandbox => .ok sandbox
  | none => otherwise

/-- `sc_sandbox_select_backend`, without an audit chain. -/
def selectBackend (host : Host) : SandboxBackend → Res Sandbox
  | .unknown => Status.invalidArgument "sc.sandbox.backend_unknown"
  | .noop => .ok .noop
  | .landlock => landlockNew host
  | .bubblewrap => bubblewrapNew host
  | .firejail => firejailNew host
  | .docker => dockerNew host
  | .podman => podmanNew host
  | .container => Status.unsupported "sc.sandbox.container.runtime_required"
  | .seatbelt => Status.unsupported "sc.sandbox.seatbelt.unsupported"
  | .appcontainer => Status.unsupported "sc.sandbox.appcontainer.unsupported"
  | .auto => firstOf [landlockNew host, bubblewrapNew host, firejailNew host, dockerNew host, podmanNew host]
      (.ok .noop)

/-- `select_process_sandbox` -/
def selectProcessSandbox (host : Host) : Option SandboxPolicy → Res Sandbox
  | none => selectBackend host .noop
  | some policy =>
      match policy.backend with
      | .auto => firstOf (policy.fallbackOrder.map (selectBackend host))
          (if policy.allowNoopFallback then .ok .noop
            else Status.unsupported "sc.process_runner.sandbox_backend_unavailable")
      | .container =>
          if policy.containerRuntime = [] then
            Status.invalidArgument "sc.process_runner.container_runtime_required"
          else containerNew host policy.containerRuntime
      | .docker =>
          if policy.dockerPath = [] then selectBackend host .docker else containerNew host policy.dockerPath
      | .podman =>
          if policy.podmanPath = [] then selectBackend host .podman else containerNew host policy.podmanPath
      | backend => selectBackend host backend

/-! ## Plans -/

/-- `sc_sandbox_decision_add_original_command` -/
def originalCommand (r : SandboxRequest) : List Bytes := r.executable :: r.args

/-- A device that is let through; `*` and empty names are passed over. -/
def letsThrough (device : Bytes) : Bool := device ≠ [] && device ≠ str "*"

/-- `bubblewrap_check` -/
def bubblewrapCheck (r : SandboxRequest) : Res (List Bytes) :=
  if r.executable = [] then Status.invalidArgument "sc.sandbox.bubblewrap.invalid_argument"
  else .ok (["/usr/bin/bwrap", "--die-with-parent", "--new-session"].map str ++
    (if r.network = .none then [str "--unshare-net"] else []) ++
    ["--proc", "/proc", "--dev", "/dev", "--tmpfs", "/tmp"].map str ++
    (["/usr", "/bin", "/lib", "/lib64", "/etc"].flatMap fun path => ["--ro-bind-try", path, path].map str) ++
    (if r.cwd = [] then [] else [str "--bind", r.cwd, r.cwd, str "--chdir", r.cwd]) ++
    ((r.allowedDevices.filter letsThrough).flatMap fun device => [str "--dev-bind", device, device]) ++
    str "--" :: originalCommand r)

/-- The `flags` of `firejail_check`. -/
def firejailFlags : List Bytes :=
  ["--quiet", "--noprofile", "--private-tmp", "--caps.drop=all", "--nonewprivs", "--noroot"].map str

/-- `firejail_check` -/
def firejailCheck (r : SandboxRequest) : Res (List Bytes) :=
  if r.executable = [] then Status.invalidArgument "sc.sandbox.firejail.invalid_argument"
  else .ok (str "/usr/bin/firejail" :: firejailFlags ++
    (if r.network = .none then [str "--net=none"] else []) ++
    (if r.cwd = [] then [] else [str "--private=" ++ r.cwd]) ++ originalCommand r)

/-- The image of a container, by the name that is configured. -/
def imageOf (imageName : Bytes) : Bytes := if imageName = [] then str "alpine:3.23.4" else imageName

/-- `container_check` -/
def containerCheck (path : Bytes) (r : SandboxRequest) : Res (List Bytes) :=
  if r.executable = [] then Status.invalidArgument "sc.sandbox.container.invalid_argument"
  else if r.cwd = [] then Status.invalidArgument "sc.sandbox.container.workspace_required"
  else .ok (path :: ["run", "--rm", "--init", "--pull=never"].map str ++
    (if r.network = .none then ["--network", "none"].map str else []) ++
    (if 0 < r.memoryLimitMb then [str "--memory", decimalInt r.memoryLimitMb.toInt ++ str "m"] else []) ++
    (if 0 < r.maxSubprocesses then [str "--pids-limit", decimalInt r.maxSubprocesses.toInt] else []) ++
    ((r.envPassthrough.filter (· ≠ [])).flatMap fun name => [str "--env", name]) ++
    [str "--volume", r.cwd ++ str ":/workspace:rw", str "--workdir", str "/workspace", imageOf r.imageName] ++
    originalCommand r)

/-- `sc_sandbox_check` on each sandbox; `noop_check` and `landlock_check` leave the command as it is. -/
def Sandbox.check (host : Host) (r : SandboxRequest) : Sandbox → Res (List Bytes)
  | .noop => .ok (if r.executable = [] then [] else originalCommand r)
  | .landlock =>
      if host.landlock then .ok (if r.executable = [] then [] else originalCommand r)
      else Status.unsupported "sc.sandbox.landlock.unavailable"
  | .bubblewrap => bubblewrapCheck r
  | .firejail => firejailCheck r
  | .container path => containerCheck path r

/-! ## The argument vector -/

/-- `env_name_secret`: a name that is malformed or looks like a secret. -/
def envNameSecret (name : Bytes) : Bool :=
  name.isEmpty || !(name.all fun c => (chr 'A' ≤ c && c ≤ chr 'Z') || isDigit c || c == chr '_') ||
    (["KEY", "TOKEN", "SECRET", "PASSWORD", "AUTH", "COOKIE"].map str).any fun needle =>
      decide (needle <:+: name)

/-- `make_env_views`: names that are not copied stay as empty views. -/
def makeEnvViews (request : ProcessRequest) : List Bytes :=
  (((request.policy.map (·.shellEnvPassthrough)).getD []) ++ request.envPassthrough).map fun name =>
    if envNameSecret name then [] else name

/-- The request that `make_argv` hands to the sandbox. -/
def sandboxRequest (request : ProcessRequest) : SandboxRequest where
  executable := request.executable
  args := request.args
  cwd := request.cwd
  network := (request.policy.map (·.network)).getD .full
  memoryLimitMb := (request.policy.map (·.memoryLimitMb)).getD 0
  maxSubprocesses := (request.policy.map (·.maxSubprocesses)).getD 0
  allowedDevices := (request.policy.map (·.allowDevices)).getD []
  envPassthrough := makeEnvViews request
  imageName := (request.policy.map (·.imageName)).getD []

/-- `decision_to_argv` -/
def decisionToArgv (argv : List Bytes) : Res (List Bytes) :=
  if argv = [] then Status.invalidArgument "sc.process_runner.argv_invalid_argument"
  else .ok (argv.map argBytes)

/-- `make_argv` -/
def makeArgv (host : Host) (request : ProcessRequest) : Res (List Bytes) := do
  let sandbox ← selectProcessSandbox host request.policy
  let decision ← sandbox.check host (sandboxRequest request)
  decisionToArgv decision

variable {host : Host} {policy : SandboxPolicy} {request : ProcessRequest} {argv : List Bytes}
  {sandbox : Sandbox}

/-! ## C strings -/

theorem argBytes_clean {word : Bytes} (h : (0 : UInt8) ∉ word) : argBytes word = word :=
  List.takeWhile_eq_self_iff.mpr fun _ hc => decide_eq_true fun hzero => h (hzero ▸ hc)

/-- Words that hold no NUL stay as they are. -/
theorem map_argBytes {words : List Bytes} (h : ∀ word ∈ words, (0 : UInt8) ∉ word) :
    words.map argBytes = words := by
  rw [List.map_congr_left fun word hword => argBytes_clean (h word hword)]
  exact List.map_id words

/-! ## Selection -/

/-- A container runtime that was made. -/
theorem containerNew_ok {runtime : Bytes} (h : containerNew host runtime = .ok sandbox) :
    sandbox = .container runtime := by
  unfold containerNew at h
  split at h
  · cases h
  split at h
  · cases h
  split at h
  · cases h
    rfl
  · cases h

theorem select_bubblewrap (hbackend : policy.backend = .bubblewrap)
    (h : selectProcessSandbox host (some policy) = .ok sandbox) : sandbox = .bubblewrap := by
  simp only [selectProcessSandbox, hbackend, selectBackend, bubblewrapNew] at h
  split at h
  · cases h
    rfl
  · cases h

theorem select_firejail (hbackend : policy.backend = .firejail)
    (h : selectProcessSandbox host (some policy) = .ok sandbox) : sandbox = .firejail := by
  simp only [selectProcessSandbox, hbackend, selectBackend, firejailNew] at h
  split at h
  · cases h
    rfl
  · cases h

theorem select_container (hbackend : policy.backend ∈ [.docker, .podman, .container])
    (h : selectProcessSandbox host (some policy) = .ok sandbox) : ∃ path, sandbox = .container path := by
  simp only [List.mem_cons, List.not_mem_nil, or_false] at hbackend
  rcases hbackend with hbackend | hbackend | hbackend
  · simp only [selectProcessSandbox, hbackend, selectBackend, dockerNew] at h
    split at h <;> exact ⟨_, containerNew_ok h⟩
  · simp only [selectProcessSandbox, hbackend, selectBackend, podmanNew] at h
    split at h <;> exact ⟨_, containerNew_ok h⟩
  · simp only [selectProcessSandbox, hbackend] at h
    split at h
    · cases h
    · exact ⟨_, containerNew_ok h⟩

/-- **What `make_argv` returns** is the plan of the sandbox that was selected, as C strings. -/
theorem makeArgv_ok (h : makeArgv host request = .ok argv) : ∃ sandbox plan,
    selectProcessSandbox host request.policy = .ok sandbox ∧
      sandbox.check host (sandboxRequest request) = .ok plan ∧ argv = plan.map argBytes := by
  obtain ⟨sandbox, hselect, h⟩ := Res.bind_eq_ok.mp h
  obtain ⟨plan, hplan, h⟩ := Res.bind_eq_ok.mp h
  unfold decisionToArgv at h
  split at h
  · cases h
  · cases h
    exact ⟨sandbox, plan, hselect, hplan, rfl⟩

end SmolClaw.ProcessRunner
