/-
  What the wrappers make of the plans of the process sandbox (`bubblewrap_check`, `firejail_check` and
  `container_check`, `src/security/`).

  1. **Wrappers** — the option grammars of the programs that are started, and what each makes of a plan
     (`Reading`): the command it runs, the directories of the host that the command may write, and whether the
     command is cut off from the network.

  2. **Plans** — every plan is its options written out, with the command behind them, so they are read as they
     were written (`Grammar.parse_render`), whatever the paths and names in them look like.

  3. **Defects** — the directory of a container is written in front of a colon, and a colon in it moves what
     stands behind; the image stands where an option may stand; a device that is let through is bound like a
     directory; and the network is cut off only if the policy has none of it.

  4. **Result** — `plan_iff`: when a plan means what the policy says.
-/
import SmolClaw.Lib.Options
import SmolClaw.Lib.Separated
import SmolClaw.Tools.ProcessRunner

namespace SmolClaw.ProcessRunner

open Lib.Options

/-! ## Wrappers -/

/-- What the options of a wrapper come to. -/
structure Effects where
  writable : List Bytes := []
  isolated : Bool := false

/-- What a wrapper makes of its arguments. -/
structure Reading extends Effects where
  command : List Bytes

/-- A word that starts with a dash. -/
def dashed (word : Bytes) : Bool := word.head? == some (chr '-')

/-- How many words an option of Bubblewrap takes. -/
def bubblewrapArity (word : Bytes) : Option Nat :=
  if (["--die-with-parent", "--new-session", "--unshare-net"].map str).contains word then some 0
  else if (["--proc", "--dev", "--tmpfs", "--chdir"].map str).contains word then some 1
  else if (["--ro-bind-try", "--bind", "--dev-bind"].map str).contains word then some 2
  else none

/-- Bubblewrap: a path that is bound may be written, unless it is bound for reading. -/
def bubblewrap : Grammar Bytes Effects where
  isOption := dashed
  mark := str "--"
  arity := bubblewrapArity
  effect word values e :=
    if word = str "--unshare-net" then some { e with isolated := true }
    else if word = str "--bind" ∨ word = str "--dev-bind" then
      some { e with writable := e.writable ++ values.take 1 }
    else some e

/-- The switches of Firejail. -/
def firejailSwitches : List Bytes := ["--quiet", "--noprofile", "--private-tmp", "--caps.drop=all",
  "--nonewprivs", "--noroot", "--net=none"].map str

/-- Firejail: the values of its options stand behind an equals sign, and the directory of `--private=` is the
    home of the command. -/
def firejail : Grammar Bytes Effects where
  isOption := dashed
  mark := str "--"
  arity word := if firejailSwitches.contains word ∨ str "--private=" <+: word then some 0 else none
  effect word _ e :=
    if word = str "--net=none" then some { e with isolated := true }
    else if str "--private=" <+: word then
      some { e with writable := e.writable ++ [word.drop (str "--private=").length] }
    else some e

/-- How many words an option of a container runtime takes. -/
def containerArity (word : Bytes) : Option Nat :=
  if (["--rm", "--init", "--pull=never"].map str).contains word then some 0
  else if (["--network", "--memory", "--pids-limit", "--env", "--volume", "--workdir"].map str).contains word
  then some 1
  else none

/-- A volume: host path, container path and mode. -/
def bindVolume (volume : Bytes) (e : Effects) : Option Effects :=
  match volume.splitOn (chr ':') with
  | [source, _, mode] =>
      if mode = str "rw" then some { e with writable := e.writable ++ [source] }
      else if mode = str "ro" then some e
      else none
  | _ => none

/-- Docker, Podman and those that take the same options; a single dash is an operand. -/
def container : Grammar Bytes Effects where
  isOption word := dashed word && word ≠ [chr '-']
  mark := str "--"
  arity := containerArity
  effect word values e :=
    if word = str "--volume" then bindVolume (values.headD []) e
    else if word = str "--network" then
      some (if values = [str "none"] then { e with isolated := true } else e)
    else some e

/-- Behind the name of the program stand its options and the command. -/
def wrapperReads (grammar : Grammar Bytes Effects) (argv : List Bytes) : Option Reading :=
  (grammar.parse {} argv.tail).map fun read => { read.1 with command := read.2 }

/-- Behind `run` stand the options, the image and the command. -/
def containerReads : List Bytes → Option Reading
  | _ :: verb :: words =>
      if verb = str "run" then
        (container.parse {} words).bind fun read =>
          match read.2 with
          | [] => none
          | _ :: command => some { read.1 with command := command }
      else none
  | _ => none

/-- **A plan that means what the policy says**: it runs the command, which may write its working directory and
    nothing else of the host, and is cut off from the network unless it may use all of it. -/
def Means (reading : Option Reading) (request : ProcessRequest) (network : SandboxNetwork) : Prop :=
  ∃ r, reading = some r ∧ r.command = request.executable :: request.args ∧
    (∀ path, path ∈ r.writable ↔ path = request.cwd) ∧ (network ≠ .full → r.isolated = true)

/-- An absolute path. -/
def Absolute (path : Bytes) : Prop := path.head? = some (chr '/')

/-- **A request as it is promised**: the paths are absolute, and no string holds a NUL. -/
structure Sound (request : ProcessRequest) : Prop where
  executable : Absolute request.executable
  cwd : Absolute request.cwd
  noNul : ∀ word ∈ request.cwd :: request.executable :: request.args, (0 : UInt8) ∉ word

variable {host : Host} {policy : SandboxPolicy} {request : ProcessRequest} {r : SandboxRequest}
  {plan argv : List Bytes}

/-! ## Readings -/

theorem Absolute.ne_nil {path : Bytes} (h : Absolute path) : path ≠ [] := by
  rintro rfl
  cases h

/-- The command of a sound request, as C strings. -/
theorem Sound.command (h : Sound request) :
    (originalCommand (sandboxRequest request)).map argBytes = request.executable :: request.args :=
  map_argBytes fun word hword => h.noNul word (List.mem_cons_of_mem _ hword)

theorem Sound.cwd_clean (h : Sound request) : (0 : UInt8) ∉ request.cwd :=
  h.noNul _ List.mem_cons_self

theorem means_iff {reading : Reading} {network : SandboxNetwork} : Means (some reading) request network ↔
    reading.command = request.executable :: request.args ∧
      (∀ path, path ∈ reading.writable ↔ path = request.cwd) ∧
      (network ≠ .full → reading.isolated = true) := by
  constructor
  · rintro ⟨_, hreading, h⟩
    cases hreading
    exact h
  · exact fun h => ⟨reading, rfl, h⟩

theorem not_means_none {network : SandboxNetwork} : ¬ Means none request network := by
  rintro ⟨_, hreading, -⟩
  cases hreading

/-- A network that is cut off only if there is none. -/
theorem isolated_iff (network : SandboxNetwork) :
    (network ≠ .full → decide (network = .none) = true) ↔ network ≠ .allowedDomains := by
  cases network <;> decide

/-! ## Bubblewrap -/

/-- The options of a Bubblewrap plan. -/
def bubblewrapOptions (network : SandboxNetwork) (cwd : Bytes) (devices : List Bytes) :
    List (Bytes × List Bytes) :=
  [(str "--die-with-parent", []), (str "--new-session", [])] ++
    (if network = .none then [(str "--unshare-net", [])] else []) ++
    [(str "--proc", [str "/proc"]), (str "--dev", [str "/dev"]), (str "--tmpfs", [str "/tmp"])] ++
    (["/usr", "/bin", "/lib", "/lib64", "/etc"].map fun path =>
      (str "--ro-bind-try", [str path, str path])) ++
    [(str "--bind", [cwd, cwd]), (str "--chdir", [cwd])] ++
    devices.map fun device => (str "--dev-bind", [device, device])

/-- The devices that are let through, as C strings. -/
def boundDevices (devices : List Bytes) : List Bytes := (devices.filter letsThrough).map argBytes

theorem render_devices (option : Bytes) (devices : List Bytes) :
    render (devices.map fun device => (option, [device, device])) =
      devices.flatMap fun device => [option, device, device] := by
  rw [render, List.flatMap_map]

theorem bubblewrapCheck_ok (hexecutable : r.executable ≠ []) (hcwd : r.cwd ≠ [])
    (hclean : (0 : UInt8) ∉ r.cwd) (h : bubblewrapCheck r = .ok plan) :
    plan.map argBytes = str "/usr/bin/bwrap" ::
      (render (bubblewrapOptions r.network r.cwd (boundDevices r.allowedDevices)) ++
        str "--" :: (originalCommand r).map argBytes) := by
  unfold bubblewrapCheck at h
  rw [if_neg hexecutable, if_neg hcwd] at h
  cases h
  have hfirst : (["/usr/bin/bwrap", "--die-with-parent", "--new-session"].map str).map argBytes =
      str "/usr/bin/bwrap" :: render [(str "--die-with-parent", []), (str "--new-session", [])] := by decide
  have hnetwork : (if r.network = .none then [str "--unshare-net"] else []).map argBytes =
      render (if r.network = .none then [(str "--unshare-net", [])] else []) := by
    split
    · decide
    · rfl
  have hmounts : (["--proc", "/proc", "--dev", "/dev", "--tmpfs", "/tmp"].map str).map argBytes =
      render [(str "--proc", [str "/proc"]), (str "--dev", [str "/dev"]), (str "--tmpfs", [str "/tmp"])] := by
    decide
  have hpaths : (["/usr", "/bin", "/lib", "/lib64", "/etc"].flatMap fun path =>
      ["--ro-bind-try", path, path].map str).map argBytes =
        render (["/usr", "/bin", "/lib", "/lib64", "/etc"].map fun path =>
          (str "--ro-bind-try", [str path, str path])) := by decide
  have hbind : [str "--bind", r.cwd, r.cwd, str "--chdir", r.cwd].map argBytes =
      render [(str "--bind", [r.cwd, r.cwd]), (str "--chdir", [r.cwd])] := by
    have hliterals : argBytes (str "--bind") = str "--bind" ∧ argBytes (str "--chdir") = str "--chdir" := by
      decide
    simp only [List.map_cons, List.map_nil, argBytes_clean hclean, hliterals]
    rfl
  have hdevices : ((r.allowedDevices.filter letsThrough).flatMap fun device =>
      [str "--dev-bind", device, device]).map argBytes =
        render ((boundDevices r.allowedDevices).map fun device => (str "--dev-bind", [device, device])) := by
    have hliteral : argBytes (str "--dev-bind") = str "--dev-bind" := by decide
    rw [render_devices, boundDevices, List.map_flatMap, List.flatMap_map]
    simp only [List.map_cons, List.map_nil, hliteral]
  have hcommand : (str "--" :: originalCommand r).map argBytes =
      str "--" :: (originalCommand r).map argBytes := rfl
  rw [bubblewrapOptions]
  simp only [List.map_append, render_append]
  rw [hfirst, hnetwork, hmounts, hpaths, hbind, hcommand, hdevices]
  simp only [List.cons_append, List.append_assoc]

theorem bubblewrapOptions_known (network : SandboxNetwork) (cwd : Bytes) (devices : List Bytes) :
    (bubblewrapOptions network cwd devices).all bubblewrap.knows = true := by
  have hdevices : (devices.map fun device => (str "--dev-bind", [device, device])).all bubblewrap.knows =
      true := by
    rw [List.all_map, List.all_eq_true]
    exact fun _ _ => rfl
  rw [bubblewrapOptions, List.all_append, hdevices]
  cases network <;> rfl

/-- Devices are bound like directories. -/
theorem devices_effect (devices : List Bytes) : ∀ e : Effects,
    bubblewrap.effects (devices.map fun device => (str "--dev-bind", [device, device])) e =
      some { e with writable := e.writable ++ devices } := by
  induction devices with
  | nil =>
    intro e
    rw [List.append_nil]
    rfl
  | cons device devices ih =>
    intro e
    have hfirst : bubblewrap.effect (str "--dev-bind") [device, device] e =
        some { e with writable := e.writable ++ [device] } := rfl
    rw [List.map_cons, Grammar.effects, List.foldlM_cons, hfirst]
    refine (ih _).trans ?_
    simp only [List.append_assoc, List.singleton_append]

theorem bubblewrapOptions_effect (network : SandboxNetwork) (cwd : Bytes) (devices : List Bytes) :
    bubblewrap.effects (bubblewrapOptions network cwd devices) {} =
      some { writable := cwd :: devices, isolated := decide (network = .none) } := by
  rw [bubblewrapOptions, Grammar.effects_append]
  cases network <;> exact devices_effect devices _

/-- **A plan of Bubblewrap** means what the policy says, if the network is all or nothing and no device but
    the working directory is let through. -/
theorem bubblewrap_means (hsound : Sound request) (h : bubblewrapCheck (sandboxRequest request) = .ok plan) :
    Means (wrapperReads bubblewrap (plan.map argBytes)) request (sandboxRequest request).network ↔
      (sandboxRequest request).network ≠ .allowedDomains ∧
        ∀ device ∈ (sandboxRequest request).allowedDevices, letsThrough device = true →
          argBytes device = request.cwd := by
  rw [bubblewrapCheck_ok hsound.executable.ne_nil hsound.cwd.ne_nil hsound.cwd_clean h, hsound.command]
  change Means (wrapperReads bubblewrap (_ :: (render (bubblewrapOptions _ request.cwd _) ++ _))) _ _ ↔ _
  generalize (sandboxRequest request).network = network
  generalize (sandboxRequest request).allowedDevices = devices
  rw [wrapperReads, List.tail_cons, Grammar.parse_render (bubblewrapOptions_known _ _ _),
    bubblewrapOptions_effect, Option.bind_some, show str "--" = bubblewrap.mark from rfl, Grammar.parse_mark,
    Option.map_some, means_iff, isolated_iff]
  constructor
  · rintro ⟨-, hwritable, hnetwork⟩
    refine ⟨hnetwork, fun device hdevice hthrough => (hwritable (argBytes device)).mp ?_⟩
    refine List.mem_cons_of_mem _ (List.mem_map_of_mem ?_)
    exact List.mem_filter.mpr ⟨hdevice, hthrough⟩
  · rintro ⟨hnetwork, hdevices⟩
    refine ⟨rfl, fun path => ⟨fun hpath => ?_, fun hpath => hpath ▸ List.mem_cons_self⟩, hnetwork⟩
    rcases List.mem_cons.mp hpath with rfl | hbound
    · rfl
    · obtain ⟨device, hdevice, rfl⟩ := List.mem_map.mp hbound
      obtain ⟨hmem, hthrough⟩ := List.mem_filter.mp hdevice
      exact hdevices device hmem hthrough

/-! ## Firejail -/

/-- The options of a Firejail plan. -/
def firejailOptions (network : SandboxNetwork) (cwd : Bytes) : List (Bytes × List Bytes) :=
  (firejailFlags.map fun flag => (flag, [])) ++
    (if network = .none then [(str "--net=none", [])] else []) ++ [(str "--private=" ++ cwd, [])]

theorem firejailCheck_ok (hexecutable : r.executable ≠ []) (hcwd : r.cwd ≠ [])
    (hclean : (0 : UInt8) ∉ r.cwd) (h : firejailCheck r = .ok plan) :
    plan.map argBytes = str "/usr/bin/firejail" ::
      (render (firejailOptions r.network r.cwd) ++ (originalCommand r).map argBytes) := by
  unfold firejailCheck at h
  rw [if_neg hexecutable, if_neg hcwd] at h
  cases h
  have hfirst : (str "/usr/bin/firejail" :: firejailFlags).map argBytes =
      str "/usr/bin/firejail" :: render (firejailFlags.map fun flag => (flag, [])) := by decide
  have hnetwork : (if r.network = .none then [str "--net=none"] else []).map argBytes =
      render (if r.network = .none then [(str "--net=none", [])] else []) := by
    split
    · decide
    · rfl
  have hhome : [str "--private=" ++ r.cwd].map argBytes =
      render [(str "--private=" ++ r.cwd, [])] := by
    refine map_argBytes fun word hword => ?_
    rw [List.mem_singleton.mp hword, List.mem_append, not_or]
    exact ⟨by decide, hclean⟩
  rw [firejailOptions]
  simp only [List.map_append, render_append]
  rw [hfirst, hnetwork, hhome]
  simp only [List.cons_append, List.append_assoc]

/-- The option for the home is none of the others. -/
theorem private_ne {cwd word : Bytes} (h : ¬ str "--private=" <+: word) : str "--private=" ++ cwd ≠ word :=
  fun hsame => h ⟨cwd, hsame⟩

theorem firejailOptions_known (network : SandboxNetwork) (cwd : Bytes) :
    (firejailOptions network cwd).all firejail.knows = true := by
  have hhome : firejail.knows (str "--private=" ++ cwd, []) = true := by
    have harity : firejail.arity (str "--private=" ++ cwd) = some 0 := by
      dsimp only [firejail]
      rw [if_pos (Or.inr (List.prefix_append (str "--private=") cwd))]
    have hmark : str "--private=" ++ cwd ≠ firejail.mark := private_ne (by decide)
    rw [Grammar.knows, harity, decide_eq_true hmark]
    rfl
  rw [firejailOptions, List.all_append, List.all_cons, hhome]
  cases network <;> rfl

theorem firejailOptions_effect (network : SandboxNetwork) (cwd : Bytes) :
    firejail.effects (firejailOptions network cwd) {} =
      some { writable := [cwd], isolated := decide (network = .none) } := by
  have hhome : ∀ e : Effects, firejail.effects [(str "--private=" ++ cwd, [])] e =
      some { e with writable := e.writable ++ [cwd] } := by
    intro e
    have hdrop : (str "--private=" ++ cwd).drop (str "--private=").length = cwd := List.drop_left
    have hother : str "--private=" ++ cwd ≠ str "--net=none" := private_ne (by decide)
    have heffect : firejail.effect (str "--private=" ++ cwd) [] e =
        some { e with writable := e.writable ++ [cwd] } := by
      dsimp only [firejail]
      rw [if_neg hother, if_pos (List.prefix_append _ cwd), hdrop]
    rw [Grammar.effects, List.foldlM_cons, heffect]
    rfl
  rw [firejailOptions, Grammar.effects_append]
  cases network <;> exact hhome _

/-- **A plan of Firejail** means what the policy says, if the network is all or nothing. -/
theorem firejail_means (hsound : Sound request) (h : firejailCheck (sandboxRequest request) = .ok plan) :
    Means (wrapperReads firejail (plan.map argBytes)) request (sandboxRequest request).network ↔
      (sandboxRequest request).network ≠ .allowedDomains := by
  rw [firejailCheck_ok hsound.executable.ne_nil hsound.cwd.ne_nil hsound.cwd_clean h, hsound.command]
  generalize (sandboxRequest request).network = network
  -- an absolute path is no option, so it ends them
  have hoperand : firejail.isOption request.executable = false := by
    show (request.executable.head? == some (chr '-')) = false
    rw [hsound.executable]
    decide
  have hmark : request.executable ≠ firejail.mark := by
    intro hsame
    have hhead : request.executable.head? = some (chr '/') := hsound.executable
    rw [hsame] at hhead
    exact absurd hhead (by decide)
  rw [wrapperReads, List.tail_cons, Grammar.parse_render (firejailOptions_known _ _), firejailOptions_effect,
    Option.bind_some, Grammar.parse_operand hmark hoperand, Option.map_some, means_iff, isolated_iff]
  constructor
  · exact fun h => h.2.2
  · exact fun hnetwork => ⟨rfl, fun path => List.mem_singleton, hnetwork⟩

/-! ## Containers -/

/-- Behind any text the mount point and the mode are two parts more. -/
theorem splitOn_mount : ∀ (n : Nat) (path : Bytes), path.length < n →
    ∃ source target mode rest, (path ++ str ":/workspace:rw").splitOn (chr ':') =
      source :: target :: mode :: rest := by
  intro n
  induction n with
  | zero => exact fun _ h => absurd h (Nat.not_lt_zero _)
  | succ n ih =>
    intro path hlength
    by_cases hcolon : chr ':' ∈ path
    · obtain ⟨source, left, hpath, hsource⟩ := List.eq_append_cons_of_mem hcolon
      rw [hpath, List.length_append, List.length_cons] at hlength
      obtain ⟨target, mode, last, rest, hrest⟩ := ih left (by omega)
      refine ⟨source, target, mode, last :: rest, ?_⟩
      rw [hpath, List.append_assoc, List.cons_append, List.splitOn_append_cons_self_of_not_mem hsource, hrest]
    · exact ⟨path, _, _, [], List.splitOn_append_cons_self_of_not_mem hcolon (str "/workspace:rw")⟩

/-- **A volume is read as it was written** exactly if the path holds no colon. -/
theorem bindVolume_mount (cwd : Bytes) (e : Effects) : bindVolume (cwd ++ str ":/workspace:rw") e =
    if chr ':' ∈ cwd then none else some { e with writable := e.writable ++ [cwd] } := by
  unfold bindVolume
  by_cases hcolon : chr ':' ∈ cwd
  · obtain ⟨source, left, hpath, hsource⟩ := List.eq_append_cons_of_mem hcolon
    obtain ⟨target, mode, last, rest, hrest⟩ := splitOn_mount (left.length + 1) left (Nat.lt_succ_self _)
    rw [if_pos hcolon, hpath, List.append_assoc, List.cons_append,
      List.splitOn_append_cons_self_of_not_mem hsource, hrest]
  · have hsplit : (cwd ++ str ":/workspace:rw").splitOn (chr ':') = [cwd, str "/workspace", str "rw"] :=
      List.splitOn_append_cons_self_of_not_mem hcolon (str "/workspace:rw")
    rw [if_neg hcolon, hsplit]
    rfl

/-- The options of a container in front of its volume. -/
def limitOptions (r : SandboxRequest) : List (Bytes × List Bytes) :=
  (["--rm", "--init", "--pull=never"].map fun flag => (str flag, [])) ++
    (if r.network = .none then [(str "--network", [str "none"])] else []) ++
    (if 0 < r.memoryLimitMb then
      [(str "--memory", [argBytes (decimalInt r.memoryLimitMb.toInt ++ str "m")])] else []) ++
    (if 0 < r.maxSubprocesses then
      [(str "--pids-limit", [argBytes (decimalInt r.maxSubprocesses.toInt)])] else []) ++
    (r.envPassthrough.filter (· ≠ [])).map fun name => (str "--env", [argBytes name])

/-- All options of a container. -/
def containerOptions (r : SandboxRequest) : List (Bytes × List Bytes) :=
  limitOptions r ++ [(str "--volume", [r.cwd ++ str ":/workspace:rw"]), (str "--workdir", [str "/workspace"])]

theorem containerCheck_ok {path : Bytes} (hexecutable : r.executable ≠ []) (hcwd : r.cwd ≠ [])
    (hclean : (0 : UInt8) ∉ r.cwd) (h : containerCheck path r = .ok plan) :
    plan.map argBytes = argBytes path :: str "run" ::
      (render (containerOptions r) ++
        argBytes (imageOf r.imageName) :: (originalCommand r).map argBytes) := by
  unfold containerCheck at h
  rw [if_neg hexecutable, if_neg hcwd] at h
  cases h
  have hfirst : (path :: ["run", "--rm", "--init", "--pull=never"].map str).map argBytes =
      argBytes path :: str "run" ::
        render (["--rm", "--init", "--pull=never"].map fun flag => (str flag, [])) :=
    congrArg (argBytes path :: ·) (by decide)
  have hnetwork : (if r.network = .none then ["--network", "none"].map str else []).map argBytes =
      render (if r.network = .none then [(str "--network", [str "none"])] else []) := by
    split
    · decide
    · rfl
  have hmemory : (if 0 < r.memoryLimitMb then
      [str "--memory", decimalInt r.memoryLimitMb.toInt ++ str "m"] else []).map argBytes =
        render (if 0 < r.memoryLimitMb then
          [(str "--memory", [argBytes (decimalInt r.memoryLimitMb.toInt ++ str "m")])] else []) := by
    split
    · rfl
    · rfl
  have hpids : (if 0 < r.maxSubprocesses then
      [str "--pids-limit", decimalInt r.maxSubprocesses.toInt] else []).map argBytes =
        render (if 0 < r.maxSubprocesses then
          [(str "--pids-limit", [argBytes (decimalInt r.maxSubprocesses.toInt)])] else []) := by
    split
    · rfl
    · rfl
  have henv : ((r.envPassthrough.filter (· ≠ [])).flatMap fun name => [str "--env", name]).map argBytes =
      render ((r.envPassthrough.filter (· ≠ [])).map fun name => (str "--env", [argBytes name])) := by
    have hliteral : argBytes (str "--env") = str "--env" := by decide
    rw [render, List.flatMap_map, List.map_flatMap]
    simp only [List.map_cons, List.map_nil, hliteral]
  have hvolume : [str "--volume", r.cwd ++ str ":/workspace:rw", str "--workdir", str "/workspace",
      imageOf r.imageName].map argBytes =
        render [(str "--volume", [r.cwd ++ str ":/workspace:rw"]), (str "--workdir", [str "/workspace"])] ++
          [argBytes (imageOf r.imageName)] := by
    have hmount : argBytes (r.cwd ++ str ":/workspace:rw") = r.cwd ++ str ":/workspace:rw" := by
      refine argBytes_clean ?_
      rw [List.mem_append, not_or]
      exact ⟨hclean, by decide⟩
    have hliterals : argBytes (str "--volume") = str "--volume" ∧
        argBytes (str "--workdir") = str "--workdir" ∧ argBytes (str "/workspace") = str "/workspace" := by
      decide
    simp only [List.map_cons, List.map_nil, hmount, hliterals]
    rfl
  rw [containerOptions, limitOptions]
  simp only [List.map_append, render_append]
  rw [hfirst, hnetwork, hmemory, hpids, henv, hvolume]
  simp only [List.cons_append, List.append_assoc, List.nil_append]

theorem containerOptions_known (r : SandboxRequest) :
    (containerOptions r).all container.knows = true := by
  have hnetwork : (if r.network = .none then [(str "--network", [str "none"])] else []).all container.knows =
      true := by
    split <;> rfl
  have hmemory : (if 0 < r.memoryLimitMb then
      [(str "--memory", [argBytes (decimalInt r.memoryLimitMb.toInt ++ str "m")])] else []).all
        container.knows = true := by
    split <;> rfl
  have hpids : (if 0 < r.maxSubprocesses then
      [(str "--pids-limit", [argBytes (decimalInt r.maxSubprocesses.toInt)])] else []).all container.knows =
        true := by
    split <;> rfl
  have henv : ((r.envPassthrough.filter (· ≠ [])).map fun name => (str "--env", [argBytes name])).all
      container.knows = true := by
    rw [List.all_map, List.all_eq_true]
    exact fun _ _ => rfl
  rw [containerOptions, limitOptions]
  simp only [List.all_append, hnetwork, hmemory, hpids, henv, Bool.and_true]
  rfl

/-- Names of the environment have no effect on what is isolated. -/
theorem env_effect (names : List Bytes) (e : Effects) :
    container.effects (names.map fun name => (str "--env", [argBytes name])) e = some e := by
  induction names with
  | nil => rfl
  | cons name names ih =>
    have hfirst : container.effect (str "--env") [argBytes name] e = some e := rfl
    rw [List.map_cons, Grammar.effects, List.foldlM_cons, hfirst]
    exact ih

theorem limitOptions_effect (r : SandboxRequest) :
    container.effects (limitOptions r) {} = some { isolated := decide (r.network = .none) } := by
  rw [limitOptions, Grammar.effects_append, Grammar.effects_append, Grammar.effects_append,
    Grammar.effects_append]
  have hnetwork : container.effects (if r.network = .none then [(str "--network", [str "none"])] else []) {} =
      some { isolated := decide (r.network = .none) } := by
    cases r.network <;> rfl
  have hmemory : ∀ e, container.effects (if 0 < r.memoryLimitMb then
      [(str "--memory", [argBytes (decimalInt r.memoryLimitMb.toInt ++ str "m")])] else []) e = some e := by
    intro e
    split <;> rfl
  have hpids : ∀ e, container.effects (if 0 < r.maxSubprocesses then
      [(str "--pids-limit", [argBytes (decimalInt r.maxSubprocesses.toInt)])] else []) e = some e := by
    intro e
    split <;> rfl
  have hflags : container.effects (["--rm", "--init", "--pull=never"].map fun flag => (str flag, [])) {} =
      some {} := rfl
  rw [hflags, Option.bind_some, hnetwork, Option.bind_some, hmemory, Option.bind_some, hpids,
    Option.bind_some, env_effect]

theorem containerOptions_effect (r : SandboxRequest) :
    container.effects (containerOptions r) {} = if chr ':' ∈ r.cwd then none else
      some { writable := [r.cwd], isolated := decide (r.network = .none) } := by
  have hvolume : container.effect (str "--volume") [r.cwd ++ str ":/workspace:rw"]
      { isolated := decide (r.network = .none) } =
        bindVolume (r.cwd ++ str ":/workspace:rw") { isolated := decide (r.network = .none) } := rfl
  rw [containerOptions, Grammar.effects_append, limitOptions_effect, Option.bind_some, Grammar.effects,
    List.foldlM_cons, hvolume, bindVolume_mount]
  split
  · rfl
  · rfl

/-- **A plan of a container** means what the policy says, if the network is all or nothing, the directory
    holds no colon and the image is no option. -/
theorem container_means {path : Bytes} (hsound : Sound request)
    (h : containerCheck path (sandboxRequest request) = .ok plan) :
    Means (containerReads (plan.map argBytes)) request (sandboxRequest request).network ↔
      (sandboxRequest request).network ≠ .allowedDomains ∧ chr ':' ∉ request.cwd ∧
        container.isOption (argBytes (imageOf (sandboxRequest request).imageName)) = false := by
  rw [containerCheck_ok hsound.executable.ne_nil hsound.cwd.ne_nil hsound.cwd_clean h, hsound.command]
  generalize argBytes (imageOf (sandboxRequest request).imageName) = image
  have heffect := containerOptions_effect (sandboxRequest request)
  rw [show (sandboxRequest request).cwd = request.cwd from rfl] at heffect
  rw [containerReads, if_pos rfl, Grammar.parse_render (containerOptions_known _), heffect]
  by_cases hcolon : chr ':' ∈ request.cwd
  · rw [if_pos hcolon]
    exact iff_of_false not_means_none fun hall => hall.2.1 hcolon
  rw [if_neg hcolon, Option.bind_some]
  cases himage : container.isOption image with
  | false =>
    have hmark : image ≠ container.mark := by
      rintro rfl
      cases himage
    rw [Grammar.parse_operand hmark himage, Option.bind_some, means_iff, isolated_iff]
    constructor
    · exact fun hmeans => ⟨hmeans.2.2, hcolon, rfl⟩
    · exact fun hall => ⟨rfl, fun path => List.mem_singleton, hall.1⟩
  | true =>
    -- an image that is an option leaves a word less than the command has
    refine iff_of_false ?_ fun hall => Bool.noConfusion hall.2.2
    rintro ⟨reading, hreading, hcommand, -⟩
    obtain ⟨read, hparse, hread⟩ := Option.bind_eq_some_iff.mp hreading
    have hshort := Grammar.parse_length (Or.inr himage) hparse
    obtain ⟨effects, left⟩ := read
    cases left with
    | nil => cases hread
    | cons operand command =>
      cases hread
      rw [List.length_cons, ← hcommand] at hshort
      exact absurd hshort (Nat.not_succ_le_self _)

/-! ## All plans -/

/-- **When a plan means what the policy says**, for every sandbox that writes its options down: the network is
    all or nothing, and what stands in the plan is read as what it is meant for. -/
theorem plan_iff (host : Host) (hpolicy : request.policy = some policy) (hsound : Sound request)
    (h : makeArgv host request = .ok argv) :
    (policy.backend = .bubblewrap →
        (Means (wrapperReads bubblewrap argv) request policy.network ↔
          policy.network ≠ .allowedDomains ∧
            ∀ device ∈ policy.allowDevices, letsThrough device = true → argBytes device = request.cwd)) ∧
      (policy.backend = .firejail →
        (Means (wrapperReads firejail argv) request policy.network ↔ policy.network ≠ .allowedDomains)) ∧
      (policy.backend ∈ [.docker, .podman, .container] →
        (Means (containerReads argv) request policy.network ↔
          policy.network ≠ .allowedDomains ∧ chr ':' ∉ request.cwd ∧
            container.isOption (argBytes (imageOf policy.imageName)) = false)) := by
  obtain ⟨sandbox, plan, hselect, hplan, rfl⟩ := makeArgv_ok h
  rw [hpolicy] at hselect
  have hnetwork : (sandboxRequest request).network = policy.network := by
    show (request.policy.map (·.network)).getD .full = _
    rw [hpolicy]
    rfl
  have hdevices : (sandboxRequest request).allowedDevices = policy.allowDevices := by
    show (request.policy.map (·.allowDevices)).getD [] = _
    rw [hpolicy]
    rfl
  have himage : (sandboxRequest request).imageName = policy.imageName := by
    show (request.policy.map (·.imageName)).getD [] = _
    rw [hpolicy]
    rfl
  refine ⟨fun hbackend => ?_, fun hbackend => ?_, fun hbackend => ?_⟩
  · rw [select_bubblewrap hbackend hselect] at hplan
    rw [← hnetwork, ← hdevices]
    exact bubblewrap_means hsound hplan
  · rw [select_firejail hbackend hselect] at hplan
    rw [← hnetwork]
    exact firejail_means hsound hplan
  · obtain ⟨path, rfl⟩ := select_container hbackend hselect
    rw [← hnetwork, ← himage]
    exact container_means hsound hplan

/-- A machine that has everything. -/
def everyHost : Host := { executable := fun _ => true, landlock := true }

/-- A listing in a container without a network. -/
def listing : ProcessRequest where
  policy := some { backend := .docker, network := .none }
  executable := str "/bin/ls"
  args := [str "-l"]
  cwd := str "/work"

/-- A listing of a directory that has a colon in its name. -/
def colonListing : ProcessRequest := { listing with cwd := str "/work:b" }

theorem listing_sound : Sound listing where
  executable := rfl
  cwd := rfl
  noNul := by
    simp only [List.forall_mem_cons, List.not_mem_nil, false_implies, implies_true, and_true, listing]
    decide

theorem colonListing_sound : Sound colonListing where
  executable := rfl
  cwd := rfl
  noNul := by
    simp only [List.forall_mem_cons, List.not_mem_nil, false_implies, implies_true, and_true, colonListing,
      listing]
    decide

/-- That listing runs as it was asked for. -/
theorem listing_means : ∃ argv, makeArgv everyHost listing = .ok argv ∧
    Means (containerReads argv) listing .none :=
  ⟨_, rfl, ((plan_iff everyHost rfl listing_sound rfl).2.2 (by decide)).mpr ⟨by decide, by decide, by decide⟩⟩

/-- **A colon in the directory changes what is bound**: the volume is no longer one. -/
theorem colon_moves : ¬ ∀ (host : Host) (request : ProcessRequest) (policy : SandboxPolicy)
    (argv : List Bytes), request.policy = some policy → Sound request → makeArgv host request = .ok argv →
      (policy.backend = .bubblewrap → Means (wrapperReads bubblewrap argv) request policy.network) ∧
        (policy.backend = .firejail → Means (wrapperReads firejail argv) request policy.network) ∧
        (policy.backend ∈ [.docker, .podman, .container] →
          Means (containerReads argv) request policy.network) := by
  intro h
  obtain ⟨argv, hargv⟩ : ∃ argv, makeArgv everyHost colonListing = .ok argv := ⟨_, rfl⟩
  have hmeans := (h everyHost colonListing _ argv rfl colonListing_sound hargv).2.2 (by decide)
  obtain ⟨sandbox, plan, hselect, hplan, rfl⟩ := makeArgv_ok hargv
  obtain ⟨path, rfl⟩ := @select_container everyHost { backend := .docker, network := .none } sandbox
    (by decide) hselect
  have hcolon : chr ':' ∉ str "/work:b" := ((container_means colonListing_sound hplan).mp hmeans).2.1
  exact absurd hcolon (by decide)

end SmolClaw.ProcessRunner
