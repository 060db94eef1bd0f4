/-
  The workspace boundary (`src/security/workspace_boundary.c`): canonicalizing a path, resolving it
  against the workspace root, checking it against the deny and allow lists, and opening its parent
  directory.

  1. **Operating system** — `Os` is what the functions ask the system: `realpath`, `$HOME`, `getcwd`,
     `open`, `openat`.  Of `realpath` the model assumes only what its type says: its result is a
     `CanonPath`, an absolute path without empty, `.` or `..` components and without a trailing slash.

  2. **Program** — the functions of the source under their names, on byte strings.

  3. **Two canonicalizers** — `canonicalizeExisting` returns `realpath`'s text, `canonicalizeForWrite`
     the parent's text, a slash, and the leaf.  A `CanonPath` is written with ONE leading slash, but
     below the root directory the second canonicalizer writes TWO (`//etc`), because the root's text
     already ends in the separator.  The four `pathHasPrefix` lemmas of `Security.Containment` compare
     the two shapes; the theorems about the deny list, the workspace root and the opened parent all come
     from these four.
-/
import SmolClaw.Lib.Separated
import SmolClaw.Security.Policy

namespace SmolClaw.Security

open Lib.Separated

/-! ## Canonical paths and the operating system -/

/-- The path separator. -/
abbrev slash : UInt8 := chr '/'

/-- A component of a canonical path. -/
def IsComponent (c : Bytes) : Prop := Plain slash c ∧ c ≠ str "." ∧ c ≠ str ".."

/-- An absolute path with no empty, `.` or `..` components. -/
structure CanonPath where
  comps : List Bytes
  isComponent : ∀ c ∈ comps, IsComponent c

/-- The text of a canonical path: no trailing slash, `/` for the root. -/
def CanonPath.text (p : CanonPath) : Bytes := if p.comps = [] then [slash] else render slash p.comps

/-- The root directory. -/
def CanonPath.root : CanonPath := { comps := [], isComponent := nofun }

/-- `errno` after a failed `openat`, as far as it is told apart. -/
inductive Errno where
  | eloop
  | enotdir
  | other

/-- The system calls and environment the boundary uses.  A descriptor is a `Nat`. -/
structure Os where
  realpath : Bytes → Option CanonPath
  home : Option Bytes
  getcwd : Option Bytes
  openDir : Bytes → Option Nat
  openatDir : Nat → Bytes → Except Errno Nat

/-- The components of a path text. -/
abbrev components (p : Bytes) : List Bytes := pieces slash p

/-! ## The program -/

/-- `PATH_MAX` -/
def pathMax : Nat := 4096

/-- `path_has_embedded_nul` -/
def pathHasEmbeddedNul (path : Bytes) : Bool := path.contains 0

/-- `canonicalize_existing` -/
def canonicalizeExisting (os : Os) (inputPath : Bytes) : Res Bytes :=
  if inputPath = [] ∨ pathMax ≤ inputPath.length ∨ pathHasEmbeddedNul inputPath = true then
    Status.invalidArgument "sc.security.path_invalid"
  else
    match os.realpath inputPath with
    | none => Status.io "sc.security.path_realpath_failed"
    | some resolved => .ok resolved.text

/-- `make_absolute` -/
def makeAbsolute (os : Os) (inputPath : Bytes) : Res Bytes :=
  if inputPath = [] ∨ pathHasEmbeddedNul inputPath = true then
    Status.invalidArgument "sc.security.path_invalid"
  else if inputPath.head? = some slash then .ok inputPath
  else if inputPath.head? = some (chr '~') ∧ (inputPath.length = 1 ∨ inputPath[1]? = some slash) then
    match os.home with
    | none => Status.invalidArgument "sc.security.path_invalid"
    | some home =>
        if home = [] then Status.invalidArgument "sc.security.path_invalid"
        else .ok (home ++ inputPath.drop 1)
  else
    match os.getcwd with
    | none => Status.io "sc.security.getcwd_failed"
    | some cwd => .ok (cwd ++ slash :: inputPath)

/-- `parent_and_leaf` -/
def parentAndLeaf (path : Bytes) : Res (Bytes × Bytes) :=
  match cut slash path with
  | none => Status.invalidArgument "sc.security.path_invalid"
  | some (before, leaf) =>
      if leaf = [] then Status.invalidArgument "sc.security.path_invalid"
      else .ok (if before = [] then [slash] else before, leaf)

/-- `canonicalize_for_write` -/
def canonicalizeForWrite (os : Os) (inputPath : Bytes) : Res Bytes := do
  let absolute ← makeAbsolute os inputPath
  let (parent, leaf) ← parentAndLeaf absolute
  let realParent ← canonicalizeExisting os parent
  if leaf = [] ∨ leaf = str "." ∨ leaf = str ".." then
    Status.securityDenied "sc.security.path_traversal"
  else .ok (realParent ++ slash :: leaf)

/-- The canonical form of an input path: `must_exist ? canonicalize_existing : canonicalize_for_write`. -/
def canonicalizeInput (os : Os) (inputPath : Bytes) (mustExist : Bool) : Res Bytes :=
  if mustExist then canonicalizeExisting os inputPath else canonicalizeForWrite os inputPath

/-- The canonical workspace root `sc_workspace_resolve` compares with; empty when there is none. -/
def resolveRoot (os : Os) (policy : SecurityPolicy) : Res Bytes :=
  if policy.workspaceOnly = true ∨ policy.workspaceRoot ≠ [] then
    canonicalizeExisting os policy.workspaceRoot
  else .ok []

/-- `sc_workspace_resolve` -/
def workspaceResolve (os : Os) (policy : SecurityPolicy) (inputPath : Bytes) (mustExist : Bool) :
    Res Bytes :=
  if inputPath = [] then Status.invalidArgument "sc.security.path_invalid_argument"
  else do
    let root ← resolveRoot os policy
    let resolved ← canonicalizeInput os inputPath mustExist
    if policy.workspaceOnly = true ∧ pathHasPrefix resolved root = false then
      Status.securityDenied "sc.security.path_escape"
    else .ok resolved

/-- The loop over `denied_paths` of `sc_security_validate_path`. -/
def checkDenied (os : Os) (resolved : Bytes) : List Bytes → Res Unit
  | [] => .ok ()
  | item :: rest => do
      let denied ← canonicalizeForWrite os item
      if pathHasPrefix resolved denied then Status.securityDenied "sc.security.path_denied"
      else checkDenied os resolved rest

/-- The loop over `allowed_paths`: every entry must canonicalize, some entry must contain the path. -/
def checkAllowed (os : Os) (resolved : Bytes) : Bool → List Bytes → Res Unit
  | allowed, [] => if allowed then .ok () else Status.securityDenied "sc.security.path_not_allowed"
  | allowed, item :: rest => do
      let allowedPath ← canonicalizeForWrite os item
      checkAllowed os resolved (allowed || pathHasPrefix resolved allowedPath) rest

/-- `sc_security_validate_path` -/
def validatePath (os : Os) (policy : SecurityPolicy) (inputPath : Bytes) (mustExist : Bool) :
    Res Unit := do
  let resolved ← workspaceResolve os policy inputPath mustExist
  checkDenied os resolved policy.deniedPaths
  if policy.allowedPaths = [] then .ok () else checkAllowed os resolved false policy.allowedPaths

/-- The loop of `sc_workspace_open_parent` that walks down one segment at a time. -/
def openSegments (os : Os) (parentFd : Nat) : List Bytes → Res Nat
  | [] => .ok parentFd
  | segment :: rest =>
      if segment = [] ∨ 255 < segment.length then Status.securityDenied "sc.security.path_escape"
      else
        match os.openatDir parentFd segment with
        | .error .other => Status.io "sc.security.path_open_failed"
        | .error _ => Status.securityDenied "sc.security.path_escape"
        | .ok nextFd => openSegments os nextFd rest

/-- The directory `sc_workspace_open_parent` starts from: the workspace root, or `/`. -/
def openRoot (os : Os) (policy : SecurityPolicy) : Res Bytes :=
  if policy.workspaceOnly then canonicalizeExisting os policy.workspaceRoot else .ok [slash]

/-- `sc_workspace_open_parent`: the parent descriptor and the leaf name. -/
def workspaceOpenParent (os : Os) (policy : SecurityPolicy) (inputPath : Bytes) :
    Res (Nat × Bytes) := do
  validatePath os policy inputPath false
  let resolved ← workspaceResolve os policy inputPath false
  let root ← openRoot os policy
  let relativeOffset := if root = [slash] then 1 else root.length + 1
  if pathHasPrefix resolved root = false ∨ resolved.length ≤ relativeOffset then
    Status.securityDenied "sc.security.path_escape"
  else
    let relative := resolved.drop relativeOffset
    -- the directories in front of the leaf, as the loop meets them: each ends at the next slash
    let (segments, leaf) : List Bytes × Bytes :=
      match cut slash relative with
      | none => ([], relative)
      | some (before, after) => (before.splitOn slash, after)
    match os.openDir root with
    | none => Status.io "sc.security.workspace_open_failed"
    | some rootFd => do
        let parentFd ← openSegments os rootFd segments
        .ok (parentFd, leaf)

end SmolClaw.Security
