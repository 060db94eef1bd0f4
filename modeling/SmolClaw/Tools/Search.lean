/-
  The recursive searches `content_search` and `glob_search` (`src/tools/search_tools.c`) against the
  deny list.

  1. **Program** — `search_invoke` validates and resolves the search root, then `walk_search` lists
     directories, recurses into subdirectories (32 levels at most, symbolic links are never followed)
     and looks into every regular file: content search opens it, glob search matches its path.  No
     path below the root is validated again.

  2. **Specification** — no file is opened or reported whose canonical path
     `sc_security_validate_path` refuses as `sc.security.path_denied`.

  3. **Result** — `searchRespects_iff`: over all queries and patterns that holds exactly when no file
     the tree lists is denied, and it does hold when no deny entry lies strictly inside the root.

  The file system is a parameter (`Fs`, by path text); it does not change during a walk.
-/
import Mathlib.Data.List.Infix
import SmolClaw.Security.Containment

namespace SmolClaw.Search

open SmolClaw.Security Lib.Separated

/-! ## The file system -/

/-- `st_mode`, as far as it is told apart. -/
inductive FileKind where
  | directory
  | regular
  | other
  deriving DecidableEq

/-- An opened file: its bytes, and whether reading ends in an error (`ferror`). -/
structure FileData where
  content : Bytes
  readError : Bool

/-- The calls the walk makes.  The names of a directory come in the order of `readdir`, `.` and `..`
    included; they are C strings. -/
structure Fs where
  opendir : Bytes → Option (List Bytes)
  closedir : Bytes → Bool
  stat : Bytes → Option FileKind
  lstat : Bytes → Option FileKind
  fopen : Bytes → Option FileData
  name_cstr : ∀ dir names, opendir dir = some names → ∀ name ∈ names, 0 ∉ name

/-! ## The program -/

/-- `search_kind` -/
inductive SearchKind where
  | content
  | glob
  deriving DecidableEq

/-- What a walk has done: the match counter, the paths appended to the result text, and (for the
    specification only) the files it opened. -/
structure WalkState where
  matchCount : Nat := 0
  reported : List Bytes := []
  opened : List Bytes := []

/-- The result text: `append_match` writes a path and a line end. -/
def WalkState.text (st : WalkState) : Bytes := st.reported.flatMap fun path => path ++ [chr '\n']

/-- One `fgets` into a buffer of 1024 bytes: up to a line end, at most 1023 bytes. -/
def fgetsChunk (content : Bytes) : Bytes :=
  let line := content.takeWhile (· != chr '\n')
  (content.take (line.length + 1)).take 1023

/-- The reading loop of `file_contains`: `strstr` in one chunk after the other, each cut at its first
    NUL.  `turns` bounds the chunks. -/
def chunksContain (query : Bytes) : Nat → Bytes → Bool
  | 0, _ => false
  | turns + 1, content =>
      if content = [] then false
      else if query <:+: (fgetsChunk content).takeWhile (· != 0) then true
      else chunksContain query turns (content.drop (fgetsChunk content).length)

/-- `*match_count += 1; append_match(builder, path)` when the file matched -/
def addMatch (matched : Bool) (path : Bytes) (st : WalkState) : WalkState :=
  if matched then
    { st with matchCount := st.matchCount + 1, reported := st.reported ++ [path] }
  else st

/-- `file_contains`, and what the walk does with its answer -/
def visitContent (fs : Fs) (query path : Bytes) (st : WalkState) : WalkState × Res Unit :=
  if query = [] then (st, Status.invalidArgument "sc.search_tool.query_invalid")
  else if query.contains 0 then (st, Status.invalidArgument "sc.search_tool.query_invalid_nul")
  else
    match fs.fopen path with
    | none => (st, Status.io "sc.search_tool.open_failed")
    | some file =>
        let st := { st with opened := st.opened ++ [path] }
        let found := chunksContain query file.content.length file.content
        if !found ∧ file.readError then (st, Status.io "sc.search_tool.read_failed")
        else (addMatch found path st, .ok ())

/-- `glob_matches`, and what the walk does with its answer; `fnmatch` is the library's, with no
    flags -/
def visitGlob (fnmatch : Bytes → Bytes → Bool) (pattern path : Bytes) (st : WalkState) :
    WalkState × Res Unit :=
  if pattern = [] then (st, Status.invalidArgument "sc.search_tool.pattern_invalid")
  else if pattern.contains 0 then (st, Status.invalidArgument "sc.search_tool.pattern_invalid_nul")
  else (addMatch (fnmatch pattern path) path st, .ok ())

/-- What the walk does at a regular file. -/
def visitFile (fs : Fs) (fnmatch : Bytes → Bytes → Bool) (kind : SearchKind) (query : Bytes) :
    Bytes → WalkState → WalkState × Res Unit :=
  match kind with
  | .content => visitContent fs query
  | .glob => visitGlob fnmatch query

/-- `join_path` -/
def joinPath (parent child : Bytes) : Bytes := parent ++ chr '/' :: child

/-- The entries `.` and `..`, which the loop skips. -/
def isDots (name : Bytes) : Bool := name == str "." || name == str ".."

section Walk

variable (fs : Fs) (visit : Bytes → WalkState → WalkState × Res Unit)

/-- The `readdir` loop of `walk_search`; `walk` is the recursive call. -/
def walkEntries (walk : Bytes → WalkState → WalkState × Res Unit) (root : Bytes) :
    List Bytes → WalkState → WalkState × Res Unit
  | [], st => (st, .ok ())
  | name :: names, st =>
      if isDots name then walkEntries walk root names st
      else
        let (st, status) :=
          match fs.lstat (joinPath root name) with
          | some .directory => walk (joinPath root name) st
          | some .regular => visit (joinPath root name) st
          | _ => (st, .ok ())
        match status with
        | .ok () => walkEntries walk root names st
        | .error e => (st, .error e)

/-- `walk_search`, with the number of levels that may still be entered: it refuses at
    `depth > 32`. -/
def walkSearch : Nat → Bytes → WalkState → WalkState × Res Unit
  | 0, _, st => (st, Status.invalidArgument "sc.search_tool.max_depth")
  | levels + 1, root, st =>
      if 1024 ≤ st.matchCount then (st, Status.invalidArgument "sc.search_tool.max_matches")
      else if 4096 ≤ root.length then (st, Status.invalidArgument "sc.search_tool.path_too_long")
      else
        match fs.opendir root with
        | none =>
            match fs.stat root with
            | none => (st, Status.io "sc.search_tool.stat_failed")
            | some .regular => visit root st
            | some _ => (st, .ok ())
        | some names =>
            match walkEntries fs visit (walkSearch levels) root names st with
            | (st, .error e) => (st, .error e)
            | (st, .ok ()) =>
                if fs.closedir root then (st, .ok ())
                else (st, Status.io "sc.search_tool.close_failed")

end Walk

/-- The walk `search_invoke` makes from its resolved root. -/
def search (fs : Fs) (fnmatch : Bytes → Bytes → Bool) (kind : SearchKind) (query root : Bytes) :
    WalkState × Res Unit :=
  walkSearch fs (visitFile fs fnmatch kind query) 33 root {}

/-! ## The tree -/

section Tree

variable (fs : Fs)

/-- Every entry of a directory can be listed to its end. -/
def entriesComplete (complete : Bytes → Bool) (root : Bytes) (names : List Bytes) : Bool :=
  names.all fun name =>
    isDots name || fs.lstat (joinPath root name) != some .directory || complete (joinPath root name)

/-- The tree below `root` can be listed to its end: `levels` bounds its depth, 4095 bytes its
    directories' paths, and no directory fails. -/
def treeComplete : Nat → Bytes → Bool
  | 0, _ => false
  | levels + 1, root =>
      root.length < 4096 &&
        match fs.opendir root with
        | none => (fs.stat root).isSome
        | some names => entriesComplete fs (treeComplete levels) root names && fs.closedir root

/-- The regular files of a directory's entries, up to the first subdirectory that cannot be listed
    to its end. -/
def entriesFiles (files : Bytes → List Bytes) (complete : Bytes → Bool) (root : Bytes) :
    List Bytes → List Bytes
  | [] => []
  | name :: names =>
      if isDots name then entriesFiles files complete root names
      else
        match fs.lstat (joinPath root name) with
        | some .directory =>
            files (joinPath root name) ++
              if complete (joinPath root name) then entriesFiles files complete root names else []
        | some .regular => joinPath root name :: entriesFiles files complete root names
        | _ => entriesFiles files complete root names

/-- **The files of a tree**, in the order they are listed, up to the first directory that cannot be
    listed. -/
def treeFiles : Nat → Bytes → List Bytes
  | 0, _ => []
  | levels + 1, root =>
      if 4096 ≤ root.length then []
      else
        match fs.opendir root with
        | none => if fs.stat root = some .regular then [root] else []
        | some names => entriesFiles fs (treeFiles levels) (treeComplete fs levels) root names

end Tree

/-! ## A walk touches only files of the tree -/

/-- The files a walk opened or reported. -/
def WalkState.touched (st : WalkState) : List Bytes := st.opened ++ st.reported

theorem mem_touched_addMatch {matched : Bool} {path f : Bytes} {st : WalkState}
    (h : f ∈ (addMatch matched path st).touched) : f ∈ st.touched ∨ f = path := by
  cases matched with
  | false => exact Or.inl h
  | true =>
    have h' : f ∈ st.opened ++ (st.reported ++ [path]) := h
    rw [← List.append_assoc, List.mem_append, List.mem_singleton] at h'
    exact h'

/-- A visit touches at most the file it visits. -/
theorem mem_touched_visitFile {fs : Fs} {fnmatch : Bytes → Bytes → Bool} {kind : SearchKind}
    {query path f : Bytes} {st : WalkState}
    (h : f ∈ (visitFile fs fnmatch kind query path st).1.touched) :
    f ∈ st.touched ∨ f = path := by
  cases kind with
  | glob =>
    simp only [visitFile, visitGlob] at h
    split at h
    · exact Or.inl h
    · split at h
      · exact Or.inl h
      · exact mem_touched_addMatch h
  | content =>
    simp only [visitFile, visitContent] at h
    split at h
    · exact Or.inl h
    · split at h
      · exact Or.inl h
      · split at h
        · exact Or.inl h
        -- the file was opened, and may be reported on top
        · have hopen : f ∈ (WalkState.touched { st with opened := st.opened ++ [path] }) →
              f ∈ st.touched ∨ f = path := by
            simp only [WalkState.touched, List.mem_append, List.mem_singleton]
            tauto
          split at h
          · exact hopen h
          · rcases mem_touched_addMatch h with h | h
            · exact hopen h
            · exact Or.inr h

section Bounds

variable {fs : Fs} {visit : Bytes → WalkState → WalkState × Res Unit}

/-- What two calls in a row touch. -/
theorem mem_touched_trans {st st' : WalkState} {new more : List Bytes} {f : Bytes}
    (hnew : ∀ f ∈ st'.touched, f ∈ st.touched ∨ f ∈ new) (h : f ∈ st'.touched ∨ f ∈ more) :
    f ∈ st.touched ∨ f ∈ new ++ more := by
  rw [List.mem_append]
  rcases h with h | h
  · exact (hnew f h).imp id Or.inl
  · exact Or.inr (Or.inr h)

/-- One directory: what holds of the recursive call holds of the loop over its entries. -/
theorem walkEntries_touched {walk : Bytes → WalkState → WalkState × Res Unit}
    {files : Bytes → List Bytes} {complete : Bytes → Bool}
    (hvisit : ∀ path st f, f ∈ (visit path st).1.touched → f ∈ st.touched ∨ f = path)
    (hwalk : ∀ path st f, f ∈ (walk path st).1.touched → f ∈ st.touched ∨ f ∈ files path)
    (hdone : ∀ path st, (walk path st).2 = .ok () → complete path = true) (root : Bytes) :
    ∀ (names : List Bytes) (st : WalkState),
      (∀ f ∈ (walkEntries fs visit walk root names st).1.touched,
        f ∈ st.touched ∨ f ∈ entriesFiles fs files complete root names) ∧
      ((walkEntries fs visit walk root names st).2 = .ok () →
        entriesComplete fs complete root names = true) := by
  intro names
  induction names with
  | nil => intro st; exact ⟨fun f hf => Or.inl hf, fun _ => rfl⟩
  | cons name names ih =>
    intro st
    rw [walkEntries, entriesFiles, entriesComplete, List.all_cons, ← entriesComplete]
    by_cases hdots : isDots name = true
    · simpa [hdots] using ih st
    · rw [if_neg hdots, if_neg hdots]
      simp only [hdots, Bool.false_or]
      cases hk : fs.lstat (joinPath root name) with
      | none => simpa using ih st
      | some kind =>
        cases kind with
        | other => simpa using ih st
        | regular =>
          have hv : ∀ f ∈ (visit (joinPath root name) st).1.touched,
              f ∈ st.touched ∨ f ∈ [joinPath root name] := by
            intro f hf
            exact (hvisit (joinPath root name) st f hf).imp id List.mem_singleton.mpr
          generalize visit (joinPath root name) st = r at hv
          obtain ⟨st', status⟩ := r
          cases status with
          | error e =>
            -- the loop stops here: the rest of the listing is not touched
            refine ⟨fun f hf => (hv f hf).imp id ?_, fun h => nomatch h⟩
            exact List.mem_append_left (entriesFiles fs files complete root names)
          | ok u =>
            refine ⟨fun f hf => ?_, fun h => by simpa using (ih st').2 h⟩
            exact mem_touched_trans hv ((ih st').1 f hf)
        | directory =>
          have hw := hwalk (joinPath root name) st
          have hd := hdone (joinPath root name) st
          generalize walk (joinPath root name) st = r at hw hd
          obtain ⟨st', status⟩ := r
          cases status with
          | error e =>
            exact ⟨fun f hf => (hw f hf).imp id (List.mem_append_left _), fun h => nomatch h⟩
          | ok u =>
            -- a walk that succeeded listed its subtree to the end, so the listing goes on as well
            have hcomplete := hd rfl
            refine ⟨fun f hf => ?_, fun h => by simpa [hcomplete] using (ih st').2 h⟩
            rw [if_pos hcomplete]
            exact mem_touched_trans hw ((ih st').1 f hf)

/-- **A walk touches only files of the tree**, and when it succeeds the tree was listed to its
    end. -/
theorem walkSearch_touched
    (hvisit : ∀ path st f, f ∈ (visit path st).1.touched → f ∈ st.touched ∨ f = path) :
    ∀ (levels : Nat) (root : Bytes) (st : WalkState),
      (∀ f ∈ (walkSearch fs visit levels root st).1.touched,
        f ∈ st.touched ∨ f ∈ treeFiles fs levels root) ∧
      ((walkSearch fs visit levels root st).2 = .ok () → treeComplete fs levels root = true) := by
  intro levels
  induction levels with
  | zero => intro root st; exact ⟨fun f hf => Or.inl hf, fun h => nomatch h⟩
  | succ levels ih =>
    intro root st
    rw [walkSearch, treeFiles, treeComplete]
    by_cases hcount : 1024 ≤ st.matchCount
    · rw [if_pos hcount]
      exact ⟨fun f hf => Or.inl hf, fun h => nomatch h⟩
    · rw [if_neg hcount]
      by_cases hlong : 4096 ≤ root.length
      · rw [if_pos hlong]
        exact ⟨fun f hf => Or.inl hf, fun h => nomatch h⟩
      · have hshort : (decide (root.length < 4096)) = true := decide_eq_true (Nat.lt_of_not_le hlong)
        rw [if_neg hlong, if_neg hlong, hshort, Bool.true_and]
        cases hdir : fs.opendir root with
        | none =>
          cases hstat : fs.stat root with
          | none => exact ⟨fun f hf => Or.inl hf, fun h => nomatch h⟩
          | some kind =>
            cases kind with
            | regular => exact ⟨fun f hf => by simpa using hvisit root st f hf, fun _ => rfl⟩
            | directory => exact ⟨fun f hf => Or.inl hf, fun _ => rfl⟩
            | other => exact ⟨fun f hf => Or.inl hf, fun _ => rfl⟩
        | some names =>
          have hentries := @walkEntries_touched fs visit _ _ _ hvisit (fun path st => (ih path st).1)
            (fun path st => (ih path st).2) root names st
          simp only
          generalize walkEntries fs visit (walkSearch fs visit levels) root names st = r at hentries
          obtain ⟨st', status⟩ := r
          cases status with
          | error e => exact ⟨hentries.1, fun h => nomatch h⟩
          | ok u =>
            cases hclose : fs.closedir root with
            | false => exact ⟨hentries.1, fun h => nomatch h⟩
            | true => exact ⟨hentries.1, fun _ => by rw [hentries.2 rfl]; rfl⟩

end Bounds

/-! ## A literal pattern finds any file of the tree -/

/-- A pattern in which every byte is quoted by a backslash. -/
def literalPattern (path : Bytes) : Bytes := path.flatMap fun c => [chr '\\', c]

/-- What `fnmatch` does with quoted bytes: each stands for itself, so the pattern matches one text. -/
def MatchesLiterally (fnmatch : Bytes → Bytes → Bool) : Prop :=
  ∀ path text, 0 ∉ path → (fnmatch (literalPattern path) text = true ↔ text = path)

/-- A search for one path: the visit reports that path and nothing else. -/
def visitOnly (d path : Bytes) (st : WalkState) : WalkState × Res Unit :=
  (addMatch (path == d) path st, .ok ())

theorem visitFile_literal {fs : Fs} {fnmatch : Bytes → Bytes → Bool} {d : Bytes}
    (hfn : MatchesLiterally fnmatch) (hne : d ≠ []) (hd : 0 ∉ d) :
    visitFile fs fnmatch .glob (literalPattern d) = visitOnly d := by
  have hpat : literalPattern d ≠ [] := by
    obtain ⟨c, t, rfl⟩ := List.exists_cons_of_ne_nil hne
    exact List.cons_ne_nil _ _
  have hnul : (literalPattern d).contains 0 = false := by
    rw [← Bool.not_eq_true, List.contains_iff_mem, literalPattern, List.mem_flatMap]
    rintro ⟨c, hc, hmem⟩
    rcases List.mem_cons.mp hmem with h | h
    · exact absurd h (by decide)
    · exact hd (List.mem_singleton.mp h ▸ hc)
  funext path st
  have hmatch : fnmatch (literalPattern d) path = (path == d) := by
    rw [Bool.eq_iff_iff, beq_iff_eq]
    exact hfn d path hd
  simp only [visitFile, visitGlob, visitOnly, if_neg hpat, hnul, Bool.false_eq_true, if_false, hmatch]

section Reach

variable {fs : Fs} {d : Bytes}

theorem mem_reported_addMatch {matched : Bool} {path : Bytes} {st : WalkState}
    (h : d ∈ st.reported) : d ∈ (addMatch matched path st).reported := by
  cases matched with
  | false => exact h
  | true => exact List.mem_append_left [path] h

/-- What is reported stays reported. -/
theorem walkEntries_keeps {walk : Bytes → WalkState → WalkState × Res Unit}
    (hwalk : ∀ path st, d ∈ st.reported → d ∈ (walk path st).1.reported) (root : Bytes) :
    ∀ (names : List Bytes) (st : WalkState), d ∈ st.reported →
      d ∈ (walkEntries fs (visitOnly d) walk root names st).1.reported := by
  intro names
  induction names with
  | nil => intro st h; exact h
  | cons name names ih =>
    intro st h
    rw [walkEntries]
    split
    · exact ih st h
    · cases hk : fs.lstat (joinPath root name) with
      | none => exact ih st h
      | some kind =>
        cases kind with
        | other => exact ih st h
        | regular => exact ih _ (mem_reported_addMatch h)
        | directory =>
          have hw := hwalk (joinPath root name) st h
          simp only
          generalize walk (joinPath root name) st = r at hw
          obtain ⟨st', status⟩ := r
          cases status with
          | error e => exact hw
          | ok u => exact ih st' hw

theorem walkSearch_keeps :
    ∀ (levels : Nat) (root : Bytes) (st : WalkState), d ∈ st.reported →
      d ∈ (walkSearch fs (visitOnly d) levels root st).1.reported := by
  intro levels
  induction levels with
  | zero => intro root st h; exact h
  | succ levels ih =>
    intro root st h
    rw [walkSearch]
    split
    · exact h
    · split
      · exact h
      · split
        · split
          · exact h
          · exact mem_reported_addMatch h
          · exact h
        · rename_i names _
          have hentries := @walkEntries_keeps fs d _ ih root names st h
          generalize walkEntries fs (visitOnly d) (walkSearch fs (visitOnly d) levels) root names st
            = r at hentries
          obtain ⟨st', status⟩ := r
          cases status with
          | error e => exact hentries
          | ok u => cases fs.closedir root <;> exact hentries

/-- What a search for `d` does from a state with room for matches: it reports `d` when the listing
    has it, and is a plain listing otherwise. -/
def Finds (run : WalkState → WalkState × Res Unit) (d : Bytes) (files : List Bytes)
    (complete : Bool) : Prop :=
  ∀ st, st.matchCount < 1024 →
    (d ∈ files → d ∈ (run st).1.reported) ∧
    (d ∉ files → (run st).1 = st ∧ (complete = true → (run st).2 = .ok ()))

theorem visitOnly_self (st : WalkState) : d ∈ (visitOnly d d st).1.reported := by
  rw [visitOnly, beq_self_eq_true]
  exact List.mem_append_right _ (List.mem_singleton_self d)

theorem visitOnly_ne {path : Bytes} (h : path ≠ d) (st : WalkState) :
    visitOnly d path st = (st, .ok ()) := by
  rw [visitOnly, beq_eq_false_iff_ne.mpr h]
  rfl

theorem walkEntries_finds {walk : Bytes → WalkState → WalkState × Res Unit}
    {files : Bytes → List Bytes} {complete : Bytes → Bool}
    (hkeep : ∀ path st, d ∈ st.reported → d ∈ (walk path st).1.reported)
    (hdone : ∀ path st, (walk path st).2 = .ok () → complete path = true)
    (hwalk : ∀ path, Finds (walk path) d (files path) (complete path)) (root : Bytes) :
    ∀ names : List Bytes, Finds (walkEntries fs (visitOnly d) walk root names) d
      (entriesFiles fs files complete root names) (entriesComplete fs complete root names) := by
  intro names
  induction names with
  | nil => exact fun st _ => ⟨fun h => absurd h List.not_mem_nil, fun _ => ⟨rfl, fun _ => rfl⟩⟩
  | cons name names hnames =>
    intro st hst
    have ih := hnames st hst
    rw [walkEntries, entriesFiles, entriesComplete, List.all_cons, ← entriesComplete]
    by_cases hdots : isDots name = true
    · simpa [hdots] using ih
    · rw [if_neg hdots, if_neg hdots]
      simp only [hdots, Bool.false_or]
      cases hk : fs.lstat (joinPath root name) with
      | none => simpa using ih
      | some kind =>
        cases kind with
        | other => simpa using ih
        | regular =>
          by_cases hd : joinPath root name = d
          -- this is the file: it is reported now, and stays reported
          · refine ⟨fun _ => ?_, fun h => absurd (hd ▸ List.mem_cons_self) h⟩
            exact walkEntries_keeps hkeep root names _ (hd ▸ visitOnly_self st)
          · simp only [visitOnly_ne hd st, List.mem_cons, Ne.symm hd, false_or]
            simpa using ih
        | directory =>
          obtain ⟨hin, hout⟩ := hwalk (joinPath root name) st hst
          by_cases hd : d ∈ files (joinPath root name)
          · refine ⟨fun _ => ?_, fun h => absurd (List.mem_append_left _ hd) h⟩
            have hrep := hin hd
            simp only
            generalize walk (joinPath root name) st = r at hrep
            obtain ⟨st', status⟩ := r
            cases status with
            | error e => exact hrep
            | ok u => exact walkEntries_keeps hkeep root names st' hrep
          · obtain ⟨hst', hok⟩ := hout hd
            rw [List.mem_append]
            simp only [hd, false_or]
            by_cases hc : complete (joinPath root name) = true
            · have hrun : walk (joinPath root name) st = (st, .ok ()) := Prod.ext hst' (hok hc)
              simpa [hrun, hc] using ih
            · rw [if_neg hc]
              simp only [hc, bne_self_eq_false, Bool.false_or, Bool.false_and]
              -- the listing stops here, and so does the walk: it would not have succeeded
              refine ⟨fun h => absurd h List.not_mem_nil, fun _ => ⟨?_, fun h => nomatch h⟩⟩
              have hfail := hdone (joinPath root name) st
              generalize walk (joinPath root name) st = r at hst' hfail
              obtain ⟨st', status⟩ := r
              cases status with
              | error e => exact hst'
              | ok u => exact absurd (hfail rfl) hc

/-- **A search for a listed file reports it.** -/
theorem walkSearch_finds :
    ∀ (levels : Nat) (root : Bytes), Finds (walkSearch fs (visitOnly d) levels root) d
      (treeFiles fs levels root) (treeComplete fs levels root) := by
  intro levels
  induction levels with
  | zero =>
    intro root st _
    exact ⟨fun h => absurd h List.not_mem_nil, fun _ => ⟨rfl, fun h => nomatch h⟩⟩
  | succ levels ih =>
    intro root st hst
    have hvisit : ∀ path st f, f ∈ (visitOnly d path st).1.touched → f ∈ st.touched ∨ f = path :=
      fun _ _ _ hf => mem_touched_addMatch hf
    have hentries := fun names => @walkEntries_finds fs d _ _ _ (walkSearch_keeps levels)
      (fun path st => (walkSearch_touched hvisit levels path st).2) ih root
      names st hst
    rw [walkSearch, treeFiles, treeComplete, if_neg (Nat.not_le.mpr hst)]
    by_cases hlong : 4096 ≤ root.length
    · have hnot : (decide (root.length < 4096)) = false := decide_eq_false (Nat.not_lt.mpr hlong)
      rw [if_pos hlong, if_pos hlong, hnot]
      exact ⟨fun h => absurd h List.not_mem_nil, fun _ => ⟨rfl, fun h => nomatch h⟩⟩
    · have hshort : (decide (root.length < 4096)) = true := decide_eq_true (Nat.lt_of_not_le hlong)
      rw [if_neg hlong, if_neg hlong, hshort, Bool.true_and]
      cases hdir : fs.opendir root with
      | none =>
        cases hstat : fs.stat root with
        | none => exact ⟨fun h => absurd h List.not_mem_nil, fun _ => ⟨rfl, fun h => nomatch h⟩⟩
        | some kind =>
          cases kind with
          | directory => exact ⟨fun h => absurd h List.not_mem_nil, fun _ => ⟨rfl, fun _ => rfl⟩⟩
          | other => exact ⟨fun h => absurd h List.not_mem_nil, fun _ => ⟨rfl, fun _ => rfl⟩⟩
          | regular =>
            by_cases hd : root = d
            · subst hd
              exact ⟨fun _ => visitOnly_self st, fun h => absurd (by simp) h⟩
            · simp only [if_pos, visitOnly_ne hd st, List.mem_singleton, Ne.symm hd]
              exact ⟨fun h => absurd h id, fun _ => ⟨trivial, fun _ => trivial⟩⟩
      | some names =>
        obtain ⟨hin, hout⟩ := hentries names
        simp only
        generalize walkEntries fs (visitOnly d) (walkSearch fs (visitOnly d) levels) root names st
          = r at hin hout
        obtain ⟨st', status⟩ := r
        cases status with
        | error e =>
          -- a listing that is complete cannot have failed
          refine ⟨hin, fun h => ⟨(hout h).1, fun hc => ?_⟩⟩
          exact nomatch (hout h).2 (Bool.and_eq_true_iff.mp hc).1
        | ok u =>
          cases hclose : fs.closedir root with
          | false => exact ⟨hin, fun h => ⟨(hout h).1, fun hc => by simp at hc⟩⟩
          | true => exact ⟨hin, fun h => ⟨(hout h).1, fun _ => rfl⟩⟩

end Reach

/-! ## The deny list -/

/-- The refusal of a path at or below a deny entry. -/
def pathDenied : ScError := ⟨.securityDenied, "sc.security.path_denied"⟩

theorem invalidArgument_ne_denied {α : Type} (key : String) :
    (Status.invalidArgument key : Res α) ≠ .error pathDenied := nofun

theorem io_ne_denied {α : Type} (key : String) : (Status.io key : Res α) ≠ .error pathDenied := nofun

theorem ok_ne_denied {α : Type} (a : α) : (.ok a : Res α) ≠ .error pathDenied := nofun

theorem traversal_ne_denied {α : Type} :
    (Status.securityDenied "sc.security.path_traversal" : Res α) ≠ .error pathDenied :=
  fun h => absurd (congrArg ScError.errorKey (Except.error.inj h)) (by decide)

/-- No canonicalizer refuses with that key. -/
theorem canonicalizeExisting_ne_denied (os : Os) (path : Bytes) :
    canonicalizeExisting os path ≠ .error pathDenied := by
  unfold canonicalizeExisting
  split
  · exact nofun
  · split <;> exact nofun

theorem canonicalizeForWrite_ne_denied (os : Os) (path : Bytes) :
    canonicalizeForWrite os path ≠ .error pathDenied := by
  have habs : makeAbsolute os path ≠ .error pathDenied := by
    unfold makeAbsolute
    repeat' split
    all_goals first
      | exact invalidArgument_ne_denied _
      | exact io_ne_denied _
      | exact ok_ne_denied _
  have hleaf : ∀ t, parentAndLeaf t ≠ .error pathDenied := by
    intro t
    unfold parentAndLeaf
    split
    · exact invalidArgument_ne_denied _
    · split
      · exact invalidArgument_ne_denied _
      · exact ok_ne_denied _
  intro h
  unfold canonicalizeForWrite at h
  rcases Res.bind_eq_error.mp h with h | ⟨absolute, -, h⟩
  · exact habs h
  · rcases Res.bind_eq_error.mp h with h | ⟨⟨parent, leaf⟩, -, h⟩
    · exact hleaf absolute h
    · rcases Res.bind_eq_error.mp h with h | ⟨real, -, h⟩
      · exact canonicalizeExisting_ne_denied os parent h
      · split at h
        · exact traversal_ne_denied h
        · exact ok_ne_denied _ h

theorem workspaceResolve_ne_denied (os : Os) (policy : SecurityPolicy) (path : Bytes)
    (mustExist : Bool) : workspaceResolve os policy path mustExist ≠ .error pathDenied := by
  intro h
  unfold workspaceResolve at h
  split at h
  · exact nomatch h
  · rcases Res.bind_eq_error.mp h with h | ⟨root, -, h⟩
    · unfold resolveRoot at h
      split at h
      · exact canonicalizeExisting_ne_denied os _ h
      · exact nomatch h
    · rcases Res.bind_eq_error.mp h with h | ⟨resolved, -, h⟩
      · unfold canonicalizeInput at h
        split at h
        · exact canonicalizeExisting_ne_denied os path h
        · exact canonicalizeForWrite_ne_denied os path h
      · split at h <;> exact nomatch h

theorem checkDenied_eq_denied {os : Os} {resolved : Bytes} :
    ∀ {items : List Bytes}, checkDenied os resolved items = .error pathDenied →
      ∃ entry ∈ items, ∃ denied, canonicalizeForWrite os entry = .ok denied ∧
        pathHasPrefix resolved denied = true := by
  intro items
  induction items with
  | nil => intro h; exact nomatch h
  | cons item items ih =>
    intro h
    rw [checkDenied] at h
    rcases Res.bind_eq_error.mp h with h | ⟨denied, hd, h⟩
    · exact absurd h (canonicalizeForWrite_ne_denied os item)
    · split at h
      · rename_i hp
        exact ⟨item, List.mem_cons_self, denied, hd, hp⟩
      · obtain ⟨entry, hmem, rest⟩ := ih h
        exact ⟨entry, List.mem_cons_of_mem item hmem, rest⟩

theorem checkAllowed_ne_denied {os : Os} {resolved : Bytes} :
    ∀ (items : List Bytes) (allowed : Bool),
      checkAllowed os resolved allowed items ≠ .error pathDenied := by
  intro items
  induction items with
  | nil =>
    intro allowed
    rw [checkAllowed]
    split <;> exact nofun
  | cons item items ih =>
    intro allowed h
    rw [checkAllowed] at h
    rcases Res.bind_eq_error.mp h with h | ⟨path, -, h⟩
    · exact canonicalizeForWrite_ne_denied os item h
    · exact ih _ h

/-- **Why a path is refused as denied**: the byte test finds it at or below an entry. -/
theorem validatePath_eq_denied {os : Os} {policy : SecurityPolicy} {path : Bytes} {mustExist : Bool}
    (h : validatePath os policy path mustExist = .error pathDenied) :
    ∃ resolved, workspaceResolve os policy path mustExist = .ok resolved ∧
      ∃ entry ∈ policy.deniedPaths, ∃ denied, canonicalizeForWrite os entry = .ok denied ∧
        pathHasPrefix resolved denied = true := by
  unfold validatePath at h
  rcases Res.bind_eq_error.mp h with h | ⟨resolved, hr, h⟩
  · exact absurd h (workspaceResolve_ne_denied os policy path mustExist)
  · rcases Res.bind_eq_error.mp h with h | ⟨⟨⟩, -, h⟩
    · exact ⟨resolved, hr, checkDenied_eq_denied h⟩
    · split at h
      · exact nomatch h
      · exact absurd h (checkAllowed_ne_denied _ _)

/-! ## Files of the tree, by path -/

/-- **The rule for listed files**: what holds of the root and passes from a directory to the
    subdirectories and files it lists holds of every file of the tree. -/
theorem treeFiles_forall {fs : Fs} {P : Bytes → Prop}
    (hstep : ∀ t names name, P t → fs.opendir t = some names → name ∈ names → isDots name = false →
      (fs.lstat (joinPath t name) = some .directory ∨ fs.lstat (joinPath t name) = some .regular) →
      P (joinPath t name)) :
    ∀ (levels : Nat) (root : Bytes), P root → ∀ f ∈ treeFiles fs levels root, P f := by
  intro levels
  induction levels with
  | zero => intro root _ f hf; exact absurd hf List.not_mem_nil
  | succ levels hlevels =>
    intro root hroot f hf
    rw [treeFiles] at hf
    split at hf
    · exact absurd hf List.not_mem_nil
    · cases hdir : fs.opendir root with
      | none =>
        simp only [hdir] at hf
        split at hf
        · rw [List.mem_singleton.mp hf]
          exact hroot
        · exact absurd hf List.not_mem_nil
      | some names =>
        simp only [hdir] at hf
        -- the entries are a part of the directory's names
        have hall : ∀ part : List Bytes, (∀ n ∈ part, n ∈ names) →
            f ∈ entriesFiles fs (treeFiles fs levels) (treeComplete fs levels) root part → P f := by
          intro part
          induction part with
          | nil => intro _ h; exact absurd h List.not_mem_nil
          | cons name part ih =>
            intro hsub h
            have ih := ih fun n hn => hsub n (List.mem_cons_of_mem name hn)
            rw [entriesFiles] at h
            split at h
            · exact ih h
            · rename_i hdots
              have hchild := hstep root names name hroot hdir (hsub name List.mem_cons_self)
                (Bool.eq_false_iff.mpr hdots)
              split at h
              · rename_i hk
                rcases List.mem_append.mp h with h | h
                · exact hlevels _ (hchild (Or.inl hk)) f h
                · split at h
                  · exact ih h
                  · exact absurd h List.not_mem_nil
              · rename_i hk
                rcases List.mem_cons.mp h with rfl | h
                · exact hchild (Or.inr hk)
                · exact ih h
              · exact ih h
        exact hall names (fun _ h => h) hf

/-- What the system promises about real paths: `realpath` returns a C string and leaves a canonical
    path alone; a directory lists components; and a listed subdirectory or regular file, which is no
    symbolic link, really is the child of the real directory. -/
structure RealTree (os : Os) (fs : Fs) : Prop where
  realpath_text : ∀ t p, os.realpath t = some p → os.realpath p.text = some p
  realpath_cstr : ∀ t p, os.realpath t = some p → 0 ∉ p.text
  name_component : ∀ dir names, fs.opendir dir = some names →
    ∀ name ∈ names, isDots name = false → IsComponent name
  child : ∀ t p name (h : IsComponent name), os.realpath t = some p →
    (fs.lstat (joinPath t name) = some .directory ∨ fs.lstat (joinPath t name) = some .regular) →
    os.realpath (joinPath t name) = some (p.push name h)

/-- Listed files are C strings and not empty. -/
theorem treeFiles_cstr {fs : Fs} {root : Bytes} {levels : Nat} (hne : root ≠ []) (hroot : 0 ∉ root) :
    ∀ f ∈ treeFiles fs levels root, f ≠ [] ∧ 0 ∉ f := by
  refine treeFiles_forall (P := fun f => f ≠ [] ∧ 0 ∉ f) ?_ levels root ⟨hne, hroot⟩
  rintro t names name ⟨-, ht⟩ hdir hname - -
  refine ⟨by simp [joinPath], ?_⟩
  rw [joinPath, List.mem_append, List.mem_cons]
  rintro (h | h | h)
  · exact ht h
  · exact absurd h (by decide)
  · exact fs.name_cstr t names hdir name hname h

/-- Listed files really lie at or below the root. -/
theorem treeFiles_below {os : Os} {fs : Fs} (hreal : RealTree os fs) {root : Bytes} {r : CanonPath}
    {levels : Nat} (hroot : os.realpath root = some r) :
    ∀ f ∈ treeFiles fs levels root, ∃ p, os.realpath f = some p ∧ r.comps <+: p.comps := by
  refine treeFiles_forall (P := fun f => ∃ p, os.realpath f = some p ∧ r.comps <+: p.comps) ?_
    levels root ⟨r, hroot, List.prefix_refl r.comps⟩
  rintro t names name ⟨p, hp, hpre⟩ hdir hname hdots hk
  have hcomp := hreal.name_component t names hdir name hname hdots
  exact ⟨p.push name hcomp, hreal.child t p name hcomp hp hk, hpre.trans (List.prefix_append _ _)⟩

/-! ## The searches and the deny list -/

/-- The file's own canonical path is refused because it is at or below a deny entry. -/
def DeniedFile (os : Os) (policy : SecurityPolicy) (f : Bytes) : Prop :=
  ∃ p, os.realpath f = some p ∧ validatePath os policy p.text true = .error pathDenied

/-- **The deny list holds in a search**: no denied file is opened or reported. -/
def Respects (os : Os) (policy : SecurityPolicy) (fs : Fs) (fnmatch : Bytes → Bytes → Bool)
    (kind : SearchKind) (query root : Bytes) : Prop :=
  ∀ f ∈ (search fs fnmatch kind query root).1.touched, ¬DeniedFile os policy f

/-- A deny entry's canonical form lies strictly below the root. -/
def StrictlyBelow (root denied : Bytes) : Prop :=
  components root <+: components denied ∧ components root ≠ components denied

/-- With an accepted root and no deny entry strictly below it, no listed file is denied: an entry
    above the file is then above the root, which would not have been accepted. -/
theorem treeFiles_not_denied {os : Os} {fs : Fs} {policy : SecurityPolicy} {path root : Bytes}
    {levels : Nat} (hreal : RealTree os fs) (hv : validatePath os policy path true = .ok ())
    (hr : workspaceResolve os policy path true = .ok root)
    (hbelow : ∀ entry ∈ policy.deniedPaths, ∀ denied, canonicalizeForWrite os entry = .ok denied →
      ¬StrictlyBelow root denied) :
    ∀ f ∈ treeFiles fs levels root, ¬DeniedFile os policy f := by
  obtain ⟨-, r, hpath, rfl⟩ := canonicalizeExisting_ok (workspaceResolve_ok hr)
  obtain ⟨resolved, hr', hdeny⟩ := validatePath_ok hv
  obtain rfl : resolved = r.text := Except.ok.inj (hr'.symm.trans hr)
  intro f hf
  obtain ⟨p, hp, hpre⟩ := treeFiles_below hreal (hreal.realpath_text path r hpath) f hf
  rintro ⟨p', hp', hden⟩
  obtain rfl : p' = p := Option.some.inj (hp'.symm.trans hp)
  obtain ⟨resolved, hres, entry, hmem, denied, hd, hin⟩ := validatePath_eq_denied hden
  obtain ⟨-, q, hq, rfl⟩ := canonicalizeExisting_ok (workspaceResolve_ok hres)
  obtain rfl : q = p' := Option.some.inj (hq.symm.trans (hreal.realpath_text f p' hp'))
  obtain ⟨denied', hd', hout⟩ := checkDenied_ok.mp hdeny entry hmem
  obtain rfl : denied' = denied := Except.ok.inj (hd'.symm.trans hd)
  rcases canonicalizeForWrite_written hd with ⟨-, leaf, -, rfl⟩ | ⟨-, e, hlen, rfl⟩
  · -- the double-slash form of a child of the root directory contains no canonical path
    rw [pathHasPrefix_text_rootLeaf] at hin
    exact Bool.false_ne_true hin
  · have hne : e.comps ≠ [] := List.ne_nil_of_length_pos (by omega)
    have hein := ((pathHasPrefix_text q e).mp hin).1
    rcases List.prefix_or_prefix_of_prefix hein hpre with h | h
    · rw [(pathHasPrefix_text r e).mpr ⟨h, Or.inl hne⟩] at hout
      exact Bool.false_ne_true hout.symm
    · by_cases heq : r.comps = e.comps
      · rw [(pathHasPrefix_text r e).mpr ⟨heq ▸ List.prefix_refl r.comps, Or.inl hne⟩] at hout
        exact Bool.false_ne_true hout.symm
      · refine hbelow entry hmem _ hd ⟨?_, ?_⟩
        · rw [components_text, components_text]; exact h
        · rw [components_text, components_text]; exact heq

/-- **When searches respect the deny list**: from an accepted root, every content search and every
    glob search leaves denied files alone exactly when the tree lists none; and that is so when no
    deny entry lies strictly below the root. -/
theorem searchRespects_iff {os : Os} {fs : Fs} {fnmatch : Bytes → Bytes → Bool}
    {policy : SecurityPolicy} {path root : Bytes} (hreal : RealTree os fs)
    (hfn : MatchesLiterally fnmatch) (hv : validatePath os policy path true = .ok ())
    (hr : workspaceResolve os policy path true = .ok root) :
    ((∀ kind query, Respects os policy fs fnmatch kind query root) ↔
      ∀ f ∈ treeFiles fs 33 root, ¬DeniedFile os policy f) ∧
    ((∀ entry ∈ policy.deniedPaths, ∀ denied, canonicalizeForWrite os entry = .ok denied →
        ¬StrictlyBelow root denied) →
      ∀ kind query, Respects os policy fs fnmatch kind query root) := by
  have hsafe : (∀ f ∈ treeFiles fs 33 root, ¬DeniedFile os policy f) →
      ∀ kind query, Respects os policy fs fnmatch kind query root := by
    intro htree kind query f hf
    have hvisit : ∀ path st f, f ∈ (visitFile fs fnmatch kind query path st).1.touched →
        f ∈ st.touched ∨ f = path := fun _ _ _ h => mem_touched_visitFile h
    rcases (walkSearch_touched hvisit 33 root {}).1 f hf with h | h
    · exact absurd h List.not_mem_nil
    · exact htree f h
  refine ⟨⟨fun h f hf => ?_, hsafe⟩, fun hbelow => hsafe (treeFiles_not_denied hreal hv hr hbelow)⟩
  -- search for exactly this file
  obtain ⟨-, r, hpath, rfl⟩ := canonicalizeExisting_ok (workspaceResolve_ok hr)
  have hne : r.text ≠ [] := by
    unfold CanonPath.text
    split
    · exact List.cons_ne_nil _ _
    · rename_i hc
      obtain ⟨c, cs, hcs⟩ := List.exists_cons_of_ne_nil hc
      rw [hcs, render_cons]
      exact List.cons_ne_nil _ _
  obtain ⟨hfne, hfnul⟩ := treeFiles_cstr hne (hreal.realpath_cstr path r hpath) f hf
  have hfind := (walkSearch_finds 33 r.text {} (by decide)).1 hf
  rw [← @visitFile_literal fs _ _ hfn hfne hfnul] at hfind
  exact h .glob (literalPattern f) f (List.mem_append_right _ hfind)

/-! ## A small tree to search -/

/-- The tree of `/root` on the small system: the directory `.ssh` with the file `id`. -/
def smallFs : Fs where
  opendir path :=
    if path = str "/root" then some [str ".", str "..", str ".ssh"]
    else if path = str "/root/.ssh" then some [str "id", str ".", str ".."]
    else none
  closedir _ := true
  stat path := if path = str "/root/.ssh/id" then some .regular else some .directory
  lstat path :=
    if path = str "/root/.ssh" then some .directory
    else if path = str "/root/.ssh/id" then some .regular
    else none
  fopen path := if path = str "/root/.ssh/id" then some ⟨str "private key", false⟩ else none
  name_cstr := by
    intro dir names h
    split at h
    · obtain rfl := Option.some.inj h
      decide
    · split at h
      · obtain rfl := Option.some.inj h
        decide
      · exact nomatch h

/-- A path that ends in a component splits there only. -/
theorem joinPath_inj {t name u leaf : Bytes} (hname : slash ∉ name) (hleaf : slash ∉ leaf)
    (h : joinPath t name = joinPath u leaf) : t = u ∧ name = leaf := by
  have ht : cut slash (joinPath t name) = some (t, name) := cut_eq_some.mpr ⟨rfl, hname⟩
  have hu : cut slash (joinPath u leaf) = some (u, leaf) := cut_eq_some.mpr ⟨rfl, hleaf⟩
  rw [h, hu] at ht
  exact Prod.mk.inj (Option.some.inj ht.symm)

theorem smallOs_cases {t : Bytes} {p : CanonPath} (h : smallOs.realpath t = some p) :
    t = p.text ∧ 0 ∉ p.text := by
  simp only [smallOs] at h
  repeat' split at h
  all_goals first
    | (obtain rfl := Option.some.inj h; subst_vars; exact ⟨by decide, by decide⟩)
    | exact nomatch h

theorem smallTree : RealTree smallOs smallFs where
  realpath_text t p h := (smallOs_cases h).1 ▸ h
  realpath_cstr t p h := (smallOs_cases h).2
  name_component dir names h := by
    simp only [smallFs] at h
    split at h
    · obtain rfl := Option.some.inj h
      decide
    · split at h
      · obtain rfl := Option.some.inj h
        decide
      · exact nomatch h
  child t p name hname ht hk := by
    simp only [smallFs] at hk
    have hcase : joinPath t name = joinPath (str "/root") (str ".ssh") ∨
        joinPath t name = joinPath (str "/root/.ssh") (str "id") := by
      by_cases h1 : joinPath t name = str "/root/.ssh"
      · exact Or.inl h1
      · by_cases h2 : joinPath t name = str "/root/.ssh/id"
        · exact Or.inr h2
        · rw [if_neg h1, if_neg h2] at hk
          simp at hk
    rcases hcase with h | h
    · obtain ⟨rfl, rfl⟩ := joinPath_inj hname.1.2 (by decide) h
      obtain rfl := Option.some.inj ht
      rfl
    · obtain ⟨rfl, rfl⟩ := joinPath_inj hname.1.2 (by decide) h
      obtain rfl := Option.some.inj ht
      rfl

/-- `fnmatch` on patterns that quote every byte. -/
def literalFnmatch (pattern text : Bytes) : Bool := pattern == literalPattern text

theorem literalPattern_injective {s t : Bytes} (h : literalPattern s = literalPattern t) : s = t := by
  induction s generalizing t with
  | nil =>
    cases t with
    | nil => rfl
    | cons c t => exact nomatch h
  | cons b s ih =>
    cases t with
    | nil => exact nomatch h
    | cons c t =>
      have h' : chr '\\' :: b :: literalPattern s = chr '\\' :: c :: literalPattern t := h
      obtain ⟨hbc, hst⟩ := List.cons.inj (List.cons.inj h').2
      rw [hbc, ih hst]

theorem literalFnmatch_literally : MatchesLiterally literalFnmatch := by
  intro path text _
  rw [literalFnmatch, beq_iff_eq]
  exact ⟨fun h => (literalPattern_injective h).symm, fun h => by rw [h]⟩

/-- With a deny entry outside the searched tree, a content search of `/root` meets no denied file. -/
theorem searchRespects_small :
    Respects smallOs { deniedPaths := [str "/etc/passwd"] } smallFs literalFnmatch .content (str "key")
      (str "/root") := by
  have hvalid : validatePath smallOs { deniedPaths := [str "/etc/passwd"] } (str "/root") true = .ok () :=
    rfl
  refine (searchRespects_iff smallTree literalFnmatch_literally hvalid rfl).2 ?_ .content (str "key")
  intro entry hentry denied hd
  obtain rfl := List.mem_singleton.mp hentry
  obtain rfl : str "/etc/passwd" = denied := Except.ok.inj hd
  rintro ⟨h, -⟩
  exact absurd h (by decide)

/-- The default deny list names `~/.ssh`; a content search of the home directory, which is accepted,
    opens the key in it. -/
theorem search_opens_denied :
    ¬ ∀ (os : Os) (fs : Fs) (fnmatch : Bytes → Bytes → Bool) (policy : SecurityPolicy)
        (path root : Bytes), RealTree os fs → MatchesLiterally fnmatch →
      validatePath os policy path true = .ok () → workspaceResolve os policy path true = .ok root →
      ∀ kind query, Respects os policy fs fnmatch kind query root := by
  intro h
  have hrespects := h smallOs smallFs literalFnmatch
    { policyInitDefaults with workspaceRoot := str "/root" } (str "/root") (str "/root") smallTree
    literalFnmatch_literally rfl rfl .content (str "key")
  refine hrespects (str "/root/.ssh/id") (by decide +kernel)
    ⟨canonOf [str "root", str ".ssh", str "id"] (by decide), rfl, rfl⟩

end SmolClaw.Search
