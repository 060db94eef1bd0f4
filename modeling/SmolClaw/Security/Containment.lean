/-
  Containment of paths: what the byte test `pathHasPrefix` decides on the two shapes the canonicalizers
  write, and what follows for the deny list, the workspace root and the opened parent.

  The byte test is exact on canonical texts other than `/` (`pathHasPrefix_text`); it is wrong whenever
  exactly one side is written with the root's own slash in front:
    * `/` as the container — its text ends in the separator, so the boundary check looks one byte too far
      and every path below the root is refused;
    * `//leaf`, the for-write form of a child of the root — as a denied entry it contains no canonical
      path, as a resolved path it lies in no container but `/`.
-/
import SmolClaw.Security.Workspace

namespace SmolClaw.Security

open Lib.Separated

/-! ## The two written shapes -/

theorem CanonPath.plain (p : CanonPath) : ∀ c ∈ p.comps, Plain slash c :=
  fun c hc => (p.isComponent c hc).1

theorem CanonPath.text_root {p : CanonPath} (h : p.comps = []) : p.text = [slash] := if_pos h

theorem CanonPath.text_of_ne {p : CanonPath} (h : p.comps ≠ []) : p.text = render slash p.comps :=
  if_neg h

/-- Components are read off the text. -/
theorem components_text (p : CanonPath) : components p.text = p.comps := by
  by_cases h : p.comps = []
  · rw [CanonPath.text_root h, h]; decide
  · rw [CanonPath.text_of_ne h]; exact pieces_render p.plain

/-- The child `leaf` of a directory. -/
def CanonPath.push (p : CanonPath) (leaf : Bytes) (h : IsComponent leaf) : CanonPath where
  comps := p.comps ++ [leaf]
  isComponent := by
    intro c hc
    rcases List.mem_append.mp hc with hc | hc
    · exact p.isComponent c hc
    · rw [List.mem_singleton.mp hc]; exact h

/-- Below any directory but the root, parent, slash and leaf are the child's canonical text. -/
theorem CanonPath.text_push {p : CanonPath} {leaf : Bytes} (h : IsComponent leaf)
    (hp : p.comps ≠ []) : (p.push leaf h).text = p.text ++ slash :: leaf := by
  have hne : (p.push leaf h).comps ≠ [] := by simp [CanonPath.push]
  rw [CanonPath.text_of_ne hne, CanonPath.text_of_ne hp, CanonPath.push, render_append]
  simp

/-- The double-slash form of a child of the root has the child as its one component. -/
theorem components_rootLeaf {leaf : Bytes} (h : IsComponent leaf) :
    components (slash :: slash :: leaf) = [leaf] := by
  have hsplit := List.splitOn_append_cons_self_of_not_mem (List.not_mem_nil (a := slash)) (slash :: leaf)
  rw [List.nil_append] at hsplit
  have hplain : ∀ p ∈ [leaf], Plain slash p := by simpa using h.1
  have hrest : components (slash :: leaf) = [leaf] := by simpa using pieces_render hplain
  rw [components, pieces, hsplit, List.filter_cons]
  simpa [components, pieces] using hrest

/-! ## The byte test on each pair of shapes -/

/-- Below the root the second byte of a canonical text is not a slash. -/
theorem CanonPath.text_cons_ne {p : CanonPath} {t : Bytes} : p.text ≠ slash :: slash :: t := by
  intro h
  cases hc : p.comps with
  | nil => rw [CanonPath.text_root hc] at h; simp at h
  | cons c cs =>
    have hplain : Plain slash c := p.plain c (by rw [hc]; exact List.mem_cons_self)
    rw [CanonPath.text_of_ne (by rw [hc]; simp), hc, render_cons] at h
    cases c with
    | nil => exact hplain.1 rfl
    | cons x c => exact hplain.2 ((List.cons.inj (List.cons.inj h).2).1 ▸ List.mem_cons_self)

/-- **On two canonical texts** the byte test is containment, except that the root contains only
    itself. -/
theorem pathHasPrefix_text (p r : CanonPath) :
    pathHasPrefix p.text r.text = true ↔ r.comps <+: p.comps ∧ (r.comps ≠ [] ∨ p.comps = []) := by
  rw [pathHasPrefix_iff]
  by_cases hr : r.comps = []
  · -- the container is "/": what follows it must be empty, for a second slash cannot follow
    rw [CanonPath.text_root hr, hr]
    constructor
    · rintro ⟨rest, heq, rfl | ⟨t, rfl⟩⟩
      · refine ⟨List.nil_prefix, Or.inr ?_⟩
        by_contra hp
        cases hc : p.comps with
        | nil => exact hp hc
        | cons c cs =>
          have hplain := (p.plain c (by rw [hc]; exact List.mem_cons_self)).1
          rw [CanonPath.text_of_ne hp, hc] at heq
          simp [hplain] at heq
      · exact absurd heq CanonPath.text_cons_ne
    · rintro ⟨-, h | h⟩
      · exact absurd rfl h
      · exact ⟨[], by rw [CanonPath.text_root h]; rfl, Or.inl rfl⟩
  · rw [CanonPath.text_of_ne hr]
    by_cases hp : p.comps = []
    · -- "/" lies in no directory below it
      have hno : ¬r.comps <+: p.comps := by rw [hp]; exact fun h => hr (List.prefix_nil.mp h)
      refine ⟨?_, fun h => absurd h.1 hno⟩
      rintro ⟨rest, heq, -⟩
      cases hc : r.comps with
      | nil => exact absurd hc hr
      | cons c cs =>
        have hplain := (r.plain c (by rw [hc]; exact List.mem_cons_self)).1
        rw [CanonPath.text_root hp, hc] at heq
        simp [hplain] at heq
    · rw [CanonPath.text_of_ne hp]
      exact (render_append_iff p.plain r.plain).trans ⟨fun h => ⟨h, Or.inl hr⟩, fun h => h.1⟩

/-- A double-slash container holds no canonical path. -/
theorem pathHasPrefix_text_rootLeaf (p : CanonPath) (leaf : Bytes) :
    pathHasPrefix p.text (slash :: slash :: leaf) = false := by
  rw [← Bool.not_eq_true, pathHasPrefix_iff]
  rintro ⟨rest, heq, -⟩
  exact absurd heq CanonPath.text_cons_ne

/-- A double-slash path lies in `/` only. -/
theorem pathHasPrefix_rootLeaf_text (leaf : Bytes) (r : CanonPath) :
    pathHasPrefix (slash :: slash :: leaf) r.text = true ↔ r.comps = [] := by
  rw [pathHasPrefix_iff]
  constructor
  · rintro ⟨rest, heq, -⟩
    by_contra hr
    cases hc : r.comps with
    | nil => exact hr hc
    | cons c cs =>
      have hplain : Plain slash c := r.plain c (by rw [hc]; exact List.mem_cons_self)
      rw [CanonPath.text_of_ne hr, hc, render_cons] at heq
      cases c with
      | nil => exact hplain.1 rfl
      | cons x c => exact hplain.2 ((List.cons.inj (List.cons.inj heq).2).1 ▸ List.mem_cons_self)
  · intro hr
    exact ⟨slash :: leaf, by rw [CanonPath.text_root hr]; rfl, Or.inr ⟨leaf, rfl⟩⟩

/-- Two double-slash paths contain each other only when they are the same. -/
theorem pathHasPrefix_rootLeaf_rootLeaf {leaf leaf' : Bytes} (h : slash ∉ leaf) :
    pathHasPrefix (slash :: slash :: leaf) (slash :: slash :: leaf') = true ↔ leaf = leaf' := by
  rw [pathHasPrefix_iff]
  constructor
  · rintro ⟨rest, heq, rfl | ⟨t, rfl⟩⟩
    · simpa using heq
    · have hleaf : leaf = leaf' ++ slash :: t := by simpa using heq
      exact absurd (hleaf ▸ List.mem_append_right leaf' List.mem_cons_self) h
  · rintro rfl
    exact ⟨[], by simp, Or.inl rfl⟩

/-! ## What the canonicalizers return -/

/-- The real location of the directory a path names its leaf in. -/
def realParent (os : Os) (inputPath : Bytes) : Option CanonPath :=
  match makeAbsolute os inputPath with
  | .error _ => none
  | .ok absolute =>
      match parentAndLeaf absolute with
      | .error _ => none
      | .ok (parent, _) => os.realpath parent

/-- The path names a child of the root directory. -/
def AtRootLevel (os : Os) (inputPath : Bytes) : Prop :=
  ∃ parent, realParent os inputPath = some parent ∧ parent.comps = []

theorem canonicalizeExisting_ok {os : Os} {inputPath t : Bytes}
    (h : canonicalizeExisting os inputPath = .ok t) :
    inputPath ≠ [] ∧ ∃ p, os.realpath inputPath = some p ∧ t = p.text := by
  unfold canonicalizeExisting at h
  split at h
  · exact absurd h (Status.invalidArgument_ne_ok _ _)
  · rename_i hvalid
    rw [not_or] at hvalid
    cases hr : os.realpath inputPath with
    | none => rw [hr] at h; exact absurd h (Status.io_ne_ok _ _)
    | some p => rw [hr] at h; exact ⟨hvalid.1, p, rfl, (Except.ok.inj h).symm⟩

theorem parentAndLeaf_ok {path parent leaf : Bytes} (h : parentAndLeaf path = .ok (parent, leaf)) :
    Plain slash leaf := by
  unfold parentAndLeaf at h
  cases hc : cut slash path with
  | none => rw [hc] at h; exact absurd h (Status.invalidArgument_ne_ok _ _)
  | some ba =>
    obtain ⟨before, after⟩ := ba
    simp only [hc] at h
    by_cases hl : after = []
    · rw [if_pos hl] at h; exact absurd h (Status.invalidArgument_ne_ok _ _)
    · rw [if_neg hl] at h
      obtain ⟨-, rfl⟩ := Prod.mk.inj (Except.ok.inj h)
      exact ⟨hl, (cut_eq_some.mp hc).2⟩

/-- The for-write form is the real parent's text, a slash, and a component. -/
theorem canonicalizeForWrite_ok {os : Os} {inputPath t : Bytes}
    (h : canonicalizeForWrite os inputPath = .ok t) :
    inputPath ≠ [] ∧ ∃ parent leaf, realParent os inputPath = some parent ∧ IsComponent leaf ∧
      t = parent.text ++ slash :: leaf := by
  unfold canonicalizeForWrite at h
  obtain ⟨absolute, habs, h⟩ := Res.bind_eq_ok.mp h
  obtain ⟨⟨parent, leaf⟩, hpl, h⟩ := Res.bind_eq_ok.mp h
  obtain ⟨real, hreal, h⟩ := Res.bind_eq_ok.mp h
  obtain ⟨-, p, hp, rfl⟩ := canonicalizeExisting_ok hreal
  have hne : inputPath ≠ [] := by
    rintro rfl
    simp [makeAbsolute] at habs
  split at h
  · exact absurd h (Status.securityDenied_ne_ok _ _)
  · rename_i hleaf
    rw [not_or, not_or] at hleaf
    refine ⟨hne, p, leaf, ?_, ⟨parentAndLeaf_ok hpl, hleaf.2.1, hleaf.2.2⟩, (Except.ok.inj h).symm⟩
    simp only [realParent, habs, hpl, hp]

/-- The two shapes of a for-write form, told apart by where its parent is. -/
theorem canonicalizeForWrite_written {os : Os} {inputPath t : Bytes}
    (h : canonicalizeForWrite os inputPath = .ok t) :
    (AtRootLevel os inputPath ∧ ∃ leaf, IsComponent leaf ∧ t = slash :: slash :: leaf) ∨
    (¬AtRootLevel os inputPath ∧ ∃ p : CanonPath, 2 ≤ p.comps.length ∧ t = p.text) := by
  obtain ⟨-, parent, leaf, hparent, hleaf, rfl⟩ := canonicalizeForWrite_ok h
  by_cases hp : parent.comps = []
  · refine Or.inl ⟨⟨parent, hparent, hp⟩, leaf, hleaf, ?_⟩
    rw [CanonPath.text_root hp]
    rfl
  · refine Or.inr ⟨?_, parent.push leaf hleaf, ?_, (CanonPath.text_push hleaf hp).symm⟩
    · rintro ⟨q, hq, hnil⟩
      rw [hparent] at hq
      exact hp (Option.some.inj hq ▸ hnil)
    · have := List.length_pos_of_ne_nil hp
      simp only [CanonPath.push, List.length_append, List.length_singleton]
      omega

/-- The canonical form of an input path: double-slashed exactly when it is for writing and its parent is
    the root. -/
theorem canonicalizeInput_written {os : Os} {inputPath t : Bytes} {mustExist : Bool}
    (h : canonicalizeInput os inputPath mustExist = .ok t) :
    ((mustExist = false ∧ AtRootLevel os inputPath) ∧
      ∃ leaf, IsComponent leaf ∧ t = slash :: slash :: leaf) ∨
    (¬(mustExist = false ∧ AtRootLevel os inputPath) ∧ ∃ p : CanonPath, t = p.text) := by
  cases mustExist with
  | true =>
    obtain ⟨-, p, -, rfl⟩ := canonicalizeExisting_ok h
    exact Or.inr ⟨fun hm => absurd hm.1 (by decide), p, rfl⟩
  | false =>
    rcases canonicalizeForWrite_written h with ⟨hroot, hleaf⟩ | ⟨hroot, p, -, rfl⟩
    · exact Or.inl ⟨⟨rfl, hroot⟩, hleaf⟩
    · exact Or.inr ⟨fun hm => hroot hm.2, p, rfl⟩

theorem canonicalizeInput_ne_nil {os : Os} {inputPath t : Bytes} {mustExist : Bool}
    (h : canonicalizeInput os inputPath mustExist = .ok t) : inputPath ≠ [] := by
  cases mustExist with
  | true => exact (canonicalizeExisting_ok h).1
  | false => exact (canonicalizeForWrite_ok h).1

/-! ## The deny list -/

/-- A failed check for some entry fails the whole loop. -/
theorem checkDenied_ok {os : Os} {resolved : Bytes} {items : List Bytes} :
    checkDenied os resolved items = .ok () ↔
      ∀ item ∈ items, ∃ denied, canonicalizeForWrite os item = .ok denied ∧
        pathHasPrefix resolved denied = false := by
  induction items with
  | nil => simp [checkDenied]
  | cons item rest ih =>
    rw [checkDenied, Res.bind_eq_ok, List.forall_mem_cons, ← ih]
    constructor
    · rintro ⟨denied, hd, h⟩
      split at h
      · exact absurd h (Status.securityDenied_ne_ok _ _)
      · rename_i hp
        exact ⟨⟨denied, hd, by simpa using hp⟩, h⟩
    · rintro ⟨⟨denied, hd, hp⟩, h⟩
      exact ⟨denied, hd, by rw [hp]; exact h⟩

theorem validatePath_ok {os : Os} {policy : SecurityPolicy} {inputPath : Bytes} {mustExist : Bool}
    (h : validatePath os policy inputPath mustExist = .ok ()) :
    ∃ resolved, workspaceResolve os policy inputPath mustExist = .ok resolved ∧
      checkDenied os resolved policy.deniedPaths = .ok () := by
  unfold validatePath at h
  obtain ⟨resolved, hr, h⟩ := Res.bind_eq_ok.mp h
  obtain ⟨⟨⟩, hd, -⟩ := Res.bind_eq_ok.mp h
  exact ⟨resolved, hr, hd⟩

theorem workspaceResolve_ok {os : Os} {policy : SecurityPolicy} {inputPath t : Bytes}
    {mustExist : Bool} (h : workspaceResolve os policy inputPath mustExist = .ok t) :
    canonicalizeInput os inputPath mustExist = .ok t := by
  unfold workspaceResolve at h
  split at h
  · exact absurd h (Status.invalidArgument_ne_ok _ _)
  · obtain ⟨root, -, h⟩ := Res.bind_eq_ok.mp h
    obtain ⟨resolved, hr, h⟩ := Res.bind_eq_ok.mp h
    split at h
    · exact absurd h (Status.securityDenied_ne_ok _ _)
    · rw [hr, h]

/-- Where an entry of the deny list really is: `realpath` of the entry when it exists, the real location
    of its parent with the leaf appended when it does not. -/
def realLocation (os : Os) (entry : Bytes) : Option (List Bytes) :=
  match makeAbsolute os entry with
  | .error _ => none
  | .ok absolute =>
      match os.realpath absolute with
      | some p => some p.comps
      | none => (canonicalizeForWrite os entry).toOption.map components

/-- **The contract of a deny entry**: under every policy that lists it, a path whose canonical form lies
    at or below the entry's real location does not validate. -/
def DeniedEffective (os : Os) (entry inputPath : Bytes) (mustExist : Bool) : Prop :=
  ∀ policy : SecurityPolicy, entry ∈ policy.deniedPaths → ∀ resolved location,
    workspaceResolve os policy inputPath mustExist = .ok resolved →
    realLocation os entry = some location → location <+: components resolved →
    validatePath os policy inputPath mustExist ≠ .ok ()

/-- The byte test against a denied entry, in components. -/
theorem denied_covers_iff {os : Os} {entry inputPath denied resolved : Bytes} {mustExist : Bool}
    (hd : canonicalizeForWrite os entry = .ok denied)
    (hr : canonicalizeInput os inputPath mustExist = .ok resolved) :
    pathHasPrefix resolved denied = true ↔ components denied <+: components resolved ∧
      (¬AtRootLevel os entry ∨ (mustExist = false ∧ AtRootLevel os inputPath)) := by
  rcases canonicalizeForWrite_written hd with ⟨hroot, leaf, hleaf, rfl⟩ | ⟨hroot, q, hlen, rfl⟩
  · rcases canonicalizeInput_written hr with ⟨hlevel, leaf', hleaf', rfl⟩ | ⟨hlevel, p, rfl⟩
    · rw [pathHasPrefix_rootLeaf_rootLeaf hleaf'.1.2, components_rootLeaf hleaf,
        components_rootLeaf hleaf']
      simp [hlevel, eq_comm]
    -- the entry is "//leaf", the path is canonical: the second bytes differ
    · rw [pathHasPrefix_text_rootLeaf]
      simp only [Bool.false_eq_true, false_iff, not_and]
      rintro - (h | h)
      · exact h hroot
      · exact hlevel h
  · rcases canonicalizeInput_written hr with ⟨hlevel, leaf', hleaf', rfl⟩ | ⟨hlevel, p, rfl⟩
    · -- a child of the root lies below no entry two levels down
      rw [pathHasPrefix_rootLeaf_text, components_rootLeaf hleaf', components_text]
      constructor
      · intro h; rw [h] at hlen; exact absurd hlen (by decide)
      · rintro ⟨h, -⟩
        have := h.length_le
        rw [List.length_singleton] at this
        omega
    · rw [pathHasPrefix_text, components_text, components_text]
      have hne : q.comps ≠ [] := List.ne_nil_of_length_pos (by omega)
      simp [hne, hroot]

/-- A policy that only denies one entry. -/
theorem validatePath_deny_only {os : Os} {entry inputPath denied resolved : Bytes} {mustExist : Bool}
    (hd : canonicalizeForWrite os entry = .ok denied)
    (hr : canonicalizeInput os inputPath mustExist = .ok resolved) :
    workspaceResolve os { deniedPaths := [entry] } inputPath mustExist = .ok resolved ∧
    (pathHasPrefix resolved denied = false →
      validatePath os { deniedPaths := [entry] } inputPath mustExist = .ok ()) := by
  have hres : workspaceResolve os { deniedPaths := [entry] } inputPath mustExist = .ok resolved := by
    rw [workspaceResolve, if_neg (canonicalizeInput_ne_nil hr)]
    simp [resolveRoot, hr, bind, Except.bind]
  refine ⟨hres, fun hno => ?_⟩
  have hdeny : checkDenied os resolved [entry] = .ok () :=
    checkDenied_ok.mpr (by simpa using ⟨denied, hd, hno⟩)
  simp [validatePath, hres, hdeny, bind, Except.bind]

/-- **When a deny entry is effective**: an entry that canonicalizes stops a path at or below its real
    location exactly when the path also lies at or below the entry as SPELLED (real parent plus leaf; the
    two differ when the leaf is a symbolic link) and the entry is not a child of the root directory — or
    the path is one too, and is resolved for writing. -/
theorem deniedEffective_iff (os : Os) (entry inputPath denied : Bytes) (mustExist : Bool)
    (hd : canonicalizeForWrite os entry = .ok denied) :
    DeniedEffective os entry inputPath mustExist ↔
      ∀ resolved location, canonicalizeInput os inputPath mustExist = .ok resolved →
        realLocation os entry = some location → location <+: components resolved →
        components denied <+: components resolved ∧
          (¬AtRootLevel os entry ∨ (mustExist = false ∧ AtRootLevel os inputPath)) := by
  constructor
  · intro h resolved location hr hloc hbelow
    obtain ⟨hres, hpass⟩ := validatePath_deny_only hd hr
    rw [← denied_covers_iff hd hr]
    by_contra hno
    -- the policy that denies this entry and nothing else lets the path through
    exact h { deniedPaths := [entry] } (List.mem_singleton.mpr rfl) resolved location hres hloc hbelow
      (hpass (by simpa using hno))
  · intro h policy hmem resolved location hres hloc hbelow hok
    obtain ⟨resolved', hres', hdeny⟩ := validatePath_ok hok
    obtain rfl : resolved' = resolved := Except.ok.inj (hres'.symm.trans hres)
    obtain ⟨denied', hd', hno⟩ := checkDenied_ok.mp hdeny entry hmem
    obtain rfl : denied' = denied := Except.ok.inj (hd'.symm.trans hd)
    have hr := workspaceResolve_ok hres
    -- a policy that validated the path did not find it below the entry
    have hcover := (denied_covers_iff hd hr).mpr (h _ location hr hloc hbelow)
    rw [hno] at hcover
    exact absurd hcover Bool.false_ne_true

/-! ## The workspace root -/

/-- Under `workspace_only` a path is admitted exactly when the byte test accepts it. -/
theorem workspaceResolve_admits_iff {os : Os} {policy : SecurityPolicy}
    {inputPath root resolved : Bytes} {mustExist : Bool} (hw : policy.workspaceOnly = true)
    (hroot : canonicalizeExisting os policy.workspaceRoot = .ok root)
    (hr : canonicalizeInput os inputPath mustExist = .ok resolved) :
    (∃ t, workspaceResolve os policy inputPath mustExist = .ok t) ↔
      pathHasPrefix resolved root = true := by
  rw [workspaceResolve, if_neg (canonicalizeInput_ne_nil hr), resolveRoot, if_pos (Or.inl hw), hroot,
    hr]
  simp only [bind, Except.bind, hw, true_and]
  cases pathHasPrefix resolved root <;> simp

/-- The condition under which the byte test agrees with component containment: a root other than `/` is
    compared with anything but its own double-slash form, and `/` is compared with itself or with a
    double-slash form. -/
def RootComparable (os : Os) (inputPath root resolved : Bytes) (mustExist : Bool) : Prop :=
  if components root = [] then
    components resolved = [] ∨ (mustExist = false ∧ AtRootLevel os inputPath)
  else ¬((mustExist = false ∧ AtRootLevel os inputPath) ∧ components resolved = components root)

theorem pathHasPrefix_root_iff {os : Os} {inputPath resolved : Bytes} {mustExist : Bool}
    (r : CanonPath) (hr : canonicalizeInput os inputPath mustExist = .ok resolved) :
    (pathHasPrefix resolved r.text = true ↔ components r.text <+: components resolved) ↔
      RootComparable os inputPath r.text resolved mustExist := by
  unfold RootComparable
  rw [components_text]
  rcases canonicalizeInput_written hr with ⟨hlevel, leaf, hleaf, rfl⟩ | ⟨hlevel, p, rfl⟩
  -- for writing, below the root directory: "//leaf" has the prefix "/" and no other canonical text
  · rw [pathHasPrefix_rootLeaf_text, components_rootLeaf hleaf]
    by_cases hnil : r.comps = []
    · simp [hnil, hlevel]
    · have hsingle : r.comps <+: [leaf] ↔ [leaf] = r.comps := by
        constructor
        · intro h
          have hlen := h.length_le
          have hpos := List.length_pos_of_ne_nil hnil
          rw [List.length_singleton] at hlen
          exact (h.eq_of_length (by rw [List.length_singleton]; omega)).symm
        · intro h; exact h ▸ List.prefix_refl [leaf]
      rw [if_neg hnil, hsingle]
      simp [hnil, hlevel]
  · rw [pathHasPrefix_text, components_text]
    by_cases hnil : r.comps = []
    · simp [hnil, hlevel]
    · simp [hnil, hlevel]

/-! ## Opening the parent without a workspace -/

/-- The refusal `sc_workspace_open_parent` gives a path outside its root. -/
def pathEscape : Res (Nat × Bytes) := Status.securityDenied "sc.security.path_escape"

/-- Without `workspace_only` the opened root is `/`, and every validated path is refused as an escape —
    unless it is a child of the root directory and that directory cannot be opened. -/
theorem workspaceOpenParent_escape_iff {os : Os} {policy : SecurityPolicy} {inputPath : Bytes}
    (hw : policy.workspaceOnly = false) (hv : validatePath os policy inputPath false = .ok ()) :
    workspaceOpenParent os policy inputPath ≠ pathEscape ↔
      AtRootLevel os inputPath ∧ os.openDir [slash] = none := by
  obtain ⟨resolved, hres, -⟩ := validatePath_ok hv
  have hr : canonicalizeForWrite os inputPath = .ok resolved := workspaceResolve_ok hres
  have hrootText : CanonPath.root.text = [slash] := CanonPath.text_root rfl
  unfold workspaceOpenParent
  simp only [hv, hres, openRoot, hw, Bool.false_eq_true, if_false, bind, Except.bind, if_true]
  rcases canonicalizeForWrite_written hr with ⟨hlevel, leaf, hleaf, rfl⟩ | ⟨hlevel, p, hlen, rfl⟩
  · -- "//leaf" passes the prefix test, but its first segment is empty
    have hpre : pathHasPrefix (slash :: slash :: leaf) [slash] = true := by
      rw [← hrootText, pathHasPrefix_rootLeaf_text]; rfl
    have hcut : cut slash (slash :: leaf) = some ([], leaf) := cut_eq_some.mpr ⟨rfl, hleaf.1.2⟩
    rw [hpre]
    cases hopen : os.openDir [slash] with
    | none => simp [hlevel, pathEscape, Status.io, Status.securityDenied]
    | some fd => simp [hcut, pathEscape, openSegments, Status.securityDenied]
  · have hpre : pathHasPrefix p.text [slash] = false := by
      rw [← hrootText, ← Bool.not_eq_true, pathHasPrefix_text]
      rintro ⟨-, h | h⟩
      · exact h rfl
      · rw [h] at hlen; exact absurd hlen (by decide)
    simp [hpre, hlevel, pathEscape]

/-- **When containment is component-wise.**  On canonical texts the byte test is component-wise
    containment exactly when the container is not `/` (or both are `/`); `sc_workspace_resolve` under
    `workspace_only` therefore admits exactly what lies in the root, as long as the two are
    `RootComparable`; and `sc_workspace_open_parent` without `workspace_only` refuses EVERY validated path
    as an escape, as long as `/` can be opened. -/
theorem containment_iff (p r : CanonPath) (os : Os) (policy : SecurityPolicy)
    (inputPath root resolved : Bytes) (mustExist : Bool) :
    ((pathHasPrefix p.text r.text = true ↔ r.comps <+: p.comps) ↔ (r.comps ≠ [] ∨ p.comps = [])) ∧
    (policy.workspaceOnly = true → canonicalizeExisting os policy.workspaceRoot = .ok root →
      canonicalizeInput os inputPath mustExist = .ok resolved →
      (((∃ t, workspaceResolve os policy inputPath mustExist = .ok t) ↔
          components root <+: components resolved) ↔
        RootComparable os inputPath root resolved mustExist)) ∧
    (policy.workspaceOnly = false → validatePath os policy inputPath false = .ok () →
      (workspaceOpenParent os policy inputPath ≠ pathEscape ↔
        AtRootLevel os inputPath ∧ os.openDir [slash] = none)) := by
  refine ⟨?_, ?_, fun hw hv => workspaceOpenParent_escape_iff hw hv⟩
  · rw [pathHasPrefix_text]
    constructor
    -- below "/" every path is contained, and the byte test says so of "/" alone
    · intro h
      by_contra hno
      rw [not_or, not_not] at hno
      have hin : r.comps <+: p.comps := by rw [hno.1]; exact List.nil_prefix
      rcases (h.mpr hin).2 with hne | hnil
      · exact hne hno.1
      · exact hno.2 hnil
    · intro h; exact ⟨fun hin => hin.1, fun hin => ⟨hin, h⟩⟩
  · intro hw hroot hr
    obtain ⟨-, container, -, rfl⟩ := canonicalizeExisting_ok hroot
    rw [workspaceResolve_admits_iff hw hroot hr]
    exact pathHasPrefix_root_iff container hr

/-! ## A small system to run the checks on -/

/-- The components of a short absolute path. -/
def canonOf (cs : List Bytes) (h : ∀ c ∈ cs, IsComponent c) : CanonPath := ⟨cs, h⟩

instance (c : Bytes) : Decidable (IsComponent c) :=
  inferInstanceAs (Decidable ((c ≠ [] ∧ slash ∉ c) ∧ c ≠ str "." ∧ c ≠ str ".."))

/-- A system with the directories `/`, `/etc`, `/root` and `/root/.ssh`, and a file in two of them; every
    path is already canonical, and the home directory is `/root`. -/
def smallOs : Os where
  realpath path :=
    if path = str "/" then some .root
    else if path = str "/etc" then some (canonOf [str "etc"] (by decide))
    else if path = str "/etc/passwd" then some (canonOf [str "etc", str "passwd"] (by decide))
    else if path = str "/root" then some (canonOf [str "root"] (by decide))
    else if path = str "/root/.ssh" then some (canonOf [str "root", str ".ssh"] (by decide))
    else if path = str "/root/.ssh/id" then
      some (canonOf [str "root", str ".ssh", str "id"] (by decide))
    else none
  home := some (str "/root")
  getcwd := some (str "/root")
  openDir _ := some 3
  openatDir _ _ := .ok 4

/-- The default deny list contains `/etc`, and still `/etc/passwd` validates once the workspace check is
    off. -/
theorem denied_etc_validates :
    ¬DeniedEffective smallOs (str "/etc") (str "/etc/passwd") true := by
  intro h
  refine h { policyInitDefaults with workspaceOnly := false } ?_ (str "/etc/passwd") [str "etc"]
    rfl rfl ?_ rfl
  · decide
  · decide

/-- A deny entry below the root directory is effective. -/
theorem denied_ssh_effective :
    canonicalizeForWrite smallOs (str "~/.ssh") = .ok (str "/root/.ssh") ∧
    DeniedEffective smallOs (str "~/.ssh") (str "/root/.ssh/id") true := by
  refine ⟨rfl, (deniedEffective_iff smallOs _ _ (str "/root/.ssh") true rfl).mpr ?_⟩
  intro resolved location hr _ _
  obtain rfl : str "/root/.ssh/id" = resolved := Except.ok.inj hr
  refine ⟨by decide, Or.inl ?_⟩
  rintro ⟨parent, hparent, hnil⟩
  obtain rfl : canonOf [str "root"] (by decide) = parent := Option.some.inj hparent
  exact absurd hnil (by decide)

/-- `/etc` lies below `/`, and the byte test says it does not; a write to `/etc/passwd` validates without
    a workspace, and its parent is refused as an escape. -/
theorem containment_fails_at_root :
    (¬∀ p r : CanonPath, pathHasPrefix p.text r.text = true ↔ r.comps <+: p.comps) ∧
    validatePath smallOs {} (str "/etc/passwd") false = .ok () ∧
    workspaceOpenParent smallOs {} (str "/etc/passwd") = pathEscape := by
  refine ⟨fun h => ?_, rfl, rfl⟩
  exact absurd ((h (canonOf [str "etc"] (by decide)) .root).mpr (by decide)) (by decide)

/-- The root directory comparison, with every hypothesis met: `/root/.ssh/id` is admitted below `/root`. -/
theorem containment_small :
    (∃ t, workspaceResolve smallOs { workspaceRoot := str "/root", workspaceOnly := true }
      (str "/root/.ssh/id") true = .ok t) ∧
    workspaceOpenParent smallOs {} (str "/etc/passwd") = pathEscape := by
  refine ⟨?_, ?_⟩
  · obtain ⟨-, hresolve, -⟩ := containment_iff .root .root smallOs
      { workspaceRoot := str "/root", workspaceOnly := true } (str "/root/.ssh/id") (str "/root")
      (str "/root/.ssh/id") true
    refine ((hresolve rfl rfl rfl).mpr ?_).mpr (by decide)
    rw [RootComparable, if_neg (by decide)]
    exact fun h => absurd h.1.1 (by decide)
  · obtain ⟨-, -, hopen⟩ := containment_iff .root .root smallOs {} (str "/etc/passwd") [] [] false
    by_contra hne
    exact absurd ((hopen rfl rfl).mp hne).2 (by decide)

end SmolClaw.Security
