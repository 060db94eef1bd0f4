/-
  Static files (`static_find_root`, `static_relative_path_safe`, `static_open_file`,
  `src/gateway/gateway.c`): which names reach `openat`.

  1. **Names** — `staticNames` lists what the walk passes to `openat`, in order.

  2. **Paths** — what the part of a path below a root is, and what is UNSAFE about a path, said without
     the code's own splitting (`FirstRoot`, `UnsafePath`).

  3. **Confinement** — a raw request opens only plain names, which spell the part below the first root
     of its path, and none at all when that part is unsafe (`static_confined`).  The prefix itself is not
     looked at: under a root `/a/` the path `/a//x` opens `x` (`prefix_unchecked`).
-/
import SmolClaw.Gateway.PairingBudget
import SmolClaw.Gateway.JsonRpcText
import SmolClaw.Lib.Separated

namespace SmolClaw.Gateway

open Lib.Run Lib.Infix Lib.Separated

variable {E C D : Type}

/-! ## Names -/

section Names

variable (sv : Services E C D) (env : E)

/-- The names that `static_open_file` passes to `openat`, in order. -/
def staticNames : D → List Bytes → List Bytes
  | _, [] => []
  | fd, segment :: rest =>
    if segment.isEmpty || decide (255 < segment.length) then []
    else
      let name := segment.takeWhile (· ≠ 0)
      match sv.openAt env fd name (!rest.isEmpty) with
      | .error _ => [name]
      | .ok child => name :: staticNames child rest

/-- The names that `handle_static` passes on. -/
def fileNames (server : Server C) (path : Bytes) : List Bytes :=
  match staticFindRoot server path with
  | none => []
  | some (root, relative) =>
    if !staticRelativePathSafe relative || root.filesystemRoot.isEmpty || relative.isEmpty then []
    else
      match sv.openRoot env root.filesystemRoot with
      | none => []
      | some fd => staticNames sv env fd (pathSegments [] relative)

/-- The names of a request: those of `handle_static`, if that is its handler. -/
def requestNames (server : Server C) (request : GatewayRequest) : List Bytes :=
  match routeFind server request.path request.method with
  | .error _ => []
  | .ok route =>
    if answerTo sv env server request = .handled ∧ route.handler = .handleStatic then
      fileNames sv env (enforceGates (sv.time env) server route request).1 request.path
    else []

/-- The names of a raw request, a nested one included. -/
def httpNames (server : Server C) (raw : Bytes) : List Bytes :=
  (requestsOf sv env server (.http raw)).flatMap fun n => requestNames sv env n.1 n.2

/-- The names of a walk are the first segments, all of them when the walk succeeds. -/
theorem staticNames_eq :
    ∀ (segments : List Bytes) (fd : D), (∀ s ∈ segments, (0 : UInt8) ∉ s) →
      ∃ rest, segments = staticNames sv env fd segments ++ rest ∧
        (∀ file, staticWalk sv env fd segments = .ok file → rest = []) := by
  intro segments
  induction segments with
  | nil => exact fun _ _ => ⟨[], rfl, fun _ _ => rfl⟩
  | cons segment more ih =>
    intro fd hplain
    have hname : segment.takeWhile (· ≠ 0) = segment := by
      rw [List.takeWhile_eq_self_iff]
      intro b hb
      rw [decide_eq_true_eq]
      rintro rfl
      exact hplain segment List.mem_cons_self hb
    rw [staticNames, staticWalk]
    split
    · exact ⟨segment :: more, rfl, fun file hfile => nomatch hfile⟩
    · dsimp only
      rw [hname]
      cases sv.openAt env fd segment (!more.isEmpty) with
      | error e =>
        refine ⟨more, rfl, fun file hfile => ?_⟩
        cases e <;> exact nomatch hfile
      | ok child =>
        obtain ⟨rest, hrest, hall⟩ := ih child fun s hs => hplain s (List.mem_cons_of_mem _ hs)
        exact ⟨rest, congrArg (segment :: ·) hrest, hall⟩

end Names

/-! ## Paths -/

/-- `below` stands behind the prefix of the root, on a component boundary. -/
def RootOf (root : StaticRoot) (path below : Bytes) : Prop :=
  root.urlPrefix ≠ [] ∧ path = root.urlPrefix ++ below ∧ Boundary (chr '/') below

/-- `below` is what the first root that matches leaves of the path. -/
def FirstRoot (roots : List StaticRoot) (path below : Bytes) : Prop :=
  ∃ before root after, roots = before ++ root :: after ∧ RootOf root path below ∧
    ∀ r ∈ before, ∀ other, ¬ RootOf r path other

/-- The file asked for: `index.html` where nothing, or a lone slash, is left. -/
def fileAsked (below : Bytes) : Bytes := if below.tail = [] then str "index.html" else below.tail

/-- `c` is a component of the path: what stands behind a slash, up to the next one. -/
def IsComponent (c path : Bytes) : Prop :=
  chr '/' ∉ c ∧ ∃ front back, path = front ++ chr '/' :: (c ++ back) ∧ Boundary (chr '/') back

/-- The percent-encoded dot, slash and backslash. -/
def encodedBytes : List Bytes := [str "%2e", str "%2E", str "%2f", str "%2F", str "%5c", str "%5C"]

/-- An empty, `.` or `..` component, a backslash, or an encoded dot, slash or backslash. -/
def UnsafePath (path : Bytes) : Prop :=
  (∃ c ∈ [[], str ".", str ".."], IsComponent c path) ∨ chr '\\' ∈ path ∨
    ∃ code ∈ encodedBytes, code <:+: path

/-- **The code's prefix test** is the component boundary. -/
theorem matchesPath_iff (root : StaticRoot) (path : Bytes) :
    root.matchesPath path = true ↔ ∃ below, RootOf root path below := by
  unfold StaticRoot.matchesPath
  simp only [Bool.and_eq_true, Bool.or_eq_true, Bool.not_eq_true', List.isEmpty_eq_false_iff, beq_iff_eq,
    List.isPrefixOf_iff_prefix]
  constructor
  · rintro ⟨⟨hset, below, rfl⟩, hend⟩
    refine ⟨below, hset, rfl, ?_⟩
    rw [List.length_append, List.drop_left] at hend
    cases below with
    | nil => exact Or.inl rfl
    | cons c t =>
      rcases hend with hlength | hslash
      · rw [List.length_cons] at hlength
        omega
      · exact Or.inr ⟨t, by rw [Option.some.inj hslash]⟩
  · rintro ⟨below, hset, rfl, hend⟩
    refine ⟨⟨hset, List.prefix_append _ _⟩, ?_⟩
    rw [List.drop_left]
    rcases hend with rfl | ⟨t, rfl⟩
    · exact Or.inl (by rw [List.append_nil])
    · exact Or.inr rfl

/-- **The first root** is the one the code finds, and it gives the file asked for. -/
theorem staticFindRoot_eq {server : Server C} {path below : Bytes}
    (h : FirstRoot server.staticRoots path below) :
    ∃ root, staticFindRoot server path = some (root, fileAsked below) := by
  obtain ⟨before, root, after, hroots, hroot, hbefore⟩ := h
  have hfind : server.staticRoots.find? (·.matchesPath path) = some root := by
    refine List.find?_eq_some_iff_append.mpr
      ⟨(matchesPath_iff root path).mpr ⟨below, hroot⟩, before, after, hroots, ?_⟩
    intro r hr
    rw [Bool.not_eq_true', ← Bool.not_eq_true]
    intro hmatch
    obtain ⟨other, hother⟩ := (matchesPath_iff r path).mp hmatch
    exact hbefore r hr other hother
  obtain ⟨-, hpath, hend⟩ := hroot
  have hdrop : path.drop root.urlPrefix.length = below := by rw [hpath, List.drop_left]
  have htail : (if below.head? = some (chr '/') then below.tail else below) = below.tail := by
    rcases hend with rfl | ⟨t, rfl⟩ <;> rfl
  refine ⟨root, ?_⟩
  rw [staticFindRoot, hfind, Option.map_some]
  dsimp only
  rw [hdrop, htail, fileAsked]
  cases below.tail <;> rfl

/-- A root the code finds is the first one that matches. -/
theorem firstRoot_of_find {server : Server C} {path : Bytes} {found : StaticRoot × Bytes}
    (h : staticFindRoot server path = some found) :
    ∃ below, FirstRoot server.staticRoots path below ∧ found.2 = fileAsked below := by
  obtain ⟨root, hfind, -⟩ := Option.map_eq_some_iff.mp h
  obtain ⟨hmatch, before, after, hroots, hbefore⟩ := List.find?_eq_some_iff_append.mp hfind
  obtain ⟨below, hroot⟩ := (matchesPath_iff root path).mp hmatch
  have hfirst : FirstRoot server.staticRoots path below := by
    refine ⟨before, root, after, hroots, hroot, fun r hr other hother => ?_⟩
    have hno := hbefore r hr
    rw [(matchesPath_iff r path).mpr ⟨other, hother⟩] at hno
    exact nomatch hno
  obtain ⟨root', hfound⟩ := staticFindRoot_eq hfirst
  rw [h] at hfound
  exact ⟨below, hfirst, congrArg Prod.snd (Option.some.inj hfound)⟩

/-! ### Segments -/

/-- The segments spell the text, each behind a slash. -/
theorem render_pathSegments (l : Bytes) :
    ∀ segment, render (chr '/') (pathSegments segment l) = chr '/' :: (segment ++ l) := by
  induction l with
  | nil => intro segment; rfl
  | cons c l ih =>
    intro segment
    rw [pathSegments]
    split
    · next hslash => rw [render_cons, ih, hslash]; rfl
    · rw [ih, List.append_assoc]; rfl

/-- No segment has a byte that the text has not. -/
theorem mem_pathSegments {b : UInt8} (l : Bytes) :
    ∀ segment, ∀ s ∈ pathSegments segment l, b ∈ s → b ∈ segment ∨ b ∈ l := by
  induction l with
  | nil =>
    intro segment s hs hb
    obtain rfl := List.mem_singleton.mp hs
    exact Or.inl hb
  | cons c l ih =>
    intro segment s hs hb
    rw [pathSegments] at hs
    split at hs
    · rcases List.mem_cons.mp hs with rfl | hs
      · exact Or.inl hb
      · rcases ih [] s hs hb with hnone | hl
        · exact absurd hnone List.not_mem_nil
        · exact Or.inr (List.mem_cons_of_mem c hl)
    · rcases ih _ s hs hb with hfront | hl
      · rcases List.mem_append.mp hfront with hsegment | hc
        · exact Or.inl hsegment
        · exact Or.inr (List.mem_singleton.mp hc ▸ List.mem_cons_self)
      · exact Or.inr (List.mem_cons_of_mem c hl)

/-- A segment ends at the next slash. -/
theorem slash_not_mem_pathSegments (l : Bytes) :
    ∀ segment, chr '/' ∉ segment → ∀ s ∈ pathSegments segment l, chr '/' ∉ s := by
  induction l with
  | nil =>
    intro segment hsegment s hs
    obtain rfl := List.mem_singleton.mp hs
    exact hsegment
  | cons c l ih =>
    intro segment hsegment s hs
    rw [pathSegments] at hs
    split at hs
    · rcases List.mem_cons.mp hs with rfl | hs
      · exact hsegment
      · exact ih [] List.not_mem_nil s hs
    · next hslash =>
      refine ih _ ?_ s hs
      rw [List.mem_append, List.mem_singleton]
      rintro (hfront | hc)
      · exact hsegment hfront
      · exact hslash hc.symm

/-- A slash ends a segment. -/
theorem pathSegments_append (a b : Bytes) :
    ∀ segment, pathSegments segment (a ++ chr '/' :: b) = pathSegments segment a ++ pathSegments [] b := by
  induction a with
  | nil => intro segment; exact if_pos rfl
  | cons c a ih =>
    intro segment
    rw [List.cons_append, pathSegments, pathSegments]
    split
    · rw [ih]; rfl
    · rw [ih]

/-- A stretch without a slash is one segment. -/
theorem pathSegments_plain {c : Bytes} (h : chr '/' ∉ c) :
    ∀ segment, pathSegments segment c = [segment ++ c] := by
  induction c with
  | nil => intro segment; rw [pathSegments, List.append_nil]
  | cons b c ih =>
    intro segment
    have hb : b ≠ chr '/' := fun hb => h (hb ▸ List.mem_cons_self)
    rw [pathSegments, if_neg hb, ih fun hc => h (List.mem_cons_of_mem b hc), List.append_assoc]
    rfl

/-- **A component below a root is a segment.** -/
theorem component_mem {c relative : Bytes} (h : IsComponent c (chr '/' :: relative)) :
    c ∈ pathSegments [] relative := by
  obtain ⟨hplain, front, back, heq, hback⟩ := h
  have hfirst : c ∈ pathSegments [] (c ++ back) := by
    rcases hback with rfl | ⟨t, rfl⟩
    · rw [List.append_nil, pathSegments_plain hplain]
      exact List.mem_cons_self
    · rw [pathSegments_append, pathSegments_plain hplain]
      exact List.mem_append_left _ List.mem_cons_self
  cases front with
  | nil =>
    rw [(List.cons.inj heq).2]
    exact hfirst
  | cons b front =>
    have hrelative : relative = front ++ chr '/' :: (c ++ back) := (List.cons.inj heq).2
    rw [hrelative, pathSegments_append]
    exact List.mem_append_right _ hfirst

/-- An encoded byte is seen wherever it stands. -/
theorem encoded_seen {code : Bytes} (hcode : code ∈ encodedBytes) (back : Bytes) :
    ∀ front, staticPathHasEncodedTraversal (front ++ (code ++ back)) = true := by
  have hstart : staticPathHasEncodedTraversal (code ++ back) = true := by
    simp only [encodedBytes, List.mem_cons, List.not_mem_nil, or_false] at hcode
    rcases hcode with rfl | rfl | rfl | rfl | rfl | rfl <;> rfl
  intro front
  induction front with
  | nil => exact hstart
  | cons b front ih =>
    show ((b == chr '%' && _) || staticPathHasEncodedTraversal (front ++ (code ++ back))) = true
    rw [ih, Bool.or_true]

/-- **An unsafe part is refused.** -/
theorem unsafe_refused {relative : Bytes} (h : UnsafePath (chr '/' :: relative)) :
    staticRelativePathSafe relative = false := by
  by_contra hsafe
  rw [Bool.not_eq_false, staticRelativePathSafe, Bool.and_eq_true, Bool.and_eq_true, Bool.and_eq_true,
    List.all_eq_true] at hsafe
  obtain ⟨⟨⟨-, hencoded⟩, hbackslash⟩, hsegments⟩ := hsafe
  rcases h with ⟨c, hc, hcomponent⟩ | hmem | ⟨code, hcode, front, back, heq⟩
  · have hsegment := hsegments c (component_mem hcomponent)
    simp only [List.mem_cons, List.not_mem_nil, or_false] at hc
    rcases hc with rfl | rfl | rfl <;> exact nomatch hsegment
  · rcases List.mem_cons.mp hmem with heq | hmem
    · exact absurd heq (by decide)
    · rw [List.contains_iff_mem.mpr hmem] at hbackslash
      exact nomatch hbackslash
  · cases front with
    | nil =>
      have hhead : ∀ code ∈ encodedBytes, code.head? = some (chr '%') := by decide
      have hno := congrArg List.head? heq
      rw [List.nil_append, List.head?_append, hhead code hcode, Option.some_or] at hno
      exact absurd (Option.some.inj hno) (by decide)
    | cons b front =>
      have hseen := encoded_seen hcode back front
      rw [List.cons_append, List.cons_append, List.append_assoc] at heq
      rw [(List.cons.inj heq).2] at hseen
      rw [hseen] at hencoded
      exact nomatch hencoded

/-! ## Confinement -/

/-- No byte of a line is new. -/
theorem mem_crlfLines {b : UInt8} (text : Bytes) :
    ∀ line, ∀ l ∈ crlfLines line text, b ∈ l → b ∈ line ∨ b ∈ text := by
  intro line
  induction line, text using crlfLines.induct with
  | case1 line =>
    intro l hl hb
    rw [crlfLines, List.mem_singleton] at hl
    exact Or.inl (hl ▸ hb)
  | case2 line c =>
    intro l hl hb
    rw [crlfLines, List.mem_singleton] at hl
    exact List.mem_append.mp (hl ▸ hb)
  | case3 line c d rest hend ih =>
    intro l hl hb
    rw [crlfLines, if_pos hend] at hl
    rcases List.mem_cons.mp hl with rfl | hl
    · exact Or.inl hb
    · rcases ih l hl hb with hnone | hrest
      · exact absurd hnone List.not_mem_nil
      · exact Or.inr (List.mem_cons_of_mem c (List.mem_cons_of_mem d hrest))
  | case4 line c d rest hend ih =>
    intro l hl hb
    rw [crlfLines, if_neg hend] at hl
    rcases ih l hl hb with hline | hrest
    · rcases List.mem_append.mp hline with hold | hc
      · exact Or.inl hold
      · exact Or.inr (List.mem_singleton.mp hc ▸ List.mem_cons_self)
    · exact Or.inr (List.mem_cons_of_mem c hrest)

/-- Headers leave the path alone. -/
theorem foldl_applyHeader_path (headers : List Bytes) :
    ∀ request : GatewayRequest, (headers.foldl applyHeader request).path = request.path := by
  have hone : ∀ (request : GatewayRequest) (line : Bytes),
      (applyHeader request line).path = request.path := by
    intro request line
    unfold applyHeader
    dsimp only
    split_ifs <;> rfl
  induction headers with
  | nil => intro request; rfl
  | cons line headers ih => intro request; exact (ih _).trans (hone request line)

/-- **A parsed path holds no NUL**, so a C string of it is the whole of it. -/
theorem parseHttpRequest_path {raw : Bytes} {request : GatewayRequest}
    (h : parseHttpRequest raw = .ok request) : (0 : UInt8) ∉ request.path := by
  unfold parseHttpRequest at h
  split at h
  · exact nomatch h
  split at h
  · exact nomatch h
  next hnul =>
    split at h
    · exact nomatch h
    next head behind hhead =>
      split at h
      · exact nomatch h
      next line headers hlines =>
        split at h
        · exact nomatch h
        next method path hline =>
          split at h
          · exact nomatch h
          next m _ =>
            obtain rfl := Except.ok.inj h
            rw [foldl_applyHeader_path]
            show (0 : UInt8) ∉ path
            intro hpath
            refine hnul (List.contains_iff_mem.mpr ?_)
            -- the path is part of the line, the line of the head, and the head of the text
            have hinline : (0 : UInt8) ∈ line := by
              unfold requestLine at hline
              dsimp only at hline
              split at hline
              · rw [← (Prod.mk.inj (Option.some.inj hline)).2] at hpath
                exact List.mem_of_mem_drop ((List.takeWhile_sublist _).subset hpath)
              · exact nomatch hline
            have hfirst := mem_crlfLines head [] line (hlines ▸ List.mem_cons_self) hinline
            rcases hfirst with hnone | hinhead
            · exact absurd hnone List.not_mem_nil
            · rw [(firstInfix_eq_some (by decide) hhead).1]
              exact List.mem_append_left _ hinhead

section Confined

variable {sv : Services E C D} {env : E} {server : Server C} {request : GatewayRequest}

/-- The file asked for holds no NUL. -/
theorem fileAsked_plain {path below : Bytes} (hnul : (0 : UInt8) ∉ path)
    (hfirst : FirstRoot server.staticRoots path below) : (0 : UInt8) ∉ fileAsked below := by
  obtain ⟨_, root, _, -, ⟨-, rfl, -⟩, -⟩ := hfirst
  rw [fileAsked]
  split
  · decide
  · exact fun hmem => hnul (List.mem_append_right _ (List.mem_of_mem_tail hmem))

/-- A file that `static_open_file` opens was walked to. -/
theorem staticOpenFile_ok {root : StaticRoot} {relative : Bytes} {file fd : D}
    (h : staticOpenFile sv env root relative = .ok file)
    (hroot : sv.openRoot env root.filesystemRoot = some fd) :
    staticWalk sv env fd (pathSegments [] relative) = .ok file := by
  unfold staticOpenFile at h
  rw [hroot] at h
  split at h
  · exact nomatch h
  · dsimp only at h
    split at h
    · exact nomatch h
    · next walked hwalk =>
      split at h
      · rw [hwalk, Except.ok.inj h]
      · exact nomatch h

/-- A 200 of `handle_static` is an opened file. -/
theorem handleStatic_ok {root : StaticRoot} {relative : Bytes} {response : GatewayResponse}
    (hfind : staticFindRoot server request.path = some (root, relative))
    (h : handleStatic sv env server request = .ok response) (hstatus : response.status = 200) :
    ∃ file, staticOpenFile sv env root relative = .ok file := by
  unfold handleStatic at h
  rw [hfind] at h
  dsimp only at h
  split at h
  · obtain rfl := Except.ok.inj h
    exact absurd hstatus (by decide)
  · cases hfile : staticOpenFile sv env root relative with
    | ok file => exact ⟨file, rfl⟩
    | error e =>
      rw [hfile] at h
      dsimp only [bind, Except.bind] at h
      split_ifs at h
      · obtain rfl := Except.ok.inj h
        exact absurd hstatus (by decide)
      · obtain rfl := Except.ok.inj h
        exact absurd hstatus (by decide)

/-- **What `handle_static` opens**: segments of a safe part below the first root, all of them when the
    file is served. -/
theorem fileNames_spec (hnul : (0 : UInt8) ∉ request.path)
    (hopened : fileNames sv env server request.path ≠ []) :
    ∃ below rest, FirstRoot server.staticRoots request.path below ∧
      staticRelativePathSafe (fileAsked below) = true ∧
      pathSegments [] (fileAsked below) = fileNames sv env server request.path ++ rest ∧
      ∀ response, handleStatic sv env server request = .ok response → response.status = 200 → rest = [] := by
  unfold fileNames at hopened ⊢
  cases hfind : staticFindRoot server request.path with
  | none =>
    rw [hfind] at hopened
    exact absurd rfl hopened
  | some found =>
    obtain ⟨root, relative⟩ := found
    obtain ⟨below, hfirst, rfl⟩ := firstRoot_of_find hfind
    rw [hfind] at hopened
    dsimp only at hopened ⊢
    split at hopened
    · exact absurd rfl hopened
    next hchecked =>
      rw [if_neg hchecked]
      cases hroot : sv.openRoot env root.filesystemRoot with
      | none =>
        rw [hroot] at hopened
        exact absurd rfl hopened
      | some fd =>
        have hsegments : ∀ s ∈ pathSegments [] (fileAsked below), (0 : UInt8) ∉ s := by
          intro s hs hzero
          rcases mem_pathSegments _ [] s hs hzero with hnone | hasked
          · exact List.not_mem_nil hnone
          · exact fileAsked_plain hnul hfirst hasked
        obtain ⟨rest, hrest, hall⟩ := staticNames_eq sv env _ fd hsegments
        refine ⟨below, rest, hfirst, ?_, hrest, fun response hok hstatus => ?_⟩
        · by_contra hunsafe
          exact hchecked (by rw [Bool.eq_false_of_not_eq_true hunsafe]; rfl)
        · obtain ⟨file, hfile⟩ := handleStatic_ok hfind hok hstatus
          exact hall file (staticOpenFile_ok hfile hroot)

/-- A segment of a safe part is a plain name. -/
theorem safe_segment {relative name : Bytes} (hsafe : staticRelativePathSafe relative = true)
    (hname : name ∈ pathSegments [] relative) :
    name ≠ [] ∧ chr '/' ∉ name ∧ name ≠ str "." ∧ name ≠ str ".." := by
  rw [staticRelativePathSafe, Bool.and_eq_true, List.all_eq_true] at hsafe
  have hsegment := hsafe.2 name hname
  rw [Bool.and_eq_true, Bool.and_eq_true, bne_iff_ne, bne_iff_ne, bne_iff_ne] at hsegment
  exact ⟨hsegment.1.1, slash_not_mem_pathSegments relative [] List.not_mem_nil name hname, hsegment.1.2,
    hsegment.2⟩

/-- What a request opens is what `handle_static` opens on a server with the same roots, and then the
    answer is its answer. -/
theorem requestNames_handled (hopened : requestNames sv env server request ≠ []) :
    ∃ gated : Server C, gated.staticRoots = server.staticRoots ∧
      requestNames sv env server request = fileNames sv env gated request.path ∧
      (handleRequest sv env server request).2 = handleStatic sv env gated request := by
  unfold requestNames at hopened ⊢
  have hserved := handleRequest_served sv env server request
  rw [show (visitIn sv env server request).answer = answerTo sv env server request from rfl] at hserved
  cases hroute : routeFind server request.path request.method with
  | error pathMatched =>
    rw [hroute] at hopened
    exact absurd rfl hopened
  | ok route =>
    rw [hroute] at hopened
    dsimp only at hopened ⊢
    split at hopened
    · next hhandled =>
      rw [if_pos hhandled]
      rw [hhandled.1] at hserved
      generalize handleRequest sv env server request = outcome at hserved
      cases hserved with
      | handled route' hroute' =>
        obtain rfl : route = route' := Except.ok.inj (hroute.symm.trans hroute')
        obtain ⟨_, _, _, _, hframe⟩ := enforceGates_frame (sv.time env) server route request
        refine ⟨(enforceGates (sv.time env) server route request).1, by rw [hframe], rfl, ?_⟩
        rw [idempotencyStore_snd, hhandled.2]
        rfl
    · exact absurd rfl hopened

/-- A nested request opens nothing. -/
theorem requestNames_nested {n : Server C × GatewayRequest} (h : nestedIn sv env server request = some n) :
    requestNames sv env n.1 n.2 = [] := by
  have hcall : ∃ text, nestedCall server text = some n.2 := by
    unfold nestedIn at h
    split at h
    · exact nomatch h
    · split at h
      · obtain ⟨nested, hcall, rfl⟩ := Option.map_eq_some_iff.mp h
        exact ⟨_, hcall⟩
      · exact nomatch h
  obtain ⟨text, hcall⟩ := hcall
  obtain ⟨id, hid⟩ := nestedCall_some hcall
  obtain ⟨name, hname⟩ := jsonrpcCall_route hid
  obtain ⟨route, hroute, hhandler⟩ := routeFind_jsonrpc hname n.1
  have hstatic : route.handler ≠ .handleStatic := by
    intro heq
    rw [heq] at hhandler
    exact absurd hhandler (by decide)
  rw [requestNames, hroute]
  exact if_neg fun hhandled => hstatic hhandled.2

end Confined

/-- The names of a raw request are those of the request it parses to. -/
theorem httpNames_eq (sv : Services E C D) (env : E) (server : Server C) {raw : Bytes}
    {request : GatewayRequest} (hparse : parseHttpRequest raw = .ok request) :
    httpNames sv env server raw = requestNames sv env server request := by
  have hrequests : requestsOf sv env server (.http raw) =
      (nestedIn sv env server request).toList ++ [(server, request)] := by
    rw [requestsOf, routedBy, hparse, Option.toList_some, List.flatMap_singleton]
  rw [httpNames, hrequests, List.flatMap_append, List.flatMap_singleton]
  cases hnested : nestedIn sv env server request with
  | none => rfl
  | some n =>
    rw [Option.toList_some, List.flatMap_singleton, requestNames_nested hnested]
    rfl

/-- What is no request opens nothing. -/
theorem httpNames_unparsed (sv : Services E C D) (env : E) (server : Server C) {raw : Bytes} {e : ScError}
    (hparse : parseHttpRequest raw = .error e) : httpNames sv env server raw = [] := by
  rw [httpNames, requestsOf, routedBy, hparse]
  rfl

/-- **An unsafe part asks for no safe file**, a lone slash apart. -/
theorem fileAsked_unsafe {below : Bytes} (hbound : Boundary (chr '/') below) (hslash : below ≠ str "/")
    (h : UnsafePath below) : staticRelativePathSafe (fileAsked below) = false := by
  rcases hbound with rfl | ⟨t, rfl⟩
  · rcases h with ⟨c, -, -, front, back, heq, -⟩ | hmem | ⟨code, hcode, hin⟩
    · exact absurd heq.symm (List.append_ne_nil_of_right_ne_nil _ (List.cons_ne_nil _ _))
    · exact absurd hmem List.not_mem_nil
    · obtain rfl := List.infix_nil.mp hin
      exact absurd hcode (by decide)
  · have ht : (chr '/' :: t).tail ≠ [] := by
      rintro rfl
      exact hslash rfl
    rw [fileAsked, if_neg ht]
    exact unsafe_refused h

/-- Names spell the part below the first root of the path, each behind a slash; the walk may stop before
    `rest`, but not when the file is served. -/
def Spells (roots : List StaticRoot) (path : Bytes) (names : List Bytes) (served : Prop) : Prop :=
  ∃ below rest, FirstRoot roots path below ∧
    render (chr '/') (names ++ rest) = chr '/' :: fileAsked below ∧ (served → rest = [])

/-- The answer to a request is a 200. -/
def Served200 (sv : Services E C D) (env : E) (server : Server C) (request : GatewayRequest) : Prop :=
  ∃ response, (handleRequest sv env server request).2 = .ok response ∧ response.status = 200

/-- **What a request opens.** -/
theorem requestNames_spec {sv : Services E C D} {env : E} {server : Server C} {request : GatewayRequest}
    (hnul : (0 : UInt8) ∉ request.path) (hopened : requestNames sv env server request ≠ []) :
    ∃ below rest, FirstRoot server.staticRoots request.path below ∧
      staticRelativePathSafe (fileAsked below) = true ∧
      pathSegments [] (fileAsked below) = requestNames sv env server request ++ rest ∧
      (Served200 sv env server request → rest = []) := by
  obtain ⟨gated, hroots, hnames, hanswer⟩ := requestNames_handled hopened
  rw [hnames] at hopened ⊢
  obtain ⟨below, rest, hfirst, hsafe, hsegments, hall⟩ := fileNames_spec hnul hopened
  rw [hroots] at hfirst
  refine ⟨below, rest, hfirst, hsafe, hsegments, ?_⟩
  rintro ⟨response, hok, hstatus⟩
  exact hall response (hanswer.symm.trans hok) hstatus

/-- **Static serving is confined to the root.**  A raw request passes plain names only to `openat`; they
    spell the part of its path below the first root; and where that part, a lone slash apart, is unsafe,
    nothing is opened. -/
theorem static_confined (sv : Services E C D) (env : E) (server : Server C) (raw : Bytes) :
    (∀ name ∈ httpNames sv env server raw,
        name ≠ [] ∧ chr '/' ∉ name ∧ name ≠ str "." ∧ name ≠ str "..") ∧
      ∀ request, parseHttpRequest raw = .ok request →
        (httpNames sv env server raw ≠ [] →
          Spells server.staticRoots request.path (httpNames sv env server raw)
            (Served200 sv env server request)) ∧
        ∀ below, FirstRoot server.staticRoots request.path below → below ≠ str "/" → UnsafePath below →
          httpNames sv env server raw = [] := by
  cases hparse : parseHttpRequest raw with
  | error e =>
    refine ⟨fun name hname => ?_, nofun⟩
    rw [httpNames_unparsed sv env server hparse] at hname
    exact absurd hname List.not_mem_nil
  | ok request =>
    have hnul := parseHttpRequest_path hparse
    rw [httpNames_eq sv env server hparse]
    refine ⟨fun name hname => ?_, ?_⟩
    · obtain ⟨below, rest, -, hsafe, hsegments, -⟩ := requestNames_spec hnul (List.ne_nil_of_mem hname)
      exact safe_segment hsafe (hsegments ▸ List.mem_append_left rest hname)
    · rintro request' hsame
      obtain rfl := Except.ok.inj hsame
      refine ⟨fun hopened => ?_, fun below hfirst hslash hunsafe => ?_⟩
      · obtain ⟨below, rest, hfirst, -, hsegments, hserved⟩ := requestNames_spec hnul hopened
        refine ⟨below, rest, hfirst, ?_, hserved⟩
        rw [← hsegments, render_pathSegments]
        rfl
      · by_contra hopened
        obtain ⟨below', _, hfirst', hsafe, -, -⟩ := requestNames_spec hnul hopened
        -- there is one first root
        obtain ⟨root, hroot⟩ := staticFindRoot_eq hfirst
        obtain ⟨root', hroot'⟩ := staticFindRoot_eq hfirst'
        have hasked : fileAsked below = fileAsked below' :=
          congrArg Prod.snd (Option.some.inj (hroot.symm.trans hroot'))
        obtain ⟨_, _, _, -, ⟨-, -, hbound⟩, -⟩ := hfirst
        have hrefused := fileAsked_unsafe hbound hslash hunsafe
        rw [hasked, hsafe] at hrefused
        exact nomatch hrefused

/-- A file system where every name can be opened. -/
def openServices : Services Int Unit Unit :=
  { echoServices with
    openRoot := fun _ _ => some ()
    openAt := fun _ _ _ _ => .ok ()
    isRegular := fun _ _ => true
    contents := fun _ _ => some (str "text") }

/-- A started gateway with one static root, whose prefix ends in a slash. -/
def slashGateway : Server Unit :=
  gatewayServerStart (gatewayServerNew 0 { staticRoots := [⟨str "/a/", str "/srv"⟩] })

/-- `GET /a//x` -/
def doubleSlash : Bytes := str "GET /a//x HTTP/1.1\r\n\r\n"

/-- **The prefix is not checked**: a path with an empty component inside the prefix of its root is
    served. -/
theorem prefix_unchecked :
    ¬ ∀ request, parseHttpRequest doubleSlash = .ok request → UnsafePath request.path →
      httpNames openServices 1 slashGateway doubleSlash = [] := by
  have hparse : parseHttpRequest doubleSlash = .ok { method := .get, path := str "/a//x", body := [] } := by
    decide
  have hunsafe : UnsafePath (str "/a//x") :=
    Or.inl ⟨[], List.mem_cons_self, List.not_mem_nil, str "/a", str "/x", by decide,
      Or.inr ⟨str "x", by decide⟩⟩
  intro h
  have hnone := h _ hparse hunsafe
  exact absurd hnone (by decide)

end SmolClaw.Gateway
