/-
  Where credentials may be sent in clear text (`sc_provider_url_allowed`,
  `src/providers/provider_common.c`) and whose answer is taken for credentials
  (`bedrock_metadata_url_allowed`, `src/providers/http_providers.c`).

  1. **Program** — both functions look at the first bytes of the text and at nothing else.

  2. **Specification** — what counts is the host `sc_url_parse` finds: behind the LAST `@` of the
     authority, up to the first `:`, in lower case.  `SpellsHost` says when a text names a host without
     running the parser, and `urlParse_host_iff` is the bridge.

  3. **Result** — `credentialEndpoints_iff`: an admitted text is local exactly when the name it starts
     with is its whole host.  A longer label or user information slips through.
-/
import Mathlib.Data.List.TakeWhile
import SmolClaw.Net.Url

namespace SmolClaw.Providers

open SmolClaw.Net

/-! ## The program -/

/-- `str_has_prefix` -/
def strHasPrefix (value : Bytes) (pre : String) : Bool := (str pre).isPrefixOf value

/-- `sc_provider_url_allowed` -/
def providerUrlAllowed (url : Bytes) (allowLoopback : Bool) : Bool :=
  if url = [] then false
  else if strHasPrefix url "https://" then true
  else if !allowLoopback || !strHasPrefix url "http://" then false
  else strHasPrefix url "http://127.0.0.1" || strHasPrefix url "http://localhost" ||
    strHasPrefix url "http://[::1]"

/-- `bedrock_metadata_url_allowed` -/
def bedrockMetadataUrlAllowed (url : Bytes) (fullUri : Bool) : Bool :=
  if url = [] then false
  else if strHasPrefix url "http://169.254.170.2/" || strHasPrefix url "http://169.254.169.254/" then
    true
  else if !fullUri then false
  else strHasPrefix url "http://127.0.0.1:" || strHasPrefix url "http://localhost:" ||
    strHasPrefix url "http://[::1]:"

/-! ## Hosts, as they are spelled -/

/-- A byte that ends the authority. -/
def endsAuthority (c : UInt8) : Bool := c == chr '/' || c == chr '?' || c == chr '#'

/-- What may follow a host: a port, a path, a query, a fragment, or nothing. -/
def EndsHost (rest : Bytes) : Prop := ∀ c, rest.head? = some c → c = chr ':' ∨ endsAuthority c = true

instance (rest : Bytes) : Decidable (EndsHost rest) :=
  match rest with
  | [] => isTrue nofun
  | c :: _ => decidable_of_iff (c = chr ':' ∨ endsAuthority c = true)
      ⟨fun h _ hd => Option.some.inj hd ▸ h, fun h => h c rfl⟩

/-- `rest`, the text behind `http://`, names the host `name`: user information with its `@`, the name
    in any case, and an end of the host that no `@` of the authority follows. -/
def SpellsHost (rest name : Bytes) : Prop :=
  ∃ user spelled tail, rest = user ++ spelled ++ tail ∧
    (user = [] ∨ user.getLast? = some (chr '@')) ∧ (∀ c ∈ user, endsAuthority c = false) ∧
    spelled.map toLower = name ∧ EndsHost tail ∧ chr '@' ∉ tail.takeWhile fun c => !endsAuthority c

/-- The bytes of a name that no part of the parser cuts at. -/
def isHostByte (c : UInt8) : Bool := c != chr '@' && c != chr ':' && !endsAuthority c

/-- Lower case does not hide a separator. -/
theorem isHostByte_toLower : ∀ c, isHostByte (toLower c) = isHostByte c := by
  apply byte_forall
  decide +kernel

theorem isHostByte_of_toLower {spelled name : Bytes} (h : spelled.map toLower = name)
    (hname : name.all isHostByte = true) : ∀ c ∈ spelled, isHostByte c = true := by
  intro c hc
  rw [← h, List.all_map, List.all_eq_true] at hname
  rw [← isHostByte_toLower]
  exact hname c hc

theorem isHostByte_iff {c : UInt8} :
    isHostByte c = true ↔ c ≠ chr '@' ∧ c ≠ chr ':' ∧ endsAuthority c = false := by
  rw [isHostByte, Bool.and_eq_true, Bool.and_eq_true, bne_iff_ne, bne_iff_ne, Bool.not_eq_true', and_assoc]

/-! ## The parser's host -/

/-- The part of an authority behind its last `@`. -/
def hostPort (authority : Bytes) : Bytes :=
  match Lib.Separated.cut (chr '@') authority with
  | some (_, hostport) => hostport
  | none => authority

/-- The host in the text behind `scheme://`. -/
def hostOf (rest : Bytes) : Bytes :=
  (hostPort (rest.takeWhile fun c => !endsAuthority c)).takeWhile (· != chr ':')

/-- **The host of an accepted URL.** -/
theorem parseAuthority_host {input scheme rest : Bytes} {url : Url}
    (h : parseAuthority input scheme rest = .ok url) :
    url.scheme = scheme ∧ url.host = (hostOf rest).map toLower := by
  unfold parseAuthority at h
  by_cases hempty : (rest.takeWhile fun c => !endsAuthority c) = []
  · exact absurd ((if_pos hempty).symm.trans h) (by simp)
  · obtain ⟨port, -, h⟩ := Res.bind_eq_ok.mp ((if_neg hempty).symm.trans h)
    have hhost : hostOf rest = (splitFirst (chr ':')
        (match Lib.Separated.cut (chr '@') (rest.takeWhile fun c => !endsAuthority c) with
          | some (userinfo, hostport) => (userinfo, hostport)
          | none => ([], rest.takeWhile fun c => !endsAuthority c)).2).1 := by
      rw [hostOf, hostPort, splitFirst]
      cases Lib.Separated.cut (chr '@') (rest.takeWhile fun c => !endsAuthority c) <;> rfl
    by_cases hmissing : hostOf rest = []
    · exact absurd ((if_pos (hhost.symm.trans hmissing)).symm.trans h) (by simp)
    · obtain rfl := Except.ok.inj ((if_neg fun he => hmissing (hhost.trans he)).symm.trans h)
      exact ⟨rfl, congrArg (List.map toLower) hhost.symm⟩

/-- A text behind a literal scheme. -/
theorem urlParse_scheme (scheme rest : Bytes) {url : Url} (hcolon : chr ':' ∉ scheme)
    (h : urlParse (scheme ++ chr ':' :: chr '/' :: chr '/' :: rest) = .ok url) :
    url.scheme = scheme ∧ url.host = (hostOf rest).map toLower := by
  have htake : (scheme ++ chr ':' :: chr '/' :: chr '/' :: rest).takeWhile (· != chr ':') = scheme := by
    have hscheme : ∀ c ∈ scheme, (c != chr ':') = true := by
      intro c hc
      rw [bne_iff_ne]
      rintro rfl
      exact hcolon hc
    rw [List.takeWhile_append_of_pos hscheme]
    simp
  unfold urlParse at h
  rw [htake] at h
  dsimp only at h
  rw [List.drop_left] at h
  split at h
  · exact absurd h (by simp)
  split at h
  · exact absurd h (by simp)
  split at h
  · exact absurd h (by simp)
  exact parseAuthority_host h

/-- What the parser takes for the host port is what stands behind the last `@`. -/
theorem hostPort_eq {user hostport : Bytes} (huser : user = [] ∨ user.getLast? = some (chr '@'))
    (hport : chr '@' ∉ hostport) : hostPort (user ++ hostport) = hostport := by
  rcases huser with rfl | huser
  · rw [List.nil_append, hostPort, Lib.Separated.cut_eq_none.mpr hport]
  · obtain ⟨before, rfl⟩ := List.getLast?_eq_some_iff.mp huser
    have hcut : Lib.Separated.cut (chr '@') (before ++ [chr '@'] ++ hostport) = some (before, hostport) :=
      Lib.Separated.cut_eq_some.mpr ⟨by rw [List.append_assoc, List.singleton_append], hport⟩
    rw [hostPort, hcut]

/-- Conversely, an authority is user information and a host port without `@`. -/
theorem exists_user (authority : Bytes) :
    ∃ user, authority = user ++ hostPort authority ∧
      (user = [] ∨ user.getLast? = some (chr '@')) ∧ chr '@' ∉ hostPort authority := by
  rw [hostPort]
  cases hcut : Lib.Separated.cut (chr '@') authority with
  | none => exact ⟨[], rfl, Or.inl rfl, Lib.Separated.cut_eq_none.mp hcut⟩
  | some parts =>
    obtain ⟨before, hostport⟩ := parts
    obtain ⟨rfl, hfree⟩ := Lib.Separated.cut_eq_some.mp hcut
    exact ⟨before ++ [chr '@'], by simp, Or.inr (by simp), hfree⟩

/-- What a `takeWhile` leaves starts with a byte that is refused. -/
theorem head_dropWhile {p : UInt8 → Bool} {text : Bytes} {c : UInt8}
    (h : (text.dropWhile p).head? = some c) : p c = false := by
  have hnot := List.head?_dropWhile_not p text
  rw [h] at hnot
  simpa using hnot

/-- **The bridge**: the parser finds the host a text spells. -/
theorem hostOf_iff {rest name : Bytes} (hname : name.all isHostByte = true) :
    (hostOf rest).map toLower = name ↔ SpellsHost rest name := by
  constructor
  · intro h
    have hrest := List.takeWhile_append_dropWhile (p := fun c => !endsAuthority c) (l := rest)
    have hopen : ∀ c ∈ rest.takeWhile fun c => !endsAuthority c, (!endsAuthority c) = true :=
      fun c hc => List.mem_takeWhile_imp (p := fun c => !endsAuthority c) hc
    rw [hostOf] at h
    generalize rest.takeWhile (fun c => !endsAuthority c) = authority at h hrest hopen
    obtain ⟨user, hauthority, huser, hfree⟩ := exists_user authority
    generalize hostPort authority = hostport at h hauthority hfree
    have hport := List.takeWhile_append_dropWhile (p := (· != chr ':')) (l := hostport)
    subst hauthority
    have hclosed : ∀ c, (rest.dropWhile fun c => !endsAuthority c).head? = some c →
        endsAuthority c = true := by
      intro c hc
      simpa using head_dropWhile hc
    refine ⟨user, hostport.takeWhile (· != chr ':'),
      hostport.dropWhile (· != chr ':') ++ rest.dropWhile fun c => !endsAuthority c,
      ?_, huser, ?_, h, ?_, ?_⟩
    · rw [← List.append_assoc, List.append_assoc user, hport, hrest]
    · intro c hc
      simpa using hopen c (List.mem_append_left _ hc)
    · intro c hc
      rw [List.head?_append] at hc
      cases hcolon : (hostport.dropWhile (· != chr ':')).head? with
      | none =>
        rw [hcolon, Option.none_or] at hc
        exact Or.inr (hclosed c hc)
      | some d =>
        rw [hcolon, Option.some_or] at hc
        obtain rfl := Option.some.inj hc
        exact Or.inl (by simpa using head_dropWhile hcolon)
    · have hmem : ∀ c ∈ hostport.dropWhile (· != chr ':'), c ∈ hostport :=
        fun c hc => (List.dropWhile_suffix _).subset hc
      rw [Lib.Separated.takeWhile_stretch (fun c hc => hopen c (List.mem_append_right _ (hmem c hc)))
        fun c hc => by rw [hclosed c hc, Bool.not_true]]
      exact fun hat => hfree (hmem _ hat)
  · rintro ⟨user, spelled, tail, rfl, huser, hplain, hspelled, hends, hfree⟩
    have hbytes := isHostByte_of_toLower hspelled hname
    have hauthority : (user ++ spelled ++ tail).takeWhile (fun c => !endsAuthority c)
        = user ++ (spelled ++ tail.takeWhile fun c => !endsAuthority c) := by
      rw [List.takeWhile_append_of_pos, List.append_assoc]
      intro c hc
      rw [Bool.not_eq_true']
      rcases List.mem_append.mp hc with hc | hc
      · exact hplain c hc
      · exact (isHostByte_iff.mp (hbytes c hc)).2.2
    have hhost : hostPort (user ++ (spelled ++ tail.takeWhile fun c => !endsAuthority c))
        = spelled ++ tail.takeWhile fun c => !endsAuthority c := by
      refine hostPort_eq huser fun hat => ?_
      rcases List.mem_append.mp hat with hat | hat
      · exact (isHostByte_iff.mp (hbytes _ hat)).1 rfl
      · exact hfree hat
    rw [hostOf, hauthority, hhost, Lib.Separated.takeWhile_stretch, hspelled]
    · intro c hc
      exact bne_iff_ne.mpr (isHostByte_iff.mp (hbytes c hc)).2.1
    · intro c hc
      cases tail with
      | nil => exact nomatch hc
      | cons d tail =>
        rw [List.takeWhile_cons] at hc
        split at hc
        · next hopen =>
          obtain rfl := Option.some.inj hc
          rcases hends _ rfl with rfl | hend
          · rfl
          · rw [hend] at hopen
            exact absurd hopen (by decide)
        · exact nomatch hc

/-! ## The result -/

/-- The text starts with the bracketed loopback literal, and the literal ends there. -/
def BracketLiteral (url : Bytes) : Prop := ∃ rest, url = str "http://[::1]" ++ rest ∧ EndsHost rest

/-- The hosts of the machine itself. -/
def loopbackHosts : List Bytes := [str "127.0.0.1", str "localhost"]

/-- The hosts that hand out instance credentials. -/
def metadataHosts : List Bytes := [str "169.254.170.2", str "169.254.169.254"]

/-- What `sc_provider_url_allowed` owes: clear text goes to this machine only. -/
def ProviderLocal (text : Bytes) (url : Url) (allowLoopback : Bool) : Prop :=
  providerUrlAllowed text allowLoopback = true →
    url.scheme = str "https" ∨ allowLoopback = true ∧ (url.host ∈ loopbackHosts ∨ BracketLiteral text)

/-- What `bedrock_metadata_url_allowed` owes: credentials come from the metadata service, or from this
    machine if a full URI may be given. -/
def MetadataLocal (text : Bytes) (url : Url) (fullUri : Bool) : Prop :=
  bedrockMetadataUrlAllowed text fullUri = true →
    url.host ∈ metadataHosts ∨ fullUri = true ∧ (url.host ∈ loopbackHosts ∨ BracketLiteral text)

/-- The text is plain HTTP and its host is spelled as one of `names`. -/
def SpellsOne (text : Bytes) (names : List Bytes) : Prop :=
  ∃ rest, text = str "http://" ++ rest ∧ ∃ name ∈ names, SpellsHost rest name

/-- Each admitted loopback text goes on as a local host does. -/
def LoopbackSpelled (text : Bytes) (allowLoopback : Bool) : Prop :=
  allowLoopback = true →
    (strHasPrefix text "http://127.0.0.1" || strHasPrefix text "http://localhost" ||
      strHasPrefix text "http://[::1]") = true →
    SpellsOne text loopbackHosts ∨ BracketLiteral text

/-- Each admitted full URI goes on as a host to be trusted does. -/
def FullUriSpelled (text : Bytes) (fullUri : Bool) : Prop :=
  fullUri = true →
    (strHasPrefix text "http://127.0.0.1:" || strHasPrefix text "http://localhost:" ||
      strHasPrefix text "http://[::1]:") = true →
    SpellsOne text (metadataHosts ++ loopbackHosts) ∨ BracketLiteral text

/-- The host of an accepted plain-HTTP text is the one it spells. -/
theorem spellsOne_iff {text : Bytes} {url : Url} (h : urlParse text = .ok url) {names : List Bytes}
    (hnames : names.all (·.all isHostByte) = true) (hhttp : strHasPrefix text "http://" = true) :
    url.host ∈ names ↔ SpellsOne text names := by
  obtain ⟨rest, rfl⟩ := List.isPrefixOf_iff_prefix.mp hhttp
  obtain ⟨-, hhost⟩ := urlParse_scheme (str "http") rest (by decide) h
  rw [hhost]
  have hplain := List.all_eq_true.mp hnames
  constructor
  · intro hmem
    exact ⟨rest, rfl, _, hmem, (hostOf_iff (hplain _ hmem)).mp rfl⟩
  · rintro ⟨rest', heq, name, hmem, hspells⟩
    obtain rfl := List.append_cancel_left heq
    rw [(hostOf_iff (hplain name hmem)).mpr hspells]
    exact hmem

/-- A text that starts with a longer literal starts with a shorter one. -/
theorem strHasPrefix_trans {text : Bytes} {long short : String} (h : strHasPrefix text long = true)
    (hshort : (str short).isPrefixOf (str long) = true) : strHasPrefix text short = true :=
  List.isPrefixOf_iff_prefix.mpr
    ((List.isPrefixOf_iff_prefix.mp hshort).trans (List.isPrefixOf_iff_prefix.mp h))

/-- A text that starts with one of three longer literals. -/
theorem strHasPrefix_of_one {text : Bytes} {a b c short : String}
    (h : (strHasPrefix text a || strHasPrefix text b || strHasPrefix text c) = true)
    (hshort : [a, b, c].all (fun long => (str short).isPrefixOf (str long)) = true) :
    strHasPrefix text short = true := by
  have hlong := List.all_eq_true.mp hshort
  rw [Bool.or_eq_true, Bool.or_eq_true] at h
  rcases h with (h | h) | h
  · exact strHasPrefix_trans h (hlong a (by simp))
  · exact strHasPrefix_trans h (hlong b (by simp))
  · exact strHasPrefix_trans h (hlong c (by simp))

/-- An accepted text that starts with `http://` has that scheme. -/
theorem scheme_http {text : Bytes} {url : Url} (h : urlParse text = .ok url)
    (hhttp : strHasPrefix text "http://" = true) : url.scheme ≠ str "https" := by
  obtain ⟨rest, rfl⟩ := List.isPrefixOf_iff_prefix.mp hhttp
  rw [(urlParse_scheme (str "http") rest (by decide) h).1]
  decide

theorem scheme_https {text : Bytes} {url : Url} (h : urlParse text = .ok url)
    (hhttps : strHasPrefix text "https://" = true) : url.scheme = str "https" := by
  obtain ⟨rest, rfl⟩ := List.isPrefixOf_iff_prefix.mp hhttps
  exact (urlParse_scheme (str "https") rest (by decide) h).1

/-- Plain HTTP is admitted on the three loopback prefixes. -/
theorem providerUrlAllowed_http {text : Bytes} {allowLoopback : Bool}
    (hhttps : strHasPrefix text "https://" = false) :
    providerUrlAllowed text allowLoopback = true ↔ allowLoopback = true ∧
      (strHasPrefix text "http://127.0.0.1" || strHasPrefix text "http://localhost" ||
        strHasPrefix text "http://[::1]") = true := by
  have hshort : (strHasPrefix text "http://127.0.0.1" || strHasPrefix text "http://localhost" ||
      strHasPrefix text "http://[::1]") = true → strHasPrefix text "http://" = true :=
    fun h => strHasPrefix_of_one h (by decide)
  unfold providerUrlAllowed
  cases text with
  | nil => cases allowLoopback <;> decide
  | cons c text =>
    rw [if_neg (List.cons_ne_nil c text), if_neg (by rw [hhttps]; decide)]
    cases allowLoopback with
    | false => simp
    | true =>
      cases hhttp : strHasPrefix (c :: text) "http://" with
      | true => simp
      | false =>
        rw [hhttp] at hshort
        simpa using hshort

/-- **When plain HTTP stays on this machine.** -/
theorem providerLocal_iff {text : Bytes} {url : Url} (h : urlParse text = .ok url)
    (allowLoopback : Bool) : ProviderLocal text url allowLoopback ↔ LoopbackSpelled text allowLoopback := by
  have hhttp : (strHasPrefix text "http://127.0.0.1" || strHasPrefix text "http://localhost" ||
      strHasPrefix text "http://[::1]") = true → strHasPrefix text "http://" = true :=
    fun h => strHasPrefix_of_one h (by decide)
  cases hhttps : strHasPrefix text "https://" with
  | true =>
    have hscheme := scheme_https h hhttps
    constructor
    · intro _ _ hstarts
      exact absurd hscheme (scheme_http h (hhttp hstarts))
    · intro _ _
      exact Or.inl hscheme
  | false =>
    rw [ProviderLocal, providerUrlAllowed_http hhttps]
    constructor
    · intro hlocal hloopback hstarts
      have hplain := hhttp hstarts
      rcases hlocal ⟨hloopback, hstarts⟩ with hscheme | ⟨-, hhost | hliteral⟩
      · exact absurd hscheme (scheme_http h hplain)
      · exact Or.inl ((spellsOne_iff h (by decide) hplain).mp hhost)
      · exact Or.inr hliteral
    · rintro hspelled ⟨hloopback, hstarts⟩
      refine Or.inr ⟨hloopback, (hspelled hloopback hstarts).imp_left fun hone => ?_⟩
      exact (spellsOne_iff h (by decide) (hhttp hstarts)).mpr hone

/-- A text with a metadata prefix spells that host: the `/` ends it. -/
theorem metadata_host {text : Bytes} {url : Url} (h : urlParse text = .ok url)
    (hstarts : (strHasPrefix text "http://169.254.170.2/" ||
      strHasPrefix text "http://169.254.169.254/") = true) : url.host ∈ metadataHosts := by
  have hslash : ∀ name rest : Bytes, name ∈ metadataHosts → text = str "http://" ++ (name ++ chr '/' :: rest) →
      SpellsOne text metadataHosts := by
    intro name rest hmem htext
    refine ⟨_, htext, name, hmem, [], name, chr '/' :: rest, rfl, Or.inl rfl, nofun, ?_, ?_, ?_⟩
    · rw [metadataHosts, List.mem_cons, List.mem_singleton] at hmem
      rcases hmem with rfl | rfl <;> decide
    · exact fun c hc => Or.inr (Option.some.inj hc ▸ rfl)
    · exact List.not_mem_nil
  have hone : strHasPrefix text "http://" = true ∧ SpellsOne text metadataHosts := by
    rcases Bool.or_eq_true _ _ ▸ hstarts with hpre | hpre <;>
      refine ⟨strHasPrefix_trans hpre (by decide), ?_⟩ <;>
      obtain ⟨rest, rfl⟩ := List.isPrefixOf_iff_prefix.mp hpre
    · exact hslash (str "169.254.170.2") rest (by decide) rfl
    · exact hslash (str "169.254.169.254") rest (by decide) rfl
  exact (spellsOne_iff h (by decide) hone.1).mpr hone.2

/-- **When credentials come from a trusted host.** -/
theorem metadataLocal_iff {text : Bytes} {url : Url} (h : urlParse text = .ok url) (fullUri : Bool) :
    MetadataLocal text url fullUri ↔ FullUriSpelled text fullUri := by
  have hhttp : (strHasPrefix text "http://127.0.0.1:" || strHasPrefix text "http://localhost:" ||
      strHasPrefix text "http://[::1]:") = true → strHasPrefix text "http://" = true ∧ text ≠ [] := by
    intro hstarts
    refine ⟨strHasPrefix_of_one hstarts (by decide), ?_⟩
    rintro rfl
    exact absurd hstarts (by decide)
  have hsplit : url.host ∈ metadataHosts ++ loopbackHosts ↔
      url.host ∈ metadataHosts ∨ url.host ∈ loopbackHosts := List.mem_append
  constructor
  · intro hlocal hfull hstarts
    obtain ⟨hplain, hne⟩ := hhttp hstarts
    have hallowed : bedrockMetadataUrlAllowed text fullUri = true := by
      rw [bedrockMetadataUrlAllowed, if_neg hne, hfull]
      split
      · rfl
      · exact hstarts
    rw [← spellsOne_iff h (by decide) hplain, hsplit]
    rcases hlocal hallowed with hhost | ⟨-, hhost | hliteral⟩
    · exact Or.inl (Or.inl hhost)
    · exact Or.inl (Or.inr hhost)
    · exact Or.inr hliteral
  · intro hspelled hallowed
    unfold bedrockMetadataUrlAllowed at hallowed
    split at hallowed
    · exact nomatch hallowed
    split at hallowed
    · next hstarts => exact Or.inl (metadata_host h hstarts)
    split at hallowed
    · exact nomatch hallowed
    next hfull =>
      have hfull : fullUri = true := by simpa using hfull
      rcases hspelled hfull hallowed with hone | hliteral
      · rw [← spellsOne_iff h (by decide) (hhttp hallowed).1, hsplit] at hone
        exact hone.imp_right fun hhost => ⟨hfull, Or.inl hhost⟩
      · exact Or.inr ⟨hfull, Or.inr hliteral⟩

/-- **When credential endpoints are local.**  On every URL the parser accepts, the two prefix tests
    admit only local hosts exactly when each loopback text they admit goes on as a local host does:
    the name, in front of a port, a path or the end, and no user information that hides another
    host. -/
theorem credentialEndpoints_iff (text : Bytes) (url : Url) (h : urlParse text = .ok url)
    (allowLoopback fullUri : Bool) :
    ProviderLocal text url allowLoopback ∧ MetadataLocal text url fullUri ↔
      LoopbackSpelled text allowLoopback ∧ FullUriSpelled text fullUri :=
  and_congr (providerLocal_iff h allowLoopback) (metadataLocal_iff h fullUri)

/-- A local endpoint with a port. -/
theorem credentialEndpoints_local :
    ProviderLocal (str "http://localhost:11434/api")
        { original := str "http://localhost:11434/api", scheme := str "http", host := str "localhost",
          path := str "/api", query := [], fragment := [], username := [], password := [], port := 11434,
          hasPort := true } true ∧
      MetadataLocal (str "http://localhost:11434/api")
        { original := str "http://localhost:11434/api", scheme := str "http", host := str "localhost",
          path := str "/api", query := [], fragment := [], username := [], password := [], port := 11434,
          hasPort := true } true := by
  have hspells : SpellsHost (str "localhost:11434/api") (str "localhost") :=
    ⟨[], str "localhost", str ":11434/api", rfl, Or.inl rfl, nofun, by decide, by decide, by decide⟩
  refine (credentialEndpoints_iff _ _ rfl true true).mpr ⟨fun _ _ => Or.inl ?_, fun _ _ => Or.inl ?_⟩
  · exact ⟨_, rfl, _, by decide, hspells⟩
  · exact ⟨_, rfl, _, by decide, hspells⟩

/-- The literal is at the start of the text or nowhere. -/
theorem not_bracketLiteral {text : Bytes} (h : strHasPrefix text "http://[::1]" = false) :
    ¬ BracketLiteral text := by
  rintro ⟨rest, rfl, -⟩
  rw [strHasPrefix, List.isPrefixOf_iff_prefix.mpr (List.prefix_append _ _)] at h
  exact nomatch h

/-- **A longer label passes for this machine**, and so does user information. -/
theorem remote_host_admitted :
    (¬ ∀ (text : Bytes) (url : Url), urlParse text = .ok url → ∀ allowLoopback : Bool,
        ProviderLocal text url allowLoopback) ∧
      ¬ ∀ (text : Bytes) (url : Url), urlParse text = .ok url → ∀ fullUri : Bool,
        MetadataLocal text url fullUri := by
  refine ⟨fun h => ?_, fun h => ?_⟩
  · rcases h (str "http://localhost.evil.example/v1") _ rfl true (by decide) with
      hscheme | ⟨-, hhost | hbracket⟩
    · exact absurd hscheme (by decide)
    · exact absurd hhost (by decide)
    · exact not_bracketLiteral (by decide) hbracket
  · rcases h (str "http://127.0.0.1:80@evil.example/token") _ rfl true (by decide) with
      hhost | ⟨-, hhost | hbracket⟩
    · exact absurd hhost (by decide)
    · exact absurd hhost (by decide)
    · exact not_bracketLiteral (by decide) hbracket

end SmolClaw.Providers
