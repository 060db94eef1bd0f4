/-
  A URL and its parts (`sc_url_parse`, `src/net/url.c`).

  1. **Specification** — `Parts`: a URL is a scheme, an authority with user information up to its last `@`, a
     host and a port, and behind the authority a path, a query and a fragment.  `Lossless`: the fields of the
     parsed URL are the parts, and the parts make up the input again.

  2. **Splitting** — `urlParse_parts`: the parser cuts the input into its parts, whatever they are.

  3. **Defect** — the port is read by `strtol`, which takes blanks and a sign in front, and stops at a zero
     byte: `+80` is taken for a port.

  4. **Result** — `lossless_iff`: nothing is lost exactly if the port is written in digits.
-/
import Mathlib.Data.List.TakeWhile
import SmolClaw.Net.Url

namespace SmolClaw.Net

/-! ## Specification -/

/-- Where an authority ends. -/
def isStop (c : UInt8) : Bool := c == chr '/' || c == chr '?' || c == chr '#'

/-- A text behind its mark, if there is one. -/
def marked (mark : UInt8) (text : Option Bytes) : Bytes :=
  match text with
  | none => []
  | some t => mark :: t

/-- The parts of a URL behind its scheme. -/
structure Parts where
  userinfo : Option Bytes
  host : Bytes
  port : Option Bytes
  path : Bytes
  query : Option Bytes
  fragment : Option Bytes

namespace Parts

/-- The user information with its `@`. -/
def userText (p : Parts) : Bytes :=
  match p.userinfo with
  | none => []
  | some u => u ++ [chr '@']

def hostText (p : Parts) : Bytes := p.host ++ marked (chr ':') p.port

def authority (p : Parts) : Bytes := p.userText ++ p.hostText

def tail (p : Parts) : Bytes := p.path ++ (marked (chr '?') p.query ++ marked (chr '#') p.fragment)

/-- Every delimiter is where it should be: the `@` is the authority's last, the `:` the first behind it, the
    `?` the first in front of any `#`, and the `#` the first. -/
structure Delimited (p : Parts) : Prop where
  authority : ∀ c ∈ p.authority, isStop c = false
  host : p.host ≠ [] ∧ chr ':' ∉ p.host
  user : chr '@' ∉ p.hostText
  path : (p.path = [] ∨ p.path.head? = some (chr '/')) ∧ chr '?' ∉ p.path ∧ chr '#' ∉ p.path
  query : ∀ q, p.query = some q → chr '#' ∉ q

/-- The fields of a URL are these parts, its port aside. -/
structure StoredIn (p : Parts) (url : Url) : Prop where
  scheme : url.scheme ≠ [] ∧ url.scheme.all isSchemeChar = true
  user : ∃ password, p.userinfo.getD [] = url.username ++ marked (chr ':') password ∧
    url.password = password.getD [] ∧ chr ':' ∉ url.username
  host : url.host = p.host.map toLower
  path : url.path = if p.path = [] then str "/" else p.path
  query : url.query = p.query.getD []
  fragment : url.fragment = p.fragment.getD []
  hasPort : url.hasPort = p.port.isSome

end Parts

/-- A port: digits that denote the number. -/
structure PortText (text : Bytes) (port : Nat) : Prop where
  digits : text ≠ [] ∧ ∀ c ∈ text, isDigit c = true
  value : port = decimalValue text
  range : 1 ≤ port ∧ port ≤ 65535

/-- **A lossless split.** -/
def Lossless (input : Bytes) (url : Url) : Prop :=
  ∃ p : Parts, p.Delimited ∧ p.StoredIn url ∧ (∀ t, p.port = some t → PortText t url.port) ∧
    input = url.scheme ++ (str "://" ++ (p.authority ++ p.tail))

/-- The authority of a URL: what stands behind its first `:` and two slashes, up to `/`, `?` or `#`. -/
def authorityOf (input : Bytes) : Bytes :=
  (input.drop ((input.takeWhile (· != chr ':')).length + 3)).takeWhile fun c => !isStop c

/-- What stands behind the last `@` of an authority. -/
def behindUser (authority : Bytes) : Bytes :=
  match Lib.Separated.cut (chr '@') authority with
  | some (_, hostport) => hostport
  | none => authority

/-- The text of the port, behind the first `:` of the host. -/
def portText (input : Bytes) : Option Bytes := (splitFirst (chr ':') (behindUser (authorityOf input))).2

/-- The port is written in digits, if there is one. -/
def PlainPort (input : Bytes) : Prop := ∀ t, portText input = some t → ∀ c ∈ t, isDigit c = true

/-! ## Cutting -/

theorem ne_of_not_mem {c : UInt8} {s : Bytes} (h : c ∉ s) : ∀ x ∈ s, (x != c) = true := by
  intro x hx
  rw [bne_iff_ne]
  rintro rfl
  exact h hx

/-- A text without the byte, and what is behind it, are found again. -/
theorem splitFirst_of {c : UInt8} {before : Bytes} (h : c ∉ before) (after : Option Bytes) :
    splitFirst c (before ++ marked c after) = (before, after) := by
  have htake : (before ++ marked c after).takeWhile (· != c) = before := by
    refine Lib.Separated.takeWhile_stretch (ne_of_not_mem h) fun d hd => ?_
    cases after with
    | none => cases hd
    | some t =>
      cases hd
      simp
  rw [splitFirst, htake]
  cases after with
  | none => rw [marked, List.append_nil, if_neg h]
  | some t =>
    rw [marked, if_pos (List.mem_append_right before List.mem_cons_self), List.drop_append]
    simp

/-- Every text is such a text and what is behind it. -/
theorem splitFirst_eq (c : UInt8) (text : Bytes) :
    text = (splitFirst c text).1 ++ marked c (splitFirst c text).2 ∧ c ∉ (splitFirst c text).1 := by
  by_cases hmem : c ∈ text
  · obtain ⟨before, after, rfl, hnone⟩ := List.eq_append_cons_of_mem hmem
    have hsplit : splitFirst c (before ++ c :: after) = (before, some after) :=
      splitFirst_of hnone (some after)
    rw [hsplit]
    exact ⟨rfl, hnone⟩
  · have hsplit := splitFirst_of hmem none
    rw [marked, List.append_nil] at hsplit
    rw [hsplit]
    exact ⟨(List.append_nil text).symm, hmem⟩

/-- What stands behind the last `@`. -/
theorem behindUser_authority {p : Parts} (h : p.Delimited) : behindUser p.authority = p.hostText := by
  rw [behindUser, Parts.authority, Parts.userText]
  cases hu : p.userinfo with
  | none => rw [List.nil_append, Lib.Separated.cut_eq_none.mpr h.user]
  | some u =>
    have hcut : Lib.Separated.cut (chr '@') (u ++ [chr '@'] ++ p.hostText) = some (u, p.hostText) :=
      Lib.Separated.cut_eq_some.mpr ⟨by rw [List.append_assoc, List.singleton_append], h.user⟩
    rw [hcut]

/-- What stands behind the authority begins with `/`, `?` or `#`. -/
theorem tail_head {p : Parts} (h : p.Delimited) : ∀ c ∈ p.tail.head?, (!isStop c) = false := by
  intro c hc
  rw [Parts.tail] at hc
  rcases h.path.1 with hempty | hslash
  · rw [hempty, List.nil_append] at hc
    cases hq : p.query with
    | none =>
      cases hf : p.fragment with
      | none =>
        rw [hq, hf] at hc
        cases hc
      | some f =>
        rw [hq, hf] at hc
        cases hc
        decide
    | some q =>
      rw [hq] at hc
      cases hc
      decide
  · obtain ⟨path, hpath⟩ : ∃ path, p.path = chr '/' :: path := by
      cases hp : p.path with
      | nil => rw [hp] at hslash; cases hslash
      | cons d path => rw [hp] at hslash; cases hslash; exact ⟨path, rfl⟩
    rw [hpath] at hc
    cases hc
    decide

/-- A scheme has no `:`. -/
theorem colon_not_mem_scheme {scheme : Bytes} (h : scheme.all isSchemeChar = true) : chr ':' ∉ scheme :=
  fun hc => absurd (List.all_eq_true.mp h _ hc) (by decide)

/-- **The port of a URL that is made of parts** is that part. -/
theorem portText_parts {p : Parts} (h : p.Delimited) {scheme : Bytes}
    (hscheme : scheme.all isSchemeChar = true) :
    portText (scheme ++ (str "://" ++ (p.authority ++ p.tail))) = p.port := by
  have htake : (scheme ++ (str "://" ++ (p.authority ++ p.tail))).takeWhile (· != chr ':') = scheme := by
    refine Lib.Separated.takeWhile_stretch (ne_of_not_mem (colon_not_mem_scheme hscheme)) fun c hc => ?_
    cases hc
    decide
  have hdrop : (scheme ++ (str "://" ++ (p.authority ++ p.tail))).drop (scheme.length + 3) =
      p.authority ++ p.tail := by
    rw [← List.append_assoc]
    exact List.drop_left' (by rw [List.length_append]; rfl)
  have hauthority : authorityOf (scheme ++ (str "://" ++ (p.authority ++ p.tail))) = p.authority := by
    rw [authorityOf, htake, hdrop]
    refine Lib.Separated.takeWhile_stretch (fun c hc => ?_) (tail_head h)
    rw [h.authority c hc]
    rfl
  rw [portText, hauthority, behindUser_authority h, Parts.hostText, splitFirst_of h.host.2]

/-! ## Ports -/

/-- A port that is read is there. -/
theorem parsePort_some {text : Bytes} {port : Option Nat} (h : parsePort (some text) = .ok port) :
    port.isSome = true := by
  unfold parsePort at h
  dsimp only at h
  split at h
  · cases h
  split at h
  · cases h
  split at h
  · cases h
  · cases h
    rfl

/-- Digits are read as the number that they denote. -/
theorem strtol10_digits {text : Bytes} (hne : text ≠ []) (hdigits : ∀ c ∈ text, isDigit c = true) :
    strtol10 text = some (min (decimalValue text : Int) (2 ^ 63 - 1), []) := by
  have hsign : scanSign (text.dropWhile isSpace) = (false, text) := by
    simpa only [List.append_nil] using @scanSign_digits text [] hne hdigits
  have htake : text.takeWhile isDigit = text := List.takeWhile_eq_self_iff.mpr hdigits
  have hdrop : text.dropWhile isDigit = [] := List.dropWhile_eq_nil_iff.mpr hdigits
  simp only [strtol10, hsign, htake, hdrop]
  exact if_neg hne

/-- **A port in digits** is the number that it denotes. -/
theorem parsePort_digits {text : Bytes} {port : Option Nat} (hdigits : ∀ c ∈ text, isDigit c = true)
    (h : parsePort (some text) = .ok port) : PortText text (port.getD 0) := by
  unfold parsePort at h
  dsimp only at h
  split at h
  · cases h
  next hlen =>
  have hne : text ≠ [] := by
    rintro rfl
    exact hlen (Or.inl rfl)
  rw [strtol10_digits hne hdigits] at h
  dsimp only at h
  split at h
  · cases h
  next hrange =>
    cases h
    rw [not_or, not_or] at hrange
    have hvalue : (min (decimalValue text : Int) (2 ^ 63 - 1)).toNat = decimalValue text := by omega
    refine ⟨⟨hne, hdigits⟩, hvalue, ?_⟩
    show 1 ≤ (min (decimalValue text : Int) (2 ^ 63 - 1)).toNat ∧
      (min (decimalValue text : Int) (2 ^ 63 - 1)).toNat ≤ 65535
    omega

/-! ## The parser -/

/-- The user information of an authority, if it has an `@`. -/
def userOf (authority : Bytes) : Option Bytes := (Lib.Separated.cut (chr '@') authority).map Prod.fst

/-- An authority is its user information and what stands behind it. -/
theorem authority_user (authority : Bytes) :
    authority = (match userOf authority with
      | none => []
      | some u => u ++ [chr '@']) ++ behindUser authority ∧ chr '@' ∉ behindUser authority := by
  rw [userOf, behindUser]
  cases hcut : Lib.Separated.cut (chr '@') authority with
  | none => exact ⟨rfl, Lib.Separated.cut_eq_none.mp hcut⟩
  | some parts =>
    obtain ⟨user, hostport⟩ := parts
    obtain ⟨hsame, hnone⟩ := Lib.Separated.cut_eq_some.mp hcut
    refine ⟨?_, hnone⟩
    show authority = user ++ [chr '@'] ++ hostport
    rw [List.append_assoc, List.singleton_append, ← hsame]

/-- The parts of an authority and the text behind it. -/
def partsOf (authority tail : Bytes) : Parts :=
  { userinfo := userOf authority
    host := (splitFirst (chr ':') (behindUser authority)).1
    port := (splitFirst (chr ':') (behindUser authority)).2
    path := (splitFirst (chr '?') (splitFirst (chr '#') tail).1).1
    query := (splitFirst (chr '?') (splitFirst (chr '#') tail).1).2
    fragment := (splitFirst (chr '#') tail).2 }

/-- `parseAuthority`, step by step: the parts of the authority, with a port that is read. -/
theorem parseAuthority_parts {input scheme rest : Bytes} {url : Url}
    (h : parseAuthority input scheme rest = .ok url) :
    let p := partsOf (rest.takeWhile fun c => !isStop c) (rest.dropWhile fun c => !isStop c)
    ∃ port, parsePort p.port = .ok port ∧ p.host ≠ [] ∧
      url = { original := input, scheme := scheme, host := p.host.map toLower
              path := (parseTail (rest.dropWhile fun c => !isStop c)).1
              query := p.query.getD [], fragment := p.fragment.getD []
              username := (splitFirst (chr ':') (p.userinfo.getD [])).1
              password := (splitFirst (chr ':') (p.userinfo.getD [])).2.getD []
              port := port.getD 0, hasPort := port.isSome } := by
  have hstop : (fun c => !(c == chr '/' || c == chr '?' || c == chr '#')) = fun c => !isStop c := rfl
  intro p
  unfold parseAuthority at h
  dsimp only at h
  rw [hstop] at h
  by_cases hempty : (rest.takeWhile fun c => !isStop c) = []
  · exact absurd ((if_pos hempty).symm.trans h) (by simp)
  · rw [if_neg hempty] at h
    obtain ⟨port, hport, h⟩ := Res.bind_eq_ok.mp h
    refine ⟨port, ?_, ?_⟩
    · show parsePort (splitFirst (chr ':') (behindUser (rest.takeWhile fun c => !isStop c))).2 = _
      rw [behindUser]
      cases hcut : Lib.Separated.cut (chr '@') (rest.takeWhile fun c => !isStop c) with
      | none => rw [hcut] at hport; exact hport
      | some parts => rw [hcut] at hport; exact hport
    · by_cases hmissing : p.host = []
      · have hno : (splitFirst (chr ':') (behindUser (rest.takeWhile fun c => !isStop c))).1 = [] := hmissing
        rw [behindUser] at hno
        cases hcut : Lib.Separated.cut (chr '@') (rest.takeWhile fun c => !isStop c) with
        | none => rw [hcut] at h hno; exact absurd ((if_pos hno).symm.trans h) (by simp)
        | some parts => rw [hcut] at h hno; exact absurd ((if_pos hno).symm.trans h) (by simp)
      · refine ⟨hmissing, ?_⟩
        have hhost : (splitFirst (chr ':') (behindUser (rest.takeWhile fun c => !isStop c))).1 ≠ [] :=
          hmissing
        have hhost' : p.host = (splitFirst (chr ':') (behindUser (rest.takeWhile fun c => !isStop c))).1 :=
          rfl
        have huser : p.userinfo = userOf (rest.takeWhile fun c => !isStop c) := rfl
        rw [hhost', huser]
        rw [behindUser] at hhost ⊢
        rw [userOf]
        cases hcut : Lib.Separated.cut (chr '@') (rest.takeWhile fun c => !isStop c) with
        | none =>
          rw [hcut] at h hhost
          exact (Except.ok.inj ((if_neg hhost).symm.trans h)).symm
        | some parts =>
          rw [hcut] at h hhost
          exact (Except.ok.inj ((if_neg hhost).symm.trans h)).symm

theorem splitFirst_cons_self (c : UInt8) (t : Bytes) : splitFirst c (c :: t) = ([], some t) :=
  splitFirst_of List.not_mem_nil (some t)

theorem splitFirst_cons_ne {c d : UInt8} (h : d ≠ c) (t : Bytes) :
    splitFirst c (d :: t) = (d :: (splitFirst c t).1, (splitFirst c t).2) := by
  obtain ⟨ht, hnone⟩ := splitFirst_eq c t
  have hsame : d :: t = (d :: (splitFirst c t).1) ++ marked c (splitFirst c t).2 := by
    rw [List.cons_append, ← ht]
  conv_lhs => rw [hsame]
  exact splitFirst_of (List.not_mem_cons_of_ne_of_not_mem h.symm hnone) _

/-- The parts behind an authority make up the text. -/
theorem partsOf_tail (authority tail : Bytes) : (partsOf authority tail).tail = tail := by
  obtain ⟨htail, -⟩ := splitFirst_eq (chr '#') tail
  obtain ⟨hfront, -⟩ := splitFirst_eq (chr '?') (splitFirst (chr '#') tail).1
  show (splitFirst (chr '?') (splitFirst (chr '#') tail).1).1 ++
    (marked (chr '?') (splitFirst (chr '?') (splitFirst (chr '#') tail).1).2 ++
      marked (chr '#') (splitFirst (chr '#') tail).2) = tail
  rw [← List.append_assoc, ← hfront, ← htail]

/-- A path is missing, or it begins with a `/`; when it is missing it is `/`. -/
theorem partsOf_path (authority : Bytes) {tail : Bytes} (hhead : ∀ c ∈ tail.head?, isStop c = true) :
    ((partsOf authority tail).path = [] ∨ (partsOf authority tail).path.head? = some (chr '/')) ∧
      (parseTail tail).1 =
        if (partsOf authority tail).path = [] then str "/" else (partsOf authority tail).path := by
  cases tail with
  | nil => exact ⟨Or.inl rfl, rfl⟩
  | cons c t =>
    have hc : isStop c = true := hhead c rfl
    rw [isStop, Bool.or_eq_true, Bool.or_eq_true, beq_iff_eq, beq_iff_eq, beq_iff_eq] at hc
    show ((splitFirst (chr '?') (splitFirst (chr '#') (c :: t)).1).1 = [] ∨
      (splitFirst (chr '?') (splitFirst (chr '#') (c :: t)).1).1.head? = some (chr '/')) ∧
      (if (c :: t).head? = some (chr '/') then (splitFirst (chr '?') (splitFirst (chr '#') (c :: t)).1).1
        else str "/") =
      if (splitFirst (chr '?') (splitFirst (chr '#') (c :: t)).1).1 = [] then str "/"
        else (splitFirst (chr '?') (splitFirst (chr '#') (c :: t)).1).1
    rcases hc with (rfl | rfl) | rfl
    · rw [splitFirst_cons_ne (by decide), splitFirst_cons_ne (by decide)]
      exact ⟨Or.inr rfl, (if_pos rfl).trans (if_neg (List.cons_ne_nil _ _)).symm⟩
    · rw [splitFirst_cons_ne (by decide), splitFirst_cons_self]
      exact ⟨Or.inl rfl, (if_neg (show some (chr '?') ≠ some (chr '/') by decide)).trans (if_pos rfl).symm⟩
    · rw [splitFirst_cons_self]
      exact ⟨Or.inl rfl, (if_neg (show some (chr '#') ≠ some (chr '/') by decide)).trans (if_pos rfl).symm⟩

theorem partsOf_authority (authority tail : Bytes) : (partsOf authority tail).authority = authority := by
  have hsplit := (splitFirst_eq (chr ':') (behindUser authority)).1
  have huser := (authority_user authority).1
  show _ ++ (_ ++ _) = authority
  conv_rhs => rw [huser, hsplit]
  rfl

/-- Every delimiter is where it should be. -/
theorem partsOf_delimited {authority tail : Bytes} (hstop : ∀ c ∈ authority, isStop c = false)
    (hhead : ∀ c ∈ tail.head?, isStop c = true) (hhost : (partsOf authority tail).host ≠ []) :
    (partsOf authority tail).Delimited where
  authority := by
    rw [partsOf_authority]
    exact hstop
  host := ⟨hhost, (splitFirst_eq (chr ':') (behindUser authority)).2⟩
  user := by
    obtain ⟨hsplit, -⟩ := splitFirst_eq (chr ':') (behindUser authority)
    show chr '@' ∉ (splitFirst (chr ':') (behindUser authority)).1 ++
      marked (chr ':') (splitFirst (chr ':') (behindUser authority)).2
    rw [← hsplit]
    exact (authority_user authority).2
  path := by
    obtain ⟨hfront, hquery⟩ := splitFirst_eq (chr '?') (splitFirst (chr '#') tail).1
    obtain ⟨-, hfragment⟩ := splitFirst_eq (chr '#') tail
    refine ⟨(partsOf_path authority hhead).1, hquery, fun hmem => hfragment ?_⟩
    rw [hfront]
    exact List.mem_append_left _ hmem
  query q hq := by
    obtain ⟨hfront, -⟩ := splitFirst_eq (chr '?') (splitFirst (chr '#') tail).1
    obtain ⟨-, hfragment⟩ := splitFirst_eq (chr '#') tail
    have hquery : (splitFirst (chr '?') (splitFirst (chr '#') tail).1).2 = some q := hq
    rw [hquery] at hfront
    intro hmem
    rw [hfront] at hfragment
    exact hfragment (List.mem_append_right _ (List.mem_cons_of_mem _ hmem))

/-- **The parser cuts the input into its parts**, and reads the port. -/
theorem urlParse_parts {input : Bytes} {url : Url} (h : urlParse input = .ok url) :
    ∃ p : Parts, p.Delimited ∧ p.StoredIn url ∧
      (∃ port, parsePort p.port = .ok port ∧ url.port = port.getD 0) ∧
      input = url.scheme ++ (str "://" ++ (p.authority ++ p.tail)) := by
  unfold urlParse at h
  split at h
  · cases h
  dsimp only at h
  split at h
  · cases h
  next hscheme =>
  split at h
  · cases h
  next hnonempty =>
  split at h
  next colon s1 s2 rest hdrop =>
    split at h
    next hslashes =>
      obtain ⟨rfl, rfl, rfl⟩ := hslashes
      obtain ⟨port, hport, hhost, hurl⟩ := parseAuthority_parts h
      have hinput : input = input.takeWhile (· != chr ':') ++ (str "://" ++ rest) := by
        have htake : input.takeWhile (· != chr ':') = input.take (input.takeWhile (· != chr ':')).length :=
          List.prefix_iff_eq_take.mp (List.takeWhile_prefix _)
        have happ := List.take_append_drop (input.takeWhile (· != chr ':')).length input
        rw [hdrop, ← htake] at happ
        exact happ.symm
      have hhead : ∀ c ∈ (rest.dropWhile fun c => !isStop c).head?, isStop c = true := by
        intro c hc
        have hno := List.head?_dropWhile_not (fun c => !isStop c) rest
        rw [show (rest.dropWhile fun c => !isStop c).head? = some c from hc] at hno
        simpa using hno
      have hstop : ∀ c ∈ rest.takeWhile fun c => !isStop c, isStop c = false := by
        intro c hc
        have hall := List.all_eq_true.mp (List.all_takeWhile (p := fun c => !isStop c) (l := rest)) c hc
        simpa using hall
      obtain ⟨huser, hcolon⟩ := splitFirst_eq (chr ':') ((userOf (rest.takeWhile fun c => !isStop c)).getD [])
      refine ⟨_, partsOf_delimited hstop hhead hhost, ?_, ⟨port, hport, ?_⟩, ?_⟩
      · subst hurl
        exact
          { scheme := ⟨hnonempty, by simpa using hscheme⟩
            user := ⟨_, huser, rfl, hcolon⟩
            host := rfl
            path := (partsOf_path _ hhead).2
            query := rfl
            fragment := rfl
            hasPort := by
              cases hp : (partsOf (rest.takeWhile fun c => !isStop c)
                  (rest.dropWhile fun c => !isStop c)).port with
              | none =>
                rw [hp] at hport
                cases hport
                rfl
              | some t =>
                rw [hp] at hport
                exact (parsePort_some hport).symm ▸ rfl }
      · subst hurl
        rfl
      · subst hurl
        rw [partsOf_authority, partsOf_tail, List.takeWhile_append_dropWhile]
        exact hinput
    next => cases h
  next => cases h

/-! ## The result -/

/-- **The split is lossless** exactly if the port is written in digits. -/
theorem lossless_iff (input : Bytes) (url : Url) (h : urlParse input = .ok url) :
    Lossless input url ↔ PlainPort input := by
  constructor
  · rintro ⟨p, hdelimited, hstored, hport, hinput⟩ t ht
    rw [hinput, portText_parts hdelimited hstored.scheme.2] at ht
    exact (hport t ht).digits.2
  · intro hplain
    obtain ⟨p, hdelimited, hstored, ⟨port, hport, hurl⟩, hinput⟩ := urlParse_parts h
    refine ⟨p, hdelimited, hstored, ?_, hinput⟩
    intro t ht
    rw [ht] at hport
    rw [hurl]
    refine parsePort_digits (hplain t ?_) hport
    rw [hinput, portText_parts hdelimited hstored.scheme.2, ht]

/-- A URL with all its parts. -/
def sampleUrl : Url :=
  { original := str "http://u:p@Ex:80/a?q#f", scheme := str "http", host := str "ex", path := str "/a"
    query := str "q", fragment := str "f", username := str "u", password := str "p", port := 80
    hasPort := true }

theorem lossless_sample : Lossless (str "http://u:p@Ex:80/a?q#f") sampleUrl :=
  (lossless_iff (str "http://u:p@Ex:80/a?q#f") sampleUrl rfl).mpr fun t ht c hc => by
    have hport : portText (str "http://u:p@Ex:80/a?q#f") = some (str "80") := by decide
    cases hport.symm.trans ht
    exact List.all_eq_true.mp (show (str "80").all isDigit = true by decide) c hc

/-- **A sign is taken for part of a port.** -/
theorem signed_port : ¬ ∀ (input : Bytes) (url : Url), urlParse input = .ok url → Lossless input url := by
  intro hall
  obtain ⟨p, hdelimited, hstored, hport, hinput⟩ := hall (str "http://a:+80/")
    { original := str "http://a:+80/", scheme := str "http", host := str "a", path := str "/", query := []
      fragment := [], username := [], password := [], port := 80, hasPort := true } rfl
  have htext := portText_parts hdelimited hstored.scheme.2
  rw [← hinput, show portText (str "http://a:+80/") = some (str "+80") by decide] at htext
  exact absurd ((hport _ htext.symm).digits.2 (chr '+') List.mem_cons_self) (by decide)

end SmolClaw.Net
