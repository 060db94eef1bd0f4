/-
  Domain lists (`sc_url_host_matches_domain`, `src/net/url.c`; `domain_list_matches` and
  `sc_security_validate_url`, `src/security/domain_matcher.c`).

  1. **Specification** — `Covers`: a host lies in a domain if the labels of the domain are the last labels of
     the host, whatever the case of their letters.

  2. **Program** — the test looks at one byte in front of a suffix.  On bytes that is the right test: labels
     end in labels exactly if one text is the other, or ends in a dot and the other
     (`Lib.Separated.splitOn_suffix_iff`).

  3. **Defect** — `sc_url_parse` lowers the host so that case plays no part, and nobody lowers the domain.  An
     entry with an upper-case letter matches no host at all (`hostMatches_iff`), and what it denies is open.

  4. **Result** — `domainList_iff`: an entry does what it says for every URL exactly if it has no upper-case
     letter, or if it cannot be a host anyway.
-/
import SmolClaw.Net.UrlSplit

namespace SmolClaw.Net

open SmolClaw.Security

/-! ## Specification -/

/-- The labels of a name, in lower case. -/
def labels (name : Bytes) : List Bytes := (name.map toLower).splitOn (chr '.')

/-- **The host is the domain, or a subdomain of it.** -/
def Covers (domain host : Bytes) : Prop := labels domain <:+ labels host

/-- An entry of a list works: it matches the hosts that it covers, and a policy that denies it lets none of
    them pass. -/
def EntryWorks (domain : Bytes) : Prop :=
  ∀ (text : Bytes) (url : Url), urlParse text = .ok url →
    (urlHostMatchesDomain url domain = true ↔ Covers domain url.host) ∧
    ∀ policy : SecurityPolicy, domain ∈ policy.deniedDomains → Covers domain url.host →
      validateUrl policy text ≠ .ok ()

/-- What `sc_url_parse` leaves in no host: the marks of the parts around it. -/
def isHostEnd (c : UInt8) : Bool := isStop c || c == chr ':' || c == chr '@'

/-! ## Letters -/

theorem toLower_toLower (c : UInt8) : toLower (toLower c) = toLower c := by
  revert c
  apply byte_forall
  decide +kernel

theorem toLower_isHostEnd (c : UInt8) : isHostEnd (toLower c) = isHostEnd c ∧
    (isHostEnd c = true → toLower c = c) := by
  revert c
  apply byte_forall
  decide +kernel

theorem map_toLower_of {s : Bytes} (h : ∀ c ∈ s, toLower c = c) : s.map toLower = s := by
  rw [List.map_congr_left h, List.map_id']

/-! ## Hosts -/

variable {text domain : Bytes} {url : Url}

/-- The host of a URL is in lower case, and holds none of the marks around it. -/
theorem host_bytes (h : urlParse text = .ok url) :
    ∀ c ∈ url.host, toLower c = c ∧ isHostEnd c = false := by
  obtain ⟨p, hdelimited, hstored, -, -⟩ := urlParse_parts h
  intro c hc
  rw [hstored.host] at hc
  obtain ⟨b, hb, rfl⟩ := List.mem_map.mp hc
  refine ⟨toLower_toLower b, ?_⟩
  rw [(toLower_isHostEnd b).1]
  have htext : b ∈ p.hostText := List.mem_append_left _ hb
  have hstop : isStop b = false := hdelimited.authority b (List.mem_append_right _ htext)
  have hcolon : b ≠ chr ':' := fun heq => hdelimited.host.2 (heq ▸ hb)
  have hat : b ≠ chr '@' := fun heq => hdelimited.user (heq ▸ htext)
  rw [isHostEnd, hstop, beq_false_of_ne hcolon, beq_false_of_ne hat]
  rfl

theorem map_host (h : urlParse text = .ok url) : url.host.map toLower = url.host :=
  map_toLower_of fun c hc => (host_bytes h c hc).1

/-- A domain as a URL. -/
theorem urlParse_domain (hne : domain ≠ []) (hends : ∀ c ∈ domain, isHostEnd c = false) :
    ∃ url, urlParse (str "http://" ++ domain) = .ok url ∧ url.host = domain.map toLower := by
  have hbytes : ∀ c ∈ domain, isStop c = false ∧ c ≠ chr ':' ∧ c ≠ chr '@' := by
    intro c hc
    have hend := hends c hc
    simp only [isHostEnd, Bool.or_eq_false_iff, beq_eq_false_iff_ne] at hend
    exact ⟨hend.1.1, hend.1.2, hend.2⟩
  have hauthority : ∀ input, ∃ url, parseAuthority input (str "http") domain = .ok url ∧
      url.host = domain.map toLower := by
    intro input
    have hstop : (fun c => !(c == chr '/' || c == chr '?' || c == chr '#')) = fun c => !isStop c := rfl
    have hall : ∀ c ∈ domain, (!isStop c) = true := fun c hc => by rw [(hbytes c hc).1]; rfl
    have htake : (domain.takeWhile fun c => !isStop c) = domain := List.takeWhile_eq_self_iff.mpr hall
    have hdrop : (domain.dropWhile fun c => !isStop c) = [] := List.dropWhile_eq_nil_iff.mpr hall
    have hcut : Lib.Separated.cut (chr '@') domain = none :=
      Lib.Separated.cut_eq_none.mpr fun hmem => (hbytes _ hmem).2.2 rfl
    have hsplit : splitFirst (chr ':') domain = (domain, none) := by
      have h : splitFirst (chr ':') (domain ++ marked (chr ':') none) = (domain, none) :=
        splitFirst_of (fun hmem => (hbytes _ hmem).2.1 rfl) none
      rwa [marked, List.append_nil] at h
    unfold parseAuthority
    dsimp only
    rw [hstop, htake, hdrop, if_neg hne, hcut]
    dsimp only
    rw [hsplit]
    dsimp only [parsePort, bind, Except.bind]
    rw [if_neg hne]
    exact ⟨_, rfl, rfl⟩
  have hscheme : (str "http://" ++ domain).takeWhile (· != chr ':') = str "http" :=
    Lib.Separated.takeWhile_stretch (s := str "http") (t := str "://" ++ domain)
      (List.all_eq_true.mp (by decide)) fun c hc => by cases hc; rfl
  unfold urlParse
  rw [if_neg (by rintro ⟨⟩)]
  dsimp only
  rw [hscheme]
  exact hauthority _

/-! ## The test -/

/-- The test on bytes: the host is the domain, or ends in a dot and the domain. -/
theorem hostMatches_bytes (url : Url) (hne : domain ≠ []) :
    urlHostMatchesDomain url domain = true ↔
      url.host = domain ∨ ∃ front, url.host = front ++ chr '.' :: domain := by
  unfold urlHostMatchesDomain
  rw [if_neg hne]
  by_cases heq : url.host = domain
  · rw [if_pos heq]
    exact iff_of_true rfl (Or.inl heq)
  rw [if_neg heq]
  constructor
  · intro htest
    split at htest
    · cases htest
    next hlonger =>
      obtain ⟨hlen, hdot⟩ := not_or.mp hlonger
      obtain ⟨hbound, hget⟩ := List.getElem?_eq_some_iff.mp (not_not.mp hdot)
      have hnext : url.host.length - domain.length - 1 + 1 = url.host.length - domain.length := by omega
      have hsplit := List.take_append_drop (url.host.length - domain.length - 1) url.host
      rw [List.drop_eq_getElem_cons hbound, hget, hnext, beq_iff_eq.mp htest] at hsplit
      exact Or.inr ⟨_, hsplit.symm⟩
  · rintro (hhost | ⟨front, hfront⟩)
    · exact absurd hhost heq
    · have hlen : url.host.length = front.length + (domain.length + 1) := by
        rw [hfront, List.length_append, List.length_cons]
      have hdot : url.host[front.length]? = some (chr '.') := by
        rw [hfront, List.getElem?_append_right (Nat.le_refl _), Nat.sub_self, List.getElem?_cons_zero]
      have hdrop : url.host.drop (front.length + 1) = domain := by
        rw [hfront, List.append_cons]
        exact List.drop_left' List.length_append
      rw [show url.host.length - domain.length - 1 = front.length by omega,
        show url.host.length - domain.length = front.length + 1 by omega, hdrop,
        if_neg (not_or.mpr ⟨by omega, not_not.mpr hdot⟩), beq_self_eq_true]

/-- **What the test does**: it compares labels, with an entry as it is written. -/
theorem hostMatches_iff (h : urlParse text = .ok url) (hne : domain ≠ []) :
    urlHostMatchesDomain url domain = true ↔ Covers domain url.host ∧ ∀ c ∈ domain, toLower c = c := by
  rw [hostMatches_bytes url hne, Covers, labels, labels, Lib.Separated.splitOn_suffix_iff, map_host h]
  constructor
  · intro hends
    have hmem : ∀ c ∈ domain, c ∈ url.host := by
      intro c hc
      rcases hends with hhost | ⟨front, hfront⟩
      · rwa [hhost]
      · rw [hfront]
        exact List.mem_append_right front (List.mem_cons_of_mem _ hc)
    have hlower : ∀ c ∈ domain, toLower c = c := fun c hc => (host_bytes h c (hmem c hc)).1
    rw [map_toLower_of hlower]
    exact ⟨hends, hlower⟩
  · rintro ⟨hends, hlower⟩
    rwa [map_toLower_of hlower] at hends

/-- A denied entry that matches the host lets the URL not pass. -/
theorem validateUrl_denied {policy : SecurityPolicy} (h : urlParse text = .ok url)
    (hdenied : domain ∈ policy.deniedDomains) (hmatch : urlHostMatchesDomain url domain = true) :
    validateUrl policy text ≠ .ok () := by
  have hlist : domainListMatches policy.deniedDomains url = true :=
    List.any_eq_true.mpr ⟨domain, hdenied, hmatch⟩
  unfold validateUrl
  intro hok
  split at hok
  · cases hok
  rw [h] at hok
  dsimp only at hok
  unfold checkUrl at hok
  rw [if_pos hlist] at hok
  split at hok
  · cases hok
  split at hok
  · cases hok
  · cases hok

/-! ## The result -/

/-- **An entry works for every URL** exactly if it has no upper-case letter, or holds a byte that ends a
    host. -/
theorem domainList_iff (domain : Bytes) (hconfigured : domain ≠ []) :
    EntryWorks domain ↔ (∀ c ∈ domain, toLower c = c) ∨ ∃ c ∈ domain, isHostEnd c = true := by
  constructor
  · intro hworks
    by_contra hnone
    obtain ⟨hupper, hends⟩ := not_or.mp hnone
    have hfree : ∀ c ∈ domain, isHostEnd c = false := by
      intro c hc
      exact Bool.eq_false_iff.mpr fun hend => hends ⟨c, hc, hend⟩
    -- the entry itself, as a host
    obtain ⟨url, hparse, hhost⟩ := urlParse_domain hconfigured hfree
    have hcovers : Covers domain url.host := by
      rw [Covers, labels, labels, map_host hparse, hhost]
    exact hupper ((hostMatches_iff hparse hconfigured).mp ((hworks _ _ hparse).1.mpr hcovers)).2
  · intro hentry text url hparse
    have hlower : Covers domain url.host → ∀ c ∈ domain, toLower c = c := by
      intro hcovers
      rcases hentry with hlower | ⟨c, hc, hend⟩
      · exact hlower
      -- a byte that ends a host stands in no host
      · exfalso
        have hmem : toLower c ∈ url.host := by
          rw [Covers, labels, labels, Lib.Separated.splitOn_suffix_iff, map_host hparse] at hcovers
          rcases hcovers with heq | ⟨front, heq⟩
          · rw [heq]
            exact List.mem_map_of_mem hc
          · rw [heq]
            exact List.mem_append_right front (List.mem_cons_of_mem _ (List.mem_map_of_mem hc))
        have hfree := (host_bytes hparse _ hmem).2
        rw [(toLower_isHostEnd c).1, hend] at hfree
        cases hfree
    have hmatches := hostMatches_iff hparse hconfigured
    refine ⟨⟨fun hmatch => (hmatches.mp hmatch).1, ?_⟩, ?_⟩
    · intro hcovers
      exact hmatches.mpr ⟨hcovers, hlower hcovers⟩
    · intro policy hdenied hcovers
      exact validateUrl_denied hparse hdenied (hmatches.mpr ⟨hcovers, hlower hcovers⟩)

/-- The entry of the tests works. -/
theorem domainList_sample : EntryWorks (str "blocked.example.com") := by
  have hlower : (str "blocked.example.com").all (fun c => toLower c == c) = true := by decide
  refine (domainList_iff (str "blocked.example.com") (by decide)).mpr (Or.inl fun c hc => ?_)
  exact beq_iff_eq.mp (List.all_eq_true.mp hlower c hc)

/-- The URL of the defect. -/
def evilUrl : Url where
  original := str "http://evil.example/"
  scheme := str "http"
  host := str "evil.example"
  path := str "/"
  query := []
  fragment := []
  username := []
  password := []
  port := 0
  hasPort := false

/-- **Denied, and open**: the entry `Evil.example` lets `http://evil.example/` pass. -/
theorem denied_open : ¬ ∀ domain : Bytes, domain ≠ [] → EntryWorks domain := by
  intro hworks
  have hentry := hworks (str "Evil.example") (by decide) (str "http://evil.example/") evilUrl rfl
  have hcovers : Covers (str "Evil.example") evilUrl.host := List.suffix_refl _
  exact hentry.2 { deniedDomains := [str "Evil.example"] } List.mem_cons_self hcovers rfl

end SmolClaw.Net
