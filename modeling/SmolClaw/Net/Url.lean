/-
  URLs (`src/net/url.c`), the two private-address tables (`url.c` and `src/net/http_client.c`), and
  the policy check on URLs (`sc_security_validate_url`, `src/security/domain_matcher.c`).

  The parser cuts the text at the first separator of each kind: scheme up to `:`, authority up to `/`,
  `?` or `#`, user information up to the LAST `@`, port after the first `:` of the rest.  Numbers go
  through `strtol`, which skips blanks and takes a sign.
-/
import SmolClaw.Core.Double
import SmolClaw.Core.Text
import SmolClaw.Core.WholeNumber
import SmolClaw.Lib.Separated
import SmolClaw.Security.Policy

namespace SmolClaw.Net

open SmolClaw.Security

/-! ## Library functions -/

/-- `isspace` in the C locale -/
def isSpace (c : UInt8) : Bool := c == chr ' ' || (9 ≤ c && c ≤ 13)

def isAlnum (c : UInt8) : Bool :=
  isDigit c || (chr 'a' ≤ c && c ≤ chr 'z') || (chr 'A' ≤ c && c ≤ chr 'Z')

/-- `strtol(text, &end, 10)` with a 64-bit `long`: the value, clamped, and the text at `end`; `none`
    when `end == text`. -/
def strtol10 (text : Bytes) : Option (Int × Bytes) :=
  let (neg, rest) := scanSign (text.dropWhile isSpace)
  let digits := rest.takeWhile isDigit
  if digits = [] then none
  else
    let value : Int := decimalValue digits
    some (if neg then max (-value) (-2 ^ 63) else min value (2 ^ 63 - 1), rest.dropWhile isDigit)

/-- A digit is neither a blank nor a sign. -/
theorem scanSign_digits {digits rest : Bytes} (hne : digits ≠ []) (hdigits : ∀ c ∈ digits, isDigit c = true) :
    scanSign ((digits ++ rest).dropWhile isSpace) = (false, digits ++ rest) := by
  obtain ⟨d, ds, rfl⟩ := List.exists_cons_of_ne_nil hne
  have hbyte : ∀ d, isDigit d = true → isSpace d = false ∧ d ≠ chr '-' ∧ d ≠ chr '+' := by
    apply byte_forall
    decide +kernel
  obtain ⟨hspace, hminus, hplus⟩ := hbyte d (hdigits d List.mem_cons_self)
  rw [List.cons_append, List.dropWhile_cons_of_neg (by rw [hspace]; exact Bool.false_ne_true),
    scanSign, if_neg hminus, if_neg hplus]

/-- A printed integer is a sign and digits. -/
theorem scanSign_decimalInt (n : Int) :
    scanSign ((decimalInt n).dropWhile isSpace) = (decide (n < 0), decimal n.natAbs) := by
  by_cases hneg : n < 0
  · rw [decimalInt, if_pos hneg, decide_eq_true hneg, List.dropWhile_cons_of_neg (by decide)]
    rfl
  · have hdigits := @scanSign_digits _ [] (decimal_ne_nil n.natAbs) (decimal_isDigit n.natAbs)
    rw [List.append_nil] at hdigits
    rw [decimalInt, if_neg hneg, decide_eq_false hneg, hdigits]

/-- `*end == '\0'`, in a buffer that is padded with zeros -/
def atNul (rest : Bytes) : Bool := rest.headD 0 == 0

/-! ## `sc_url` -/

/-- `sc_url` -/
structure Url where
  original : Bytes
  scheme : Bytes
  host : Bytes
  path : Bytes
  query : Bytes
  fragment : Bytes
  username : Bytes
  password : Bytes
  port : Nat
  hasPort : Bool

/-- `is_scheme_char` -/
def isSchemeChar (c : UInt8) : Bool := isAlnum c || c == chr '+' || c == chr '-' || c == chr '.'

/-- A text up to the first byte `c`, and what follows that byte, if it occurs. -/
def splitFirst (c : UInt8) (text : Bytes) : Bytes × Option Bytes :=
  let before := text.takeWhile (· != c)
  (before, if c ∈ text then some (text.drop (before.length + 1)) else none)

/-- The port after the host's colon: `none` when the host has none. -/
def parsePort : Option Bytes → Res (Option Nat)
  | none => .ok none
  | some text =>
      if text.length = 0 ∨ 8 ≤ text.length then Status.parse "sc.url.invalid_port"
      else
        match strtol10 text with
        | none => Status.parse "sc.url.invalid_port"
        | some (port, rest) =>
            if !atNul rest ∨ port ≤ 0 ∨ 65535 < port then Status.parse "sc.url.invalid_port"
            else .ok (some port.toNat)

/-- Path, query and fragment: the fragment starts at the first `#`, the query at the first `?` before
    it; a text that starts with neither a path has the path `/`. -/
def parseTail (tail : Bytes) : Bytes × Bytes × Bytes :=
  let (front, fragment) := splitFirst (chr '#') tail
  let (path, query) := splitFirst (chr '?') front
  (if tail.head? = some (chr '/') then path else str "/", query.getD [], fragment.getD [])

/-- `sc_url_parse`, after scheme and `://` -/
def parseAuthority (input scheme rest : Bytes) : Res Url := do
  let stop (c : UInt8) : Bool := c == chr '/' || c == chr '?' || c == chr '#'
  let authority := rest.takeWhile fun c => !stop c
  let tail := rest.dropWhile fun c => !stop c
  if authority = [] then Status.parse "sc.url.missing_host"
  else
    let (userinfo, hostport) :=
      match Lib.Separated.cut (chr '@') authority with
      | some (userinfo, hostport) => (userinfo, hostport)
      | none => ([], authority)
    let (username, password) := splitFirst (chr ':') userinfo
    let (host, portText) := splitFirst (chr ':') hostport
    let port ← parsePort portText
    if host = [] then Status.parse "sc.url.missing_host"
    else
      let (path, query, fragment) := parseTail tail
      .ok { original := input, scheme := scheme, host := host.map toLower, path := path,
            query := query, fragment := fragment, username := username,
            password := password.getD [], port := port.getD 0, hasPort := port.isSome }

/-- `sc_url_parse` -/
def urlParse (input : Bytes) : Res Url :=
  if input = [] then Status.invalidArgument "sc.url.invalid_argument"
  else
    let scheme := input.takeWhile (· != chr ':')
    if !scheme.all isSchemeChar then Status.parse "sc.url.invalid_scheme"
    else if scheme = [] then Status.parse "sc.url.expected_absolute_url"
    else
      match input.drop scheme.length with
      | colon :: s1 :: s2 :: rest =>
          if colon = chr ':' ∧ s1 = chr '/' ∧ s2 = chr '/' then parseAuthority input scheme rest
          else Status.parse "sc.url.expected_absolute_url"
      | _ => Status.parse "sc.url.expected_absolute_url"

/-- `sc_url_has_credentials` -/
def urlHasCredentials (url : Url) : Bool := 0 < url.username.length || 0 < url.password.length

/-- `sc_url_reject_credentials` -/
def urlRejectCredentials (url : Url) : Res Unit :=
  if urlHasCredentials url then Status.securityDenied "sc.url.credentials_denied" else .ok ()

/-- `sc_url_host_matches_domain`: the host is the domain, or ends in a dot and the domain. -/
def urlHostMatchesDomain (url : Url) (domain : Bytes) : Bool :=
  if domain = [] then false
  else if url.host = domain then true
  else if url.host.length ≤ domain.length ∨
      url.host[url.host.length - domain.length - 1]? ≠ some (chr '.') then false
  else url.host.drop (url.host.length - domain.length) == domain

/-! ## Private addresses -/

/-- The loop of `parse_ipv4`, with the number of parts that are left. -/
def parseOctets : Nat → Bytes → Option (List Nat)
  | 0, _ => none
  | n + 1, cursor =>
      match strtol10 cursor with
      | none => none
      | some (value, rest) =>
          if value < 0 ∨ 255 < value then none
          else if n = 0 then if atNul rest then some [value.toNat] else none
          else
            match rest with
            | c :: cursor =>
                if c = chr '.' then (parseOctets n cursor).map (value.toNat :: ·) else none
            | [] => none

/-- `parse_ipv4` -/
def parseIpv4 (host : Bytes) : Option (List Nat) :=
  if 32 ≤ host.length then none else parseOctets 4 host

/-- The table of `sc_url_host_is_private_address`, on the first two octets. -/
def urlPrivateRange (a b : Nat) : Bool :=
  a == 0 || a == 10 || a == 127 || 224 ≤ a || (a == 100 && 64 ≤ b && b ≤ 127) ||
    (a == 172 && 16 ≤ b && b ≤ 31) || (a == 192 && b == 168) || (a == 169 && b == 254) ||
    (a == 198 && (b == 18 || b == 19))

/-- `sc_url_host_is_private_address`, on the URL's host -/
def urlHostIsPrivateAddress (host : Bytes) : Bool :=
  if host = str "localhost" then true
  else
    match parseIpv4 host with
    | some (a :: b :: _) => urlPrivateRange a b
    | _ => false

/-- `struct sockaddr`, by family; an IPv4 address is the 32-bit number in host order, an IPv6 address
    its 16 bytes. -/
inductive Sockaddr where
  | inet (host : UInt32)
  | inet6 (bytes : Vector UInt8 16)
  | otherFamily

/-- The table of `http_sockaddr_is_private`, on the first two octets. -/
def httpPrivateRange (a b : Nat) : Bool :=
  a == 0 || a == 10 || a == 127 || 224 ≤ a || (a == 100 && 64 ≤ b && b ≤ 127) ||
    (a == 169 && b == 254) || (a == 172 && 16 ≤ b && b ≤ 31) || (a == 192 && (b == 0 || b == 168)) ||
    (a == 198 && (b == 18 || b == 19))

/-- `http_sockaddr_is_private` on an `AF_INET` address -/
def inetIsPrivate (host : UInt32) : Bool :=
  httpPrivateRange ((host >>> 24) &&& 0xFF).toNat ((host >>> 16) &&& 0xFF).toNat

/-- `http_sockaddr_is_private` -/
def httpSockaddrIsPrivate : Sockaddr → Bool
  | .inet host => inetIsPrivate host
  | .inet6 bytes =>
      let zeros (n : Nat) : Bool := (bytes.toList.take n).all (· == 0)
      let unspecified := zeros 16
      let loopback := zeros 15 && bytes[15] == 1
      let multicast := bytes[0] == 0xFF
      let linkLocal := bytes[0] == 0xFE && bytes[1] &&& 0xC0 == 0x80
      if unspecified || loopback || multicast || linkLocal then true
      else if bytes[0] &&& 0xFE == 0xFC then true
      else if zeros 10 && bytes[10] == 0xFF && bytes[11] == 0xFF then
        inetIsPrivate ((bytes[12].toUInt32 <<< 24) ||| (bytes[13].toUInt32 <<< 16) |||
          (bytes[14].toUInt32 <<< 8) ||| bytes[15].toUInt32)
      else false
  | .otherFamily => true

/-! ## The policy -/

/-- `domain_list_matches` -/
def domainListMatches (domains : List Bytes) (url : Url) : Bool :=
  domains.any (urlHostMatchesDomain url)

/-- The checks of `sc_security_validate_url` on a parsed URL, in order. -/
def checkUrl (policy : SecurityPolicy) (url : Url) : Res Unit :=
  if url.scheme ≠ str "http" ∧ url.scheme ≠ str "https" then
    Status.securityDenied "sc.security.url_scheme_denied"
  else
    match if policy.urlCredentialsAllowed then .ok () else urlRejectCredentials url with
    | .error e => .error e
    | .ok () =>
        if domainListMatches policy.deniedDomains url then
          Status.securityDenied "sc.security.domain_denied"
        else if 0 < policy.allowedDomains.length ∧ !domainListMatches policy.allowedDomains url then
          Status.securityDenied "sc.security.domain_not_allowed"
        else if policy.privateNetworkPolicy = .block ∧ urlHostIsPrivateAddress url.host then
          Status.securityDenied "sc.security.private_network_denied"
        else .ok ()

/-- `sc_security_validate_url` -/
def validateUrl (policy : SecurityPolicy) (urlText : Bytes) : Res Unit :=
  if urlText = [] then Status.invalidArgument "sc.security.url_invalid_argument"
  else
    match urlParse urlText with
    | .error e => .error e
    | .ok url => checkUrl policy url

end SmolClaw.Net
