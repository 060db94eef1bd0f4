/-
  The signatures of named webhooks (`src/channels/webhooks.c`).

  1. **Program** — an endpoint with a secret takes a request if one of four headers carries a value that
     it computes itself: the hexadecimal `HMAC-SHA256` of the body (two headers), the same over the random
     header and the body (Nextcloud Talk), or the base64 form of the first (LINE).

  2. **What is a parameter** — libsodium is not part of the repository: the MAC is
     `hmac : Bytes → Bytes → Digest`, secret and message to 32 bytes.

  3. **Specification** — what was signed is told apart by what it was signed as: a body, or a random and
     a body.

  4. **Result** — a signature binds the BYTES that were signed, and no more: the four schemes share one
     key, and Nextcloud's puts nothing between random and body.  So what is accepted is a body, or a random
     and a body, that together are a text that was signed (`endpointVerifySignature_signed`).
-/
import Mathlib.Data.Set.Insert
import SmolClaw.Core.Base64
import SmolClaw.Core.Text
import SmolClaw.Security.Receipts

namespace SmolClaw.Channels

open Security

/-! ## Data -/

/-- `webhook_endpoint`, as far as its signatures go. -/
structure WebhookEndpoint where
  secret : Bytes := []

/-- `sc_webhook_named_request`, as far as its signatures go. -/
structure NamedRequest where
  body : Bytes
  xHubSignature256 : Bytes := []
  xSignature : Bytes := []
  xLineSignature : Bytes := []
  xNextcloudTalkRandom : Bytes := []
  xNextcloudTalkSignature : Bytes := []

/-! ## Signatures -/

section Signatures

variable (hmac : Bytes → Bytes → Digest) (sodiumInit : Bool)

/-- `hmac_sha256_hex2` -/
def hmacSha256Hex2 (secret leading body : Bytes) : Res Bytes :=
  if sodiumInit then .ok (bin2hex (hmac secret (leading ++ body)).toList)
  else Status.unsupported "sc.webhook_router.crypto_unavailable"

/-- `hmac_sha256_hex` -/
def hmacSha256Hex (secret body : Bytes) : Res Bytes := hmacSha256Hex2 hmac sodiumInit secret [] body

/-- `hmac_sha256_base64` -/
def hmacSha256Base64 (secret body : Bytes) : Res Bytes :=
  if sodiumInit then .ok (base64EncodeOriginal (hmac secret body).toList)
  else Status.unsupported "sc.webhook_router.crypto_unavailable"

/-- `signature_matches` -/
def signatureMatches (provided expected : Bytes) : Bool :=
  if provided.length = 0 ∨ expected.length = 0 ∨ provided.length ≠ expected.length then false
  else provided == expected

/-- `strip_signature_prefix` -/
def stripSignaturePrefix (signature : Bytes) : Bytes :=
  if str "sha256=" <+: signature then signature.drop 7 else signature

/-- One scheme of `endpoint_verify_signature`, if nothing has matched and its header is there. -/
def tryScheme (matched : Bool) (given : Prop) [Decidable given] (expected : Res Bytes)
    (check : Bytes → Bool) : Res Bool :=
  if matched = false ∧ given then expected.map check else .ok matched

/-- `endpoint_verify_signature` -/
def endpointVerifySignature (endpoint : WebhookEndpoint) (request : NamedRequest) : Res Unit :=
  if endpoint.secret = [] then .ok ()
  else if request.xHubSignature256 = [] ∧ request.xSignature = [] ∧ request.xLineSignature = [] ∧
      request.xNextcloudTalkSignature = [] then
    Status.securityDenied "sc.webhook_router.signature_missing"
  else do
    let matched ← tryScheme false (request.xHubSignature256 ≠ [] ∨ request.xSignature ≠ [])
      (hmacSha256Hex hmac sodiumInit endpoint.secret request.body) fun expected =>
        signatureMatches (stripSignaturePrefix request.xHubSignature256) expected ||
          signatureMatches (stripSignaturePrefix request.xSignature) expected
    let matched ← tryScheme matched (request.xNextcloudTalkSignature ≠ [])
      (hmacSha256Hex2 hmac sodiumInit endpoint.secret request.xNextcloudTalkRandom request.body)
      (signatureMatches request.xNextcloudTalkSignature)
    let matched ← tryScheme matched (request.xLineSignature ≠ [])
      (hmacSha256Base64 hmac sodiumInit endpoint.secret request.body)
      (signatureMatches request.xLineSignature)
    if matched then .ok () else Status.securityDenied "sc.webhook_router.signature_denied"

end Signatures

/-! ## Specification -/

/-- What the holder of a secret has signed: bodies, and randoms with bodies. -/
structure Signed where
  bodies : Set Bytes
  pairs : Set (Bytes × Bytes)

/-- The texts that the MAC was taken of. -/
def Signed.texts (signed : Signed) : Set Bytes :=
  {text | text ∈ signed.bodies ∨ ∃ random body, (random, body) ∈ signed.pairs ∧ text = random ++ body}

section Specification

variable (hmac : Bytes → Bytes → Digest) (secret : Bytes) (signed : Signed)

/-- The hexadecimal signature of a text. -/
def hexSignature (text : Bytes) : Bytes := bin2hex (hmac secret text).toList

/-- The signatures that were made. -/
inductive Produced : Bytes → Prop where
  | hub {body : Bytes} : body ∈ signed.bodies → Produced (str "sha256=" ++ hexSignature hmac secret body)
  | generic {body : Bytes} : body ∈ signed.bodies → Produced (hexSignature hmac secret body)
  | line {body : Bytes} : body ∈ signed.bodies →
      Produced (base64EncodeOriginal (hmac secret body).toList)
  | nextcloud {random body : Bytes} : (random, body) ∈ signed.pairs →
      Produced (hexSignature hmac secret (random ++ body))

/-- Every signature header of a request is empty or one that was made. -/
structure CarriesProduced (request : NamedRequest) : Prop where
  hub : request.xHubSignature256 = [] ∨ Produced hmac secret signed request.xHubSignature256
  generic : request.xSignature = [] ∨ Produced hmac secret signed request.xSignature
  line : request.xLineSignature = [] ∨ Produced hmac secret signed request.xLineSignature
  nextcloud : request.xNextcloudTalkSignature = [] ∨
    Produced hmac secret signed request.xNextcloudTalkSignature

/-- The MAC does not collide on what was signed and the two texts of a request.  (A function to 32 bytes
    is injective on no infinite set.) -/
def Collisionless (request : NamedRequest) : Prop :=
  ∀ text ∈ signed.texts, ∀ other ∈ [request.body, request.xNextcloudTalkRandom ++ request.body],
    hmac secret text = hmac secret other → text = other

/-- **A signature binds what it was made for**: a request is taken only if its body was signed, or its
    random with its body. -/
def BindsBody (sodiumInit : Bool) (endpoint : WebhookEndpoint) (request : NamedRequest) : Prop :=
  CarriesProduced hmac endpoint.secret signed request → Collisionless hmac endpoint.secret signed request →
    endpointVerifySignature hmac sodiumInit endpoint request = .ok () →
      request.body ∈ signed.bodies ∨ (request.xNextcloudTalkRandom, request.body) ∈ signed.pairs

end Specification

/-! ## Matching -/

theorem eq_of_signatureMatches {provided expected : Bytes}
    (h : signatureMatches provided expected = true) : provided = expected := by
  rw [signatureMatches] at h
  split at h
  · cases h
  · exact beq_iff_eq.mp h

/-- A scheme that matches matched before, or its header is there and checks. -/
theorem tryScheme_matches {matched : Bool} {given : Prop} [Decidable given] {expected : Res Bytes}
    {check : Bytes → Bool} (h : tryScheme matched given expected check = .ok true) :
    matched = true ∨ given ∧ ∃ signature, expected = .ok signature ∧ check signature = true := by
  rw [tryScheme] at h
  split at h
  · next hgiven =>
    refine Or.inr ⟨hgiven.2, ?_⟩
    cases expected with
    | error e => cases h
    | ok signature => exact ⟨signature, rfl, Except.ok.inj h⟩
  · exact Or.inl (Except.ok.inj h)

theorem hexSignature_length (hmac : Bytes → Bytes → Digest) (secret text : Bytes) :
    (hexSignature hmac secret text).length = 64 := by
  rw [hexSignature, bin2hex_length, Vector.length_toList]

variable {hmac : Bytes → Bytes → Digest} {secret : Bytes} {signed : Signed}

theorem hexSignature_injective {text other : Bytes}
    (h : hexSignature hmac secret text = hexSignature hmac secret other) :
    hmac secret text = hmac secret other :=
  Vector.toList_inj.mp (bin2hex_injective h)

theorem base64Digest_length (digest : Digest) : (base64EncodeOriginal digest.toList).length = 44 := by
  rw [base64EncodeOriginal, List.length_append, List.length_map, base64Encode_length,
    List.length_replicate, Vector.length_toList]
  rfl

theorem stripSignaturePrefix_hub (signature : Bytes) :
    stripSignaturePrefix (str "sha256=" ++ signature) = signature := by
  have hseven : 7 = (str "sha256=").length := by decide
  rw [stripSignaturePrefix, if_pos (List.prefix_append _ _), hseven, List.drop_left]

/-- Stripping takes away 7 bytes or none. -/
theorem stripSignaturePrefix_cases (signature : Bytes) :
    stripSignaturePrefix signature = signature ∨
      (stripSignaturePrefix signature).length + 7 = signature.length := by
  rw [stripSignaturePrefix]
  split
  · next hlead =>
    have hlen := hlead.length_le
    have hseven : (str "sha256=").length = 7 := by decide
    rw [List.length_drop]
    omega
  · exact Or.inl rfl

/-- A hexadecimal signature has nothing to strip. -/
theorem stripSignaturePrefix_hex (text : Bytes) :
    stripSignaturePrefix (hexSignature hmac secret text) = hexSignature hmac secret text := by
  have hlead : ¬str "sha256=" <+: hexSignature hmac secret text := by
    intro hprefix
    have hs : chr 's' ∈ hexSignature hmac secret text := hprefix.subset (by decide)
    obtain ⟨b, -, hb⟩ := List.mem_flatMap.mp hs
    exact absurd (isUuidByte_hexByte b _ hb) (by decide)
  rw [stripSignaturePrefix, if_neg hlead]

/-- Two hexadecimal signatures, the first with or without `sha256=`. -/
theorem hmac_eq_of_hex {text other : Bytes}
    (h : hexSignature hmac secret text = hexSignature hmac secret other ∨
      stripSignaturePrefix (hexSignature hmac secret text) = hexSignature hmac secret other) :
    hmac secret text = hmac secret other := by
  rcases h with h | h
  · exact hexSignature_injective h
  · rw [stripSignaturePrefix_hex] at h
    exact hexSignature_injective h

/-- **A hexadecimal signature** that is presented, with or without `sha256=`, was made of a text with this
    MAC. -/
theorem Produced.text_of_hex {value other : Bytes} (h : Produced hmac secret signed value)
    (hvalue : value = hexSignature hmac secret other ∨
      stripSignaturePrefix value = hexSignature hmac secret other) :
    ∃ text ∈ signed.texts, hmac secret text = hmac secret other := by
  have hsize := hexSignature_length hmac secret other
  cases h with
  | hub hbody =>
    refine ⟨_, Or.inl hbody, ?_⟩
    rcases hvalue with hvalue | hvalue
    · have hlen := congrArg List.length hvalue
      have hseven : (str "sha256=").length = 7 := by decide
      rw [List.length_append, hexSignature_length, hexSignature_length] at hlen
      omega
    · rw [stripSignaturePrefix_hub] at hvalue
      exact hexSignature_injective hvalue
  | generic hbody => exact ⟨_, Or.inl hbody, hmac_eq_of_hex hvalue⟩
  | line hbody =>
    -- the base64 form has 44 bytes, and 37 without a prefix
    rename_i body
    have hline := base64Digest_length (hmac secret body)
    rcases hvalue with hvalue | hvalue
    · rw [hvalue] at hline
      omega
    · rcases stripSignaturePrefix_cases (base64EncodeOriginal (hmac secret body).toList) with hsame | hlen
      · rw [← hsame, hvalue] at hline
        omega
      · rw [hvalue] at hlen
        omega
  | nextcloud hpair => exact ⟨_, Or.inr ⟨_, _, hpair, rfl⟩, hmac_eq_of_hex hvalue⟩

/-- **A base64 signature** that is presented was made of a body with this MAC. -/
theorem Produced.body_of_base64 {value other : Bytes} (h : Produced hmac secret signed value)
    (hvalue : value = base64EncodeOriginal (hmac secret other).toList) :
    ∃ body ∈ signed.bodies, hmac secret body = hmac secret other := by
  have hlen := congrArg List.length hvalue
  rw [base64Digest_length] at hlen
  cases h with
  | hub hbody =>
    rw [List.length_append, hexSignature_length] at hlen
    omega
  | generic hbody =>
    rw [hexSignature_length] at hlen
    omega
  | line hbody =>
    have hsize : ∀ d d' : Digest, d.toList.length = d'.toList.length := by
      intro d d'
      rw [Vector.length_toList, Vector.length_toList]
    exact ⟨_, hbody, Vector.toList_inj.mp (base64EncodeOriginal_injective (hsize _ _) hvalue)⟩
  | nextcloud hpair =>
    rw [hexSignature_length] at hlen
    omega

/-- The same of a header, which may be empty. -/
theorem text_of_header {header other : Bytes} (h : header = [] ∨ Produced hmac secret signed header)
    (hvalue : header = hexSignature hmac secret other ∨
      stripSignaturePrefix header = hexSignature hmac secret other) :
    ∃ text ∈ signed.texts, hmac secret text = hmac secret other := by
  rcases h with rfl | h
  · have hempty : stripSignaturePrefix [] = [] := by decide
    have hlen : (hexSignature hmac secret other).length = 0 := by
      rcases hvalue with hvalue | hvalue
      · rw [← hvalue, List.length_nil]
      · rw [← hvalue, hempty, List.length_nil]
    rw [hexSignature_length] at hlen
    cases hlen
  · exact h.text_of_hex hvalue

theorem hmacSha256Hex2_ok {sodiumInit : Bool} {leading body signature : Bytes}
    (h : hmacSha256Hex2 hmac sodiumInit secret leading body = .ok signature) :
    hexSignature hmac secret (leading ++ body) = signature := by
  rw [hmacSha256Hex2] at h
  split at h
  · exact Except.ok.inj h
  · cases h

theorem hmacSha256Base64_ok {sodiumInit : Bool} {body signature : Bytes}
    (h : hmacSha256Base64 hmac sodiumInit secret body = .ok signature) :
    base64EncodeOriginal (hmac secret body).toList = signature := by
  rw [hmacSha256Base64] at h
  split at h
  · exact Except.ok.inj h
  · cases h

/-! ## What is accepted -/

/-- **Signatures bind bytes**: a request is taken only if its body is a text that was signed, or its random
    and its body together are one; with a LINE signature, only if its body was signed. -/
theorem endpointVerifySignature_signed {hmac : Bytes → Bytes → Digest} {sodiumInit : Bool}
    {endpoint : WebhookEndpoint} {request : NamedRequest} {signed : Signed}
    (hsecret : endpoint.secret ≠ []) (hproduced : CarriesProduced hmac endpoint.secret signed request)
    (hfree : Collisionless hmac endpoint.secret signed request)
    (h : endpointVerifySignature hmac sodiumInit endpoint request = .ok ()) :
    (request.xHubSignature256 ≠ [] ∨ request.xSignature ≠ []) ∧ request.body ∈ signed.texts ∨
      request.xNextcloudTalkSignature ≠ [] ∧
        request.xNextcloudTalkRandom ++ request.body ∈ signed.texts ∨
      request.xLineSignature ≠ [] ∧ request.body ∈ signed.bodies := by
  rw [endpointVerifySignature, if_neg hsecret] at h
  split at h
  · cases h
  · obtain ⟨first, hfirst, h⟩ := Res.bind_eq_ok.mp h
    obtain ⟨second, hsecond, h⟩ := Res.bind_eq_ok.mp h
    obtain ⟨third, hthird, h⟩ := Res.bind_eq_ok.mp h
    cases third with
    | false => cases h
    | true =>
      rcases tryScheme_matches hthird with rfl | ⟨hgiven, signature, hmade, hcheck⟩
      · rcases tryScheme_matches hsecond with rfl | ⟨hgiven, signature, hmade, hcheck⟩
        · rcases tryScheme_matches hfirst with hfalse | ⟨hgiven, signature, hmade, hcheck⟩
          · cases hfalse
          · -- one of the two headers with the signature of the body
            obtain rfl := hmacSha256Hex2_ok hmade
            rw [List.nil_append] at hcheck
            obtain ⟨text, htext, hmac_eq⟩ : ∃ text ∈ signed.texts,
                hmac endpoint.secret text = hmac endpoint.secret request.body := by
              rcases Bool.or_eq_true_iff.mp hcheck with hcheck | hcheck
              · exact text_of_header hproduced.hub (Or.inr (eq_of_signatureMatches hcheck))
              · exact text_of_header hproduced.generic (Or.inr (eq_of_signatureMatches hcheck))
            rw [hfree text htext _ List.mem_cons_self hmac_eq] at htext
            exact Or.inl ⟨hgiven, htext⟩
        · obtain rfl := hmacSha256Hex2_ok hmade
          obtain ⟨text, htext, hmac_eq⟩ := text_of_header hproduced.nextcloud
            (Or.inl (eq_of_signatureMatches hcheck))
          rw [hfree text htext _ (List.mem_cons_of_mem _ List.mem_cons_self) hmac_eq] at htext
          exact Or.inr (Or.inl ⟨hgiven, htext⟩)
      · obtain rfl := hmacSha256Base64_ok hmade
        have hvalue := eq_of_signatureMatches hcheck
        obtain ⟨body, hbody, hmac_eq⟩ :=
          (hproduced.line.resolve_left hgiven).body_of_base64 hvalue
        rw [hfree body (Or.inl hbody) _ List.mem_cons_self hmac_eq] at hbody
        exact Or.inr (Or.inr ⟨hgiven, hbody⟩)

/-! ## Requests at hand -/

/-- HMAC-SHA256 under the secret `secret` of `abc`, `bc` and `ping`. -/
def sampleWebhookHmac (_secret message : Bytes) : Digest :=
  if message = str "abc" then
    #v[153, 70, 218, 212, 224, 14, 145, 63, 200, 190, 142, 93, 63, 126, 17, 10,
      74, 158, 131, 47, 131, 251, 9, 195, 69, 40, 93, 120, 99, 141, 138, 14]
  else if message = str "bc" then
    #v[86, 166, 224, 28, 41, 77, 144, 84, 5, 45, 137, 68, 92, 94, 171, 106,
      217, 209, 70, 11, 177, 202, 135, 160, 187, 143, 90, 212, 178, 97, 196, 255]
  else
    #v[103, 49, 178, 38, 231, 253, 232, 225, 227, 164, 206, 122, 218, 218, 113, 175,
      181, 172, 230, 52, 191, 113, 125, 101, 247, 235, 235, 156, 242, 183, 254, 241]

def sampleEndpoint : WebhookEndpoint := { secret := str "secret" }

/-- The body `ping` was signed, and the body `c` with the random `ab`. -/
def sampleSigned : Signed := { bodies := {str "ping"}, pairs := {(str "ab", str "c")} }

theorem sampleSigned_texts {text : Bytes} (h : text ∈ sampleSigned.texts) :
    text = str "ping" ∨ text = str "abc" := by
  rcases h with hbody | ⟨random, body, hpair, rfl⟩
  · exact Or.inl hbody
  · obtain ⟨rfl, rfl⟩ := Prod.mk.inj (Set.mem_singleton_iff.mp hpair)
    exact Or.inr (by decide)

/-- The signed body, with the signature of the first scheme. -/
def pingRequest : NamedRequest where
  body := str "ping"
  xHubSignature256 :=
    str "sha256=6731b226e7fde8e1e3a4ce7adada71afb5ace634bf717d65f7ebeb9cf2b7fef1"

theorem endpointVerifySignature_ping :
    (pingRequest.xHubSignature256 ≠ [] ∨ pingRequest.xSignature ≠ []) ∧
        pingRequest.body ∈ sampleSigned.texts ∨
      pingRequest.xNextcloudTalkSignature ≠ [] ∧
        pingRequest.xNextcloudTalkRandom ++ pingRequest.body ∈ sampleSigned.texts ∨
      pingRequest.xLineSignature ≠ [] ∧ pingRequest.body ∈ sampleSigned.bodies := by
  have hheader : pingRequest.xHubSignature256 =
      str "sha256=" ++ hexSignature sampleWebhookHmac sampleEndpoint.secret (str "ping") := by
    decide
  have hok : endpointVerifySignature sampleWebhookHmac true sampleEndpoint pingRequest = .ok () := by
    decide
  refine endpointVerifySignature_signed (by decide : sampleEndpoint.secret ≠ []) ?_ ?_ hok
  · refine ⟨Or.inr ?_, Or.inl rfl, Or.inl rfl, Or.inl rfl⟩
    rw [hheader]
    exact .hub rfl
  · intro text htext other hother hsame
    obtain rfl : other = str "ping" := by
      rcases List.mem_cons.mp hother with rfl | hother
      · rfl
      · exact List.mem_singleton.mp hother
    rcases sampleSigned_texts htext with rfl | rfl
    · rfl
    · exact absurd hsame (by decide)

/-- The signature of the random `ab` and the body `c`, for another random and another body. -/
def splitRequest : NamedRequest where
  body := str "bc"
  xNextcloudTalkRandom := str "a"
  xNextcloudTalkSignature := str "9946dad4e00e913fc8be8e5d3f7e110a4a9e832f83fb09c345285d78638d8a0e"

/-- Random and body can be cut elsewhere. -/
theorem not_bindsBody_split :
    ¬BindsBody sampleWebhookHmac sampleSigned true sampleEndpoint splitRequest := by
  intro h
  have hheader : splitRequest.xNextcloudTalkSignature =
      hexSignature sampleWebhookHmac sampleEndpoint.secret (str "ab" ++ str "c") := by
    decide
  have hproduced : CarriesProduced sampleWebhookHmac sampleEndpoint.secret sampleSigned splitRequest := by
    refine ⟨Or.inl rfl, Or.inl rfl, Or.inl rfl, Or.inr ?_⟩
    rw [hheader]
    exact .nextcloud rfl
  have hfree : Collisionless sampleWebhookHmac sampleEndpoint.secret sampleSigned splitRequest := by
    intro text htext other hother hsame
    have hcases : other = str "bc" ∨ other = str "abc" := by
      rcases List.mem_cons.mp hother with rfl | hother
      · exact Or.inl rfl
      · exact Or.inr (List.mem_singleton.mp hother)
    rcases sampleSigned_texts htext with rfl | rfl
    · rcases hcases with rfl | rfl
      · exact absurd hsame (by decide)
      · exact absurd hsame (by decide)
    · rcases hcases with rfl | rfl
      · exact absurd hsame (by decide)
      · rfl
  rcases h hproduced hfree (by decide) with hbody | hpair
  · exact absurd (Set.mem_singleton_iff.mp hbody) (by decide)
  · exact absurd (Set.mem_singleton_iff.mp hpair) (by decide)

end SmolClaw.Channels
