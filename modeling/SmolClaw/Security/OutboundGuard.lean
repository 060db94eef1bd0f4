/-
  The outbound guard and receipt tokens (`sc_security_validate_outbound_message`,
  `src/security/domain_matcher.c`; `receipt_token`, `src/security/receipts.c`).

  1. **Program** — a message is held back if one of seven needles stands anywhere in it, in any case, unless a
     receipt token starts where the needle does.

  2. **Defect** — no needle starts as a token does, so the exception never applies (`validateOutbound_iff`).
     A token is caught by what stands further inside it: its last 43 characters are a digest in base64, with
     `-` among its digits, and `sk-` may stand there.

  3. **Result** — `receiptToken_passes_iff`: a message whose needles all start in its token passes exactly if
     none starts in the digest.  The front of the token is free of them (`head_quiet`).
-/
import SmolClaw.Core.Text
import SmolClaw.Core.WholeNumber
import SmolClaw.Security.Receipts

namespace SmolClaw.Security

/-! ## Program -/

/-- The inner loop of `span_contains_ascii_ci`, at one position. -/
def matchesAsciiCi : Bytes → Bytes → Bool
  | _, [] => true
  | [], _ :: _ => false
  | left :: haystack, right :: needle => toLower left == toLower right && matchesAsciiCi haystack needle

/-- `span_contains_ascii_ci` -/
def spanContainsAsciiCi (haystack needle : Bytes) : Bool :=
  if needle.length = 0 ∨ haystack.length < needle.length then false
  else (List.range (haystack.length + 1 - needle.length)).any fun i => matchesAsciiCi (haystack.drop i) needle

/-- `receipt_token_at` -/
def receiptTokenAt (text : Bytes) (pos : Nat) : Bool :=
  if text.length < pos + (str "sc-receipt-").length then false
  else (text.drop pos).take (str "sc-receipt-").length == str "sc-receipt-"

/-- The needles of `sc_security_validate_outbound_message`. -/
def outboundNeedles : List Bytes :=
  ["authorization:", "api_key", "secret=", "token=", "password=", "begin private key", "sk-"].map str

/-- The test of one needle at one position. -/
def leakDetected (text : Bytes) (i : Nat) (needle : Bytes) : Bool :=
  decide (i + needle.length ≤ text.length) &&
    spanContainsAsciiCi ((text.drop i).take needle.length) needle && !receiptTokenAt text i

/-- `sc_security_validate_outbound_message` -/
def validateOutboundMessage (text : Bytes) : Res Unit :=
  if (List.range text.length).any fun i => outboundNeedles.any (leakDetected text i) then
    Status.securityDenied "sc.security.outbound_leak_detected"
  else .ok ()

/-! ## Specification -/

/-- A text starts with a needle, whatever the case of its letters. -/
def StartsNeedle (s : Bytes) : Prop := ∃ needle ∈ outboundNeedles, needle.map toLower <+: s.map toLower

/-- A needle occurs at a position. -/
def NeedleAt (text : Bytes) (i : Nat) : Prop := StartsNeedle (text.drop i)

/-- A character of URL-safe base64. -/
def isBase64Url (c : UInt8) : Bool :=
  isDigit c || (chr 'A' ≤ c && c ≤ chr 'Z') || (chr 'a' ≤ c && c ≤ chr 'z') || c == chr '-' || c == chr '_'

/-- **A receipt token**: seconds, and a digest of 43 characters. -/
structure Token where
  epoch : Int
  body : Bytes
  length_body : body.length = 43
  alphabet : body.all isBase64Url = true

namespace Token

/-- What stands in front of the digest. -/
def head (token : Token) : Bytes := str "sc-receipt-" ++ decimalInt token.epoch ++ str "-"

def text (token : Token) : Bytes := token.head ++ token.body

end Token

/-! ## Needles -/

theorem matchesAsciiCi_iff (needle : Bytes) : ∀ haystack,
    matchesAsciiCi haystack needle = true ↔ needle.map toLower <+: haystack.map toLower := by
  induction needle with
  | nil => exact fun haystack => iff_of_true (by cases haystack <;> rfl) List.nil_prefix
  | cons right needle ih =>
    intro haystack
    cases haystack with
    | nil =>
      refine iff_of_false (by rw [matchesAsciiCi]; exact Bool.false_ne_true) fun hprefix => ?_
      exact absurd (List.prefix_nil.mp hprefix) (List.cons_ne_nil _ _)
    | cons left haystack =>
      rw [matchesAsciiCi, Bool.and_eq_true, beq_iff_eq, ih, List.map_cons, List.map_cons,
        List.cons_prefix_cons, eq_comm]

/-- A needle is looked for in a span of its own length: at one position. -/
theorem spanContains_iff {needle : Bytes} (hne : needle ≠ []) (text : Bytes) (i : Nat) :
    (decide (i + needle.length ≤ text.length) &&
      spanContainsAsciiCi ((text.drop i).take needle.length) needle) = true ↔
      needle.map toLower <+: (text.drop i).map toLower := by
  have hpos : 0 < needle.length := List.length_pos_iff.mpr hne
  have hdrop : (text.drop i).length = text.length - i := List.length_drop
  rw [Bool.and_eq_true, decide_eq_true_iff]
  by_cases hfits : i + needle.length ≤ text.length
  · have hspan : ((text.drop i).take needle.length).length = needle.length := by
      rw [List.length_take]
      omega
    have hone : needle.length + 1 - needle.length = 1 := by omega
    rw [spanContainsAsciiCi, hspan, if_neg (by omega), hone]
    show _ ∧ (matchesAsciiCi _ needle || false) = true ↔ _
    rw [Bool.or_false, List.drop_zero, matchesAsciiCi_iff, List.map_take]
    constructor
    · exact fun h => h.2.trans (List.take_prefix _ _)
    · intro h
      refine ⟨hfits, ?_⟩
      have htake := List.prefix_iff_eq_take.mp h
      rw [List.length_map] at htake
      rw [← htake]
  · refine iff_of_false (fun h => hfits h.1) fun h => ?_
    have hlen := h.length_le
    rw [List.length_map, List.length_map, hdrop] at hlen
    omega

theorem needle_ne_nil : ∀ needle ∈ outboundNeedles, needle ≠ [] := by
  have hall : (outboundNeedles.all fun needle => !needle.isEmpty) = true := by decide
  intro needle hneedle
  have hcons := List.all_eq_true.mp hall needle hneedle
  rintro rfl
  cases hcons

theorem nil_quiet : ¬StartsNeedle [] := by
  rintro ⟨needle, hneedle, hprefix⟩
  exact needle_ne_nil needle hneedle (List.map_eq_nil_iff.mp (List.prefix_nil.mp hprefix))

/-- A beginning that no needle has. -/
theorem quiet {front : Bytes} (rest : Bytes) (hlen : front.length ≤ 3)
    (h : (outboundNeedles.all fun needle => !(front.map toLower).isPrefixOf (needle.map toLower)) = true) :
    ¬StartsNeedle (front ++ rest) := by
  rintro ⟨needle, hneedle, hprefix⟩
  have hlong : 3 ≤ needle.length := by
    have hall : (outboundNeedles.all fun needle => decide (3 ≤ needle.length)) = true := by decide
    exact of_decide_eq_true (List.all_eq_true.mp hall needle hneedle)
  have hfront : front.map toLower <+: (front ++ rest).map toLower := by
    rw [List.map_append]
    exact List.prefix_append _ _
  have hlength : (front.map toLower).length ≤ (needle.map toLower).length := by
    rw [List.length_map, List.length_map]
    omega
  have hboth := List.prefix_of_prefix_length_le hfront hprefix hlength
  have hnone := List.all_eq_true.mp h needle hneedle
  rw [List.isPrefixOf_iff_prefix.mpr hboth] at hnone
  cases hnone

/-- Digits and minus signs begin no needle. -/
theorem number_quiet (number rest : Bytes) (h : ∀ c ∈ number, isDigit c = true ∨ c = chr '-') :
    ∀ j < number.length, ¬NeedleAt (number ++ rest) j := by
  have hbyte : ∀ c : UInt8, (isDigit c || c == chr '-') = true →
      (outboundNeedles.all fun needle => !([c].map toLower).isPrefixOf (needle.map toLower)) = true := by
    apply byte_forall
    decide +kernel
  induction number with
  | nil => intro j hj; cases hj
  | cons c number ih =>
    rw [List.forall_mem_cons] at h
    intro j hj
    cases j with
    | zero =>
      show ¬StartsNeedle ([c] ++ (number ++ rest))
      refine quiet _ (Nat.le_add_left 1 2) (hbyte c ?_)
      rw [Bool.or_eq_true, beq_iff_eq]
      exact h.1
    | succ j => exact ih h.2 j (Nat.lt_of_succ_lt_succ hj)

theorem decimalInt_bytes (n : Int) : ∀ c ∈ decimalInt n, isDigit c = true ∨ c = chr '-' := by
  intro c hc
  rw [decimalInt] at hc
  split at hc
  · rcases List.mem_cons.mp hc with rfl | hdigit
    · exact Or.inr rfl
    · exact Or.inl (decimal_isDigit _ c hdigit)
  · exact Or.inl (decimal_isDigit _ c hc)

/-- **The front of a token is free of needles**: of its letters no two that follow each other begin one, and
    behind them stand digits and minus signs. -/
theorem head_quiet (token : Token) (rest : Bytes) :
    ∀ j < token.head.length, ¬NeedleAt (token.head ++ rest) j := by
  have hhead : token.head = str "sc-receipt" ++ (chr '-' :: (decimalInt token.epoch ++ [chr '-'])) := by
    show str "sc-receipt-" ++ _ ++ _ = _
    rw [List.append_assoc]
    rfl
  intro j hj
  by_cases hword : j < 10
  · have hpairs : ((List.range 10).all fun j => outboundNeedles.all fun needle =>
        !((((str "sc-receipt-").drop j).take 2).map toLower).isPrefixOf (needle.map toLower)) = true := by
      decide +kernel
    have hpair := List.all_eq_true.mp hpairs j (List.mem_range.mpr hword)
    have hdrop : (token.head ++ rest).drop j = ((str "sc-receipt-").drop j).take 2 ++
        (((str "sc-receipt-").drop j).drop 2 ++ (decimalInt token.epoch ++ str "-" ++ rest)) := by
      rw [← List.append_assoc, List.take_append_drop, Token.head, List.append_assoc, List.append_assoc,
        List.drop_append_of_le_length (Nat.le_trans (Nat.le_of_lt hword) (by decide)), List.append_assoc]
    rw [NeedleAt, hdrop]
    exact quiet _ (Nat.le_trans (List.length_take_le _ _) (by decide)) hpair
  · have hnumber : ∀ c ∈ chr '-' :: (decimalInt token.epoch ++ [chr '-']),
        isDigit c = true ∨ c = chr '-' := by
      rw [List.forall_mem_cons]
      refine ⟨Or.inr rfl, fun c hc => ?_⟩
      rcases List.mem_append.mp hc with hc | hc
      · exact decimalInt_bytes _ c hc
      · exact Or.inr (List.mem_singleton.mp hc)
    obtain ⟨k, rfl⟩ : ∃ k, j = (str "sc-receipt").length + k := Nat.exists_eq_add_of_le (Nat.not_lt.mp hword)
    rw [hhead, List.length_append] at hj
    have hquiet := number_quiet _ rest hnumber k (by omega)
    rw [NeedleAt] at hquiet ⊢
    rwa [hhead, List.append_assoc, List.drop_length_add_append]

/-- Where a token starts, no needle does. -/
theorem not_needle_of_token {text : Bytes} {i : Nat} (h : receiptTokenAt text i = true) :
    ¬NeedleAt text i := by
  unfold receiptTokenAt at h
  split at h
  · cases h
  rw [beq_iff_eq] at h
  have hsplit := List.take_append_drop (str "sc-receipt-").length (text.drop i)
  rw [h] at hsplit
  rw [NeedleAt, ← hsplit]
  show ¬StartsNeedle (str "sc" ++ (str "-receipt-" ++ _))
  exact quiet _ (by decide) (by decide)

/-- **The guard passes a text without needles**, and no other: the exception for tokens never applies. -/
theorem validateOutbound_iff (text : Bytes) :
    validateOutboundMessage text = .ok () ↔ ∀ i, ¬NeedleAt text i := by
  have hdetected : ∀ i needle, needle ∈ outboundNeedles →
      (leakDetected text i needle = true ↔ needle.map toLower <+: (text.drop i).map toLower) := by
    intro i needle hneedle
    rw [leakDetected, Bool.and_eq_true, spanContains_iff (needle_ne_nil needle hneedle)]
    refine ⟨fun h => h.1, fun h => ⟨h, ?_⟩⟩
    cases htoken : receiptTokenAt text i with
    | false => rfl
    | true => exact absurd ⟨needle, hneedle, h⟩ (not_needle_of_token htoken)
  unfold validateOutboundMessage
  constructor
  · intro hok i hstarts
    have hi : i < text.length := by
      by_contra hi
      rw [NeedleAt, List.drop_eq_nil_of_le (Nat.not_lt.mp hi)] at hstarts
      exact nil_quiet hstarts
    obtain ⟨needle, hneedle, hprefix⟩ := hstarts
    have hleak : ((List.range text.length).any fun i => outboundNeedles.any (leakDetected text i)) = true :=
      List.any_eq_true.mpr ⟨i, List.mem_range.mpr hi,
        List.any_eq_true.mpr ⟨needle, hneedle, (hdetected i needle hneedle).mpr hprefix⟩⟩
    rw [if_pos hleak] at hok
    cases hok
  · intro hnone
    rw [if_neg]
    intro hleak
    obtain ⟨i, -, hi⟩ := List.any_eq_true.mp hleak
    obtain ⟨needle, hneedle, hfound⟩ := List.any_eq_true.mp hi
    exact hnone i ⟨needle, hneedle, (hdetected i needle hneedle).mp hfound⟩

/-! ## The result -/

/-- No needle starts outside the token of a text. -/
def QuietAround (before : Bytes) (token : Bytes) (after : Bytes) : Prop :=
  ∀ i, i < before.length ∨ before.length + token.length ≤ i → ¬NeedleAt (before ++ token ++ after) i

/-- **A token passes** exactly if no needle starts in its digest, with the text behind it. -/
theorem receiptToken_passes_iff (before : Bytes) (token : Token) (after : Bytes)
    (hquiet : QuietAround before token.text after) :
    validateOutboundMessage (before ++ token.text ++ after) = .ok () ↔
      ∀ k < 43, ¬NeedleAt (token.body ++ after) k := by
  have hinside : ∀ j, NeedleAt (before ++ token.text ++ after) (before.length + j) ↔
      NeedleAt (token.head ++ (token.body ++ after)) j := by
    intro j
    rw [NeedleAt, NeedleAt, List.append_assoc, List.drop_length_add_append, Token.text, List.append_assoc]
  have hbody : ∀ k, NeedleAt (token.head ++ (token.body ++ after)) (token.head.length + k) ↔
      NeedleAt (token.body ++ after) k := by
    intro k
    rw [NeedleAt, NeedleAt, List.drop_length_add_append]
  have hlen : token.text.length = token.head.length + 43 := by
    rw [Token.text, List.length_append, token.length_body]
  rw [validateOutbound_iff]
  constructor
  · intro hnone k hk hneedle
    exact hnone _ ((hinside _).mpr ((hbody k).mpr hneedle))
  · intro hdigest i hneedle
    by_cases hbefore : i < before.length
    · exact hquiet i (Or.inl hbefore) hneedle
    obtain ⟨j, rfl⟩ := Nat.exists_eq_add_of_le (Nat.not_lt.mp hbefore)
    by_cases hhead : j < token.head.length
    · exact head_quiet token _ j hhead ((hinside j).mp hneedle)
    obtain ⟨k, rfl⟩ := Nat.exists_eq_add_of_le (Nat.not_lt.mp hhead)
    by_cases hk : k < 43
    · exact hdigest k hk ((hbody k).mp ((hinside _).mp hneedle))
    · exact hquiet _ (Or.inr (by omega)) hneedle

theorem plain_alphabet : (List.replicate 43 (chr 'A')).all isBase64Url = true := by decide

/-- A token without a dash in its digest. -/
def plainToken : Token where
  epoch := 1
  body := List.replicate 43 (chr 'A')
  length_body := List.length_replicate
  alphabet := plain_alphabet

theorem plainToken_quiet : QuietAround (str "[receipt: ") plainToken.text (str "]") :=
  fun i _ => (validateOutbound_iff _).mp (if_neg (by decide +kernel)) i

/-- A token that passes. -/
theorem plainToken_passes :
    validateOutboundMessage (str "[receipt: " ++ plainToken.text ++ str "]") = .ok () ↔
      ∀ k < 43, ¬NeedleAt (plainToken.body ++ str "]") k :=
  receiptToken_passes_iff (str "[receipt: ") plainToken (str "]") plainToken_quiet

/-- A digest that is printed as `sk-` and forty times `A`. -/
def keyDigest : Digest :=
  #v[0xB2, 0x4F, 0x80, 0, 0, 0, 0, 0, 0, 0, 0, 0, 0, 0, 0, 0, 0, 0, 0, 0, 0, 0, 0, 0, 0, 0, 0, 0, 0, 0, 0, 0]

/-- **A token is held back**: the program prints it, and nothing stands around it. -/
theorem token_caught : ¬ ∀ (endedAt : Int64) (digest : Digest) (before after : Bytes),
    QuietAround before (tokenText endedAt digest) after →
      validateOutboundMessage (before ++ tokenText endedAt digest ++ after) = .ok () := by
  intro hall
  have hquiet : QuietAround [] (tokenText 1000000000 keyDigest) [] := by
    intro i hi
    have hlong : (tokenText 1000000000 keyDigest).length ≤ i := by
      rcases hi with hi | hi
      · cases hi
      · rwa [List.length_nil, Nat.zero_add] at hi
    rw [NeedleAt, List.nil_append, List.append_nil, List.drop_eq_nil_of_le hlong]
    exact nil_quiet
  have hneedle : ((str "sk-").map toLower).isPrefixOf
      ((([] ++ tokenText 1000000000 keyDigest ++ []).drop 13).map toLower) = true := by decide +kernel
  refine (validateOutbound_iff _).mp (hall 1000000000 keyDigest [] [] hquiet) 13 ⟨str "sk-", ?_, ?_⟩
  · exact List.mem_of_elem_eq_true (by decide)
  · exact List.isPrefixOf_iff_prefix.mp hneedle

end SmolClaw.Security
