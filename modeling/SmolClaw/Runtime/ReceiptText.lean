/-
  What the output of a turn keeps of its receipts (`append_receipt_block_to_output` and
  `strip_receipt_tokens_from_output`, `src/runtime/agent.c`).

  1. **Specification** — `SameContent`: two receipts that say the same of a call.  Their tokens, times and
     hashes may be others.

  2. **The crux** — `SameButTokens`: two texts that differ behind the `sc-receipt-` of a token only.  Both
     patterns of the scan read an `s` where a token starts, and nothing of what follows (`Aligned`), so the
     scan takes the same steps in both.

  3. **Result** — `stripReceiptTokens_block`: the output does not depend on the tokens.
-/
import SmolClaw.Runtime.AgentMessage

namespace SmolClaw.Runtime

open Security

/-! ## Texts that differ in tokens -/

/-- What every token starts with. -/
def tokenStart : Bytes := str "sc-receipt-"

/-- The texts differ in what stands between the start of a token and its bracket. -/
inductive SameButTokens : Bytes → Bytes → Prop where
  | nil : SameButTokens [] []
  | cons (c : UInt8) {x y : Bytes} : SameButTokens x y → SameButTokens (c :: x) (c :: y)
  | token {t t' x y : Bytes} (ht : ∀ c ∈ t, endsToken c = false) (ht' : ∀ c ∈ t', endsToken c = false) :
      SameButTokens x y → SameButTokens (tokenStart ++ (t ++ chr ']' :: x)) (tokenStart ++ (t' ++ chr ']' :: y))

/-- Where the pattern reads an `s`, the rest of it is the start of a token. -/
def Aligned (p : Bytes) : Prop := ∀ q ∈ p.tails, q.head? = some (chr 's') → q <+: tokenStart

/-- A pattern that is read in part stays aligned. -/
theorem Aligned.tail {c : UInt8} {p : Bytes} (h : Aligned (c :: p)) : Aligned p := by
  intro q hq
  refine h q ?_
  rw [List.mem_tails] at hq ⊢
  exact hq.trans (List.suffix_cons c p)

theorem aligned_bracketed : Aligned (str "[receipt: sc-receipt-") := by unfold Aligned; decide

theorem aligned_bare : Aligned (str "sc-receipt-") := by unfold Aligned; decide

namespace SameButTokens

variable {x y p : Bytes}

theorem refl (x : Bytes) : SameButTokens x x := by
  induction x with
  | nil => exact .nil
  | cons c x ih => exact ih.cons c

theorem append_left (p : Bytes) (h : SameButTokens x y) : SameButTokens (p ++ x) (p ++ y) := by
  induction p with
  | nil => exact h
  | cons c p ih => exact ih.cons c

theorem symm (h : SameButTokens x y) : SameButTokens y x := by
  induction h with
  | nil => exact .nil
  | cons c _ ih => exact ih.cons c
  | token ht ht' _ ih => exact ih.token ht' ht

/-- **A pattern does not reach into a token.** -/
theorem reads (h : SameButTokens x y) : ∀ p, Aligned p → p <+: x → p <+: y := by
  induction h with
  | nil => exact fun _ _ hp => hp
  | cons c _ ih =>
    intro p halign hp
    cases p with
    | nil => exact List.nil_prefix
    | cons a p =>
      obtain ⟨rfl, hrest⟩ := List.cons_prefix_cons.mp hp
      exact List.cons_prefix_cons.mpr ⟨rfl, ih p halign.tail hrest⟩
  | token _ _ _ _ =>
    intro p halign hp
    cases p with
    | nil => exact List.nil_prefix
    | cons a p =>
      obtain ⟨rfl, -⟩ := List.cons_prefix_cons.mp hp
      have hstart : (chr 's' :: p) <+: tokenStart := halign _ ((List.mem_tails _ _).mpr List.suffix_rfl) rfl
      exact hstart.trans (List.prefix_append _ _)

theorem reads_iff (h : SameButTokens x y) (hp : Aligned p) : p <+: x ↔ p <+: y :=
  ⟨h.reads p hp, h.symm.reads p hp⟩

/-- What is read without an `s` is read outside of the tokens. -/
theorem drop (h : SameButTokens x y) :
    ∀ p : Bytes, chr 's' ∉ p → p <+: x → SameButTokens (x.drop p.length) (y.drop p.length) := by
  induction h with
  | nil => exact fun p _ _ => by rw [List.drop_nil]; exact .nil
  | cons c h ih =>
    intro p hs hp
    cases p with
    | nil => exact h.cons c
    | cons a p =>
      obtain ⟨rfl, hrest⟩ := List.cons_prefix_cons.mp hp
      exact ih p (fun hmem => hs (List.mem_cons_of_mem _ hmem)) hrest
  | token ht ht' h _ =>
    intro p hs hp
    cases p with
    | nil => exact h.token ht ht'
    | cons a p =>
      obtain ⟨rfl, -⟩ := List.cons_prefix_cons.mp hp
      exact absurd List.mem_cons_self hs

end SameButTokens

/-- The digits of a token are skipped up to its bracket. -/
theorem dropWhile_digits {t : Bytes} (ht : ∀ c ∈ t, endsToken c = false) (x : Bytes) :
    (t ++ chr ']' :: x).dropWhile (fun c => !endsToken c) = chr ']' :: x := by
  rw [List.dropWhile_append_of_pos fun c hc => by rw [ht c hc]; rfl]
  exact List.dropWhile_cons_of_neg (by decide)

/-- Nothing before the bracket ends a token. -/
theorem token_digits {t : Bytes} (ht : ∀ c ∈ t, endsToken c = false) :
    ∀ c ∈ tokenStart ++ t, endsToken c = false := by
  have hstart : ∀ c ∈ tokenStart, endsToken c = false := bytes_forall (by decide)
  intro c hc
  rcases List.mem_append.mp hc with hin | hrest
  · exact hstart c hin
  · exact ht c hrest

/-- The bracket behind a token is the next one. -/
theorem afterBracket_digits {t : Bytes} (ht : ∀ c ∈ t, endsToken c = false) (x : Bytes) :
    afterBracket (t ++ chr ']' :: x) = some x := by
  induction t with
  | nil => rfl
  | cons c t ih =>
    have hc : c ≠ chr ']' := by
      rintro rfl
      exact absurd (ht _ List.mem_cons_self) (by decide)
    rw [List.cons_append, afterBracket, if_neg hc]
    exact ih fun c hc => ht c (List.mem_cons_of_mem _ hc)

namespace SameButTokens

variable {x y : Bytes}

/-- Both texts are skipped up to the same place. -/
theorem dropWhile (h : SameButTokens x y) :
    SameButTokens (x.dropWhile fun c => !endsToken c) (y.dropWhile fun c => !endsToken c) := by
  induction h with
  | nil => exact .nil
  | cons c h ih =>
    rw [List.dropWhile_cons, List.dropWhile_cons]
    split
    · exact ih
    · exact h.cons c
  | token ht ht' h _ =>
    rw [← List.append_assoc, ← List.append_assoc, dropWhile_digits (token_digits ht),
      dropWhile_digits (token_digits ht')]
    exact h.cons _

/-- **A bare token is skipped**, whatever its digits are. -/
theorem skip (h : SameButTokens x y) (hx : tokenStart <+: x) :
    SameButTokens ((x.drop tokenStart.length).dropWhile fun c => !endsToken c)
      ((y.drop tokenStart.length).dropWhile fun c => !endsToken c) := by
  cases h with
  | nil => exact .nil
  | cons c h =>
    have hrest : str "c-receipt-" <+: _ := (List.cons_prefix_cons.mp hx).2
    exact (h.drop _ (by decide) hrest).dropWhile
  | token ht ht' h =>
    rw [List.drop_left, List.drop_left, dropWhile_digits ht, dropWhile_digits ht']
    exact h.cons _

/-- **The next closing bracket** is the same one. -/
theorem afterBracket (h : SameButTokens x y) :
    (Runtime.afterBracket x = none ∧ Runtime.afterBracket y = none) ∨
      ∃ x' y', Runtime.afterBracket x = some x' ∧ Runtime.afterBracket y = some y' ∧ SameButTokens x' y' := by
  induction h with
  | nil => exact Or.inl ⟨rfl, rfl⟩
  | cons c h ih =>
    rw [Runtime.afterBracket, Runtime.afterBracket]
    split
    · exact Or.inr ⟨_, _, rfl, rfl, h⟩
    · exact ih
  | token ht ht' h _ =>
    refine Or.inr ⟨_, _, ?_, ?_, h⟩
    · rw [← List.append_assoc, afterBracket_digits (token_digits ht)]
    · rw [← List.append_assoc, afterBracket_digits (token_digits ht')]

end SameButTokens

/-! ## The scan -/

theorem afterBracket_length {x rest : Bytes} (h : afterBracket x = some rest) : rest.length < x.length := by
  induction x with
  | nil => exact nomatch h
  | cons c x ih =>
    rw [afterBracket] at h
    split at h
    · obtain rfl := Option.some.inj h
      exact Nat.lt_succ_self _
    · exact Nat.lt_succ_of_lt (ih h)

theorem stripLoop_nil (rounds : Nat) : stripLoop rounds [] = [] := by
  cases rounds with
  | zero => rfl
  | succ rounds => rfl

/-- A bare token is taken out up to its bracket. -/
theorem stripLoop_token {t : Bytes} (ht : ∀ c ∈ t, endsToken c = false) (rounds : Nat) (x : Bytes) :
    stripLoop (rounds + 1) (tokenStart ++ (t ++ chr ']' :: x)) = stripLoop rounds (chr ']' :: x) := by
  generalize hrest : t ++ chr ']' :: x = rest
  have hstart : tokenStart = chr 's' :: str "c-receipt-" := by decide
  have hbare : str "sc-receipt-" <+: tokenStart ++ rest := List.prefix_append _ _
  have hplain : ¬ str "[receipt: sc-receipt-" <+: tokenStart ++ rest := by
    rw [hstart]
    intro h
    exact absurd (List.cons_prefix_cons.mp h).1 (by decide)
  have hdrop : (tokenStart ++ rest).drop (str "sc-receipt-").length = rest := List.drop_left
  rw [hstart, List.cons_append] at hbare hplain hdrop ⊢
  rw [stripLoop, if_neg hplain, if_pos hbare, hdrop, ← hrest, dropWhile_digits ht]

/-- **The scan takes the same steps in both texts.** -/
theorem stripLoop_congr : ∀ (n m : Nat) {x y : Bytes}, SameButTokens x y → x.length ≤ n → y.length ≤ m →
    stripLoop n x = stripLoop m y := by
  intro n
  induction n with
  | zero =>
    intro m x y h hn _
    obtain rfl := List.length_eq_zero_iff.mp (Nat.le_zero.mp hn)
    cases h
    rw [stripLoop_nil, stripLoop_nil]
  | succ n ih =>
    intro m x y h hn hm
    cases h with
    | nil => rw [stripLoop_nil, stripLoop_nil]
    | @cons c x y h =>
      cases m with
      | zero => exact absurd hm (by simp)
      | succ m =>
        rw [List.length_cons] at hn hm
        have hboth := h.cons c
        rw [stripLoop, stripLoop]
        simp only [hboth.reads_iff aligned_bracketed, hboth.reads_iff aligned_bare]
        have hplain : c :: stripLoop n x = c :: stripLoop m y := by rw [ih m h (by omega) (by omega)]
        split
        · rcases hboth.afterBracket with ⟨hx, hy⟩ | ⟨x', y', hx, hy, hrest⟩
          · rw [hx, hy]
            exact hplain
          · rw [hx, hy]
            have hlx := afterBracket_length hx
            have hly := afterBracket_length hy
            rw [List.length_cons] at hlx hly
            exact ih m hrest (by omega) (by omega)
        split
        · rename_i hbare
          have hshort : ∀ z : Bytes, ((c :: z).drop (str "sc-receipt-").length).length ≤ z.length := by
            intro z
            rw [List.length_drop, List.length_cons]
            have hpos : 0 < (str "sc-receipt-").length := by decide
            omega
          have hx := (List.dropWhile_sublist fun c => !endsToken c).length_le.trans (hshort x)
          have hy := (List.dropWhile_sublist fun c => !endsToken c).length_le.trans (hshort y)
          exact ih m (hboth.skip ((hboth.reads_iff aligned_bare).mpr hbare)) (hx.trans (by omega))
            (hy.trans (by omega))
        · exact hplain
    | @token t t' x y ht ht' h =>
      cases m with
      | zero => exact absurd hm (by simp [tokenStart])
      | succ m =>
        rw [List.length_append, List.length_append] at hn hm
        have hpos : 0 < tokenStart.length := by decide
        rw [stripLoop_token ht, stripLoop_token ht']
        exact ih m (h.cons _) (by omega) (by omega)

theorem stripReceiptTokens_congr {x y : Bytes} (h : SameButTokens x y) :
    stripReceiptTokens x = stripReceiptTokens y :=
  stripLoop_congr _ _ h (Nat.le_refl _) (Nat.le_refl _)

/-! ## Receipts -/

/-- What a receipt says of its call. -/
structure ReceiptContent where
  toolName : SizedBytes
  argsSummary : SizedBytes
  outputSummary : SizedBytes
  success : Bool
  policyDecision : SizedBytes
  failureReason : SizedBytes
  outcome : SizedBytes
  deriving DecidableEq

/-- All of a receipt but its token, times and hashes. -/
def receiptContent (receipt : ToolReceipt) : ReceiptContent where
  toolName := receipt.toolName
  argsSummary := receipt.argsSummary
  outputSummary := receipt.outputSummary
  success := receipt.success
  policyDecision := receipt.policyDecision
  failureReason := receipt.failureReason
  outcome := receipt.outcome

/-- A token as `receipt_token` writes it. -/
def WellTokened (receipt : ToolReceipt) : Prop :=
  ∃ digits, receipt.token = tokenStart ++ digits ∧ ∀ c ∈ digits, endsToken c = false

/-- **Two receipts of one call**, in chains of their own. -/
structure SameContent (r r' : ToolReceipt) : Prop where
  content : receiptContent r = receiptContent r'
  left : WellTokened r
  right : WellTokened r'

/-- No digit ends a token, and no sign. -/
theorem digit_inside {c : UInt8} (h : isDigit c = true) : endsToken c = false := by
  have hends : ∀ c ∈ str " \t\r\n]),.", isDigit c = false := bytes_forall (by decide)
  by_contra hc
  have hmem : c ∈ str " \t\r\n]),." := List.contains_iff_mem.mp (Bool.not_eq_false _ ▸ hc)
  rw [hends c hmem] at h
  exact Bool.false_ne_true h

theorem decimalInt_inside (n : Int) : ∀ c ∈ decimalInt n, endsToken c = false := by
  have hdigits : ∀ c ∈ decimal n.natAbs, endsToken c = false :=
    fun c hc => digit_inside (decimal_isDigit _ c hc)
  intro c hc
  rw [decimalInt] at hc
  split at hc
  · rcases List.mem_cons.mp hc with rfl | hdigit
    · decide
    · exact hdigits c hdigit
  · exact hdigits c hc

theorem base64UrlDigit_inside (v : UInt8) : endsToken (base64UrlDigit v) = false := by
  have hsmall : ∀ n : Fin 64, endsToken (base64UrlDigit (UInt8.ofNat n)) = false := by decide
  by_cases hv : v.toNat < 64
  · have hdigit := hsmall ⟨v.toNat, hv⟩
    rwa [UInt8.ofNat_toNat] at hdigit
  · have hlarge : ∀ k : UInt8, k.toNat < 64 → ¬ v < k := by
      intro k hk hlt
      have hnat := UInt8.lt_iff_toNat_lt.mp hlt
      omega
    have hlast : v ≠ 62 := by
      rintro rfl
      exact hv (by decide)
    rw [base64UrlDigit, if_neg (hlarge 26 (by decide)), if_neg (hlarge 52 (by decide)),
      if_neg (hlarge 62 (by decide)), if_neg hlast]
    decide

theorem base64Url_inside (bytes : Bytes) : ∀ c ∈ base64Url bytes, endsToken c = false := by
  induction bytes using base64Url.induct with
  | case1 a b c rest ih =>
    simp only [base64Url, List.mem_cons]
    rintro d (rfl | rfl | rfl | rfl | hd)
    · exact base64UrlDigit_inside _
    · exact base64UrlDigit_inside _
    · exact base64UrlDigit_inside _
    · exact base64UrlDigit_inside _
    · exact ih d hd
  | case2 a b =>
    simp only [base64Url, List.mem_cons, List.not_mem_nil, or_false]
    rintro d (rfl | rfl | rfl)
    · exact base64UrlDigit_inside _
    · exact base64UrlDigit_inside _
    · exact base64UrlDigit_inside _
  | case3 a =>
    simp only [base64Url, List.mem_cons, List.not_mem_nil, or_false]
    rintro d (rfl | rfl)
    · exact base64UrlDigit_inside _
    · exact base64UrlDigit_inside _
  | case4 => exact fun c hc => absurd hc List.not_mem_nil

/-- A new receipt has a token of this form. -/
theorem tokenText_wellTokened (receipt : ToolReceipt) (endedAt : Int64) (digest : Digest) :
    WellTokened { receipt with token := tokenText endedAt digest } := by
  refine ⟨decimalInt (endedAt / 1000000000).toInt ++ str "-" ++ base64Url digest.toList, ?_, fun c hc => ?_⟩
  · show tokenText endedAt digest = _
    rw [tokenText, List.append_assoc, List.append_assoc, List.append_assoc]
    rfl
  · rcases List.mem_append.mp hc with hfront | hdigest
    · rcases List.mem_append.mp hfront with htime | hdash
      · exact decimalInt_inside _ c htime
      · rw [List.mem_singleton.mp hdash]
        decide
    · exact base64Url_inside _ c hdigest

/-- The lines of both receipts differ in the token only. -/
theorem SameContent.line {r r' : ToolReceipt} (h : SameContent r r') {x y : Bytes} (hxy : SameButTokens x y) :
    SameButTokens (receiptLine r ++ x) (receiptLine r' ++ y) := by
  obtain ⟨hcontent, ⟨digits, htoken, hdigits⟩, digits', htoken', hdigits'⟩ := h
  have hname : r.toolName = r'.toolName := congrArg ReceiptContent.toolName hcontent
  have houtcome : r.outcome = r'.outcome := congrArg ReceiptContent.outcome hcontent
  have hline : ∀ (r : ToolReceipt) (digits z : Bytes), r.token = tokenStart ++ digits →
      receiptLine r ++ z = str "[receipt: " ++ (tokenStart ++ (digits ++ chr ']' ::
        (str " " ++ r.toolName.bytes ++ str " " ++ r.outcome.bytes ++ str "\n" ++ z))) := by
    intro r digits z htoken
    rw [receiptLine, htoken, show str "] " = chr ']' :: str " " from rfl]
    simp only [List.append_assoc, List.cons_append]
  rw [hline r digits x htoken, hline r' digits' y htoken', hname, houtcome]
  exact .append_left _ (.token hdigits hdigits' (.append_left _ hxy))

/-- **The output of a turn does not depend on the tokens of its receipts.** -/
theorem stripReceiptTokens_block (shown : Bool) {rs rs' : List ToolReceipt}
    (h : List.Forall₂ SameContent rs rs') (output : Bytes) :
    stripReceiptTokens (appendReceiptBlock shown rs output) =
      stripReceiptTokens (appendReceiptBlock shown rs' output) := by
  have hblock : SameButTokens (rs.flatMap receiptLine) (rs'.flatMap receiptLine) := by
    induction h with
    | nil => exact .nil
    | cons hr _ ih => exact hr.line ih
  have hempty : rs.isEmpty = rs'.isEmpty := by
    cases h with
    | nil => rfl
    | cons _ _ => rfl
  refine stripReceiptTokens_congr ?_
  rw [appendReceiptBlock, appendReceiptBlock, hempty]
  split
  · exact .refl _
  · exact .append_left _ hblock

end SmolClaw.Runtime
