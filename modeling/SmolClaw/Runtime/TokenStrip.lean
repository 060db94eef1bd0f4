/-
  What the scan for receipt tokens leaves (`strip_receipt_tokens_from_output`, `src/runtime/agent.c`).

  1. **Rounds** — a round of the scan passes a bracketed form, passes a bare token, or keeps a byte;
     `stripReceiptTokens` does not depend on how it counts them (`strip_cases`, `scan_induction`).

  2. **The crux** — a bare token ends in front of a byte that no token contains, so nothing is joined
     there.  What stands on the two sides of a bracketed form is joined: `Spells word x` reads a word at
     the front of `x` and passes over bracketed forms between its bytes (`prefix_strip_iff`).

  3. **Result** — `strip_complete_iff`: the output is free of tokens, and stripping it again changes
     nothing, exactly if the scan comes to no place where the start of a token is spelled so
     (`JoinsToken`).
-/
import SmolClaw.Lib.Infix
import SmolClaw.Runtime.ReceiptText

namespace SmolClaw.Runtime

open Lib.Infix

/-! ## The rounds of the scan -/

/-- A bracketed form stands at the front of `x`, and `rest` behind it. -/
def Bracketed (x rest : Bytes) : Prop :=
  str "[receipt: sc-receipt-" <+: x ∧ afterBracket x = some rest

/-- What stands behind a bare token. -/
def behindToken (x : Bytes) : Bytes := (x.drop tokenStart.length).dropWhile fun c => !endsToken c

/-- The scan keeps the byte at the front of `x`. -/
def Kept (x : Bytes) : Prop := ¬ tokenStart <+: x ∧ ∀ rest, ¬ Bracketed x rest

theorem Bracketed.head {c : UInt8} {t rest : Bytes} (h : Bracketed (c :: t) rest) : c = chr '[' :=
  (List.cons_prefix_cons.mp h.1).1.symm

theorem Bracketed.ne_nil {x rest : Bytes} (h : Bracketed x rest) : x ≠ [] := by
  rintro rfl
  exact absurd h.1 (by decide)

theorem tokenStart_head {c : UInt8} {t : Bytes} (h : tokenStart <+: c :: t) : c = chr 's' :=
  (List.cons_prefix_cons.mp h).1.symm

/-- No form is both. -/
theorem Bracketed.not_token {x rest : Bytes} (h : Bracketed x rest) : ¬ tokenStart <+: x := by
  intro htoken
  obtain ⟨c, t, rfl⟩ := List.exists_cons_of_ne_nil h.ne_nil
  rw [h.head] at htoken
  exact absurd (tokenStart_head htoken) (by decide)

theorem Bracketed.length {x rest : Bytes} (h : Bracketed x rest) : rest.length < x.length :=
  afterBracket_length h.2

theorem behindToken_length {x : Bytes} (h : tokenStart <+: x) : (behindToken x).length < x.length := by
  have hdrop := (List.dropWhile_sublist (l := x.drop tokenStart.length) fun c => !endsToken c).length_le
  have hpos : 0 < tokenStart.length := by decide
  have hle := h.length_le
  rw [List.length_drop] at hdrop
  unfold behindToken
  omega

/-- What stands behind a bare token begins with a byte that ends it. -/
theorem behindToken_head {x : Bytes} {c : UInt8} {t : Bytes} (h : behindToken x = c :: t) :
    endsToken c = true := by
  have hhead := List.head?_dropWhile_not (fun c => !endsToken c) (x.drop tokenStart.length)
  rw [show (x.drop tokenStart.length).dropWhile (fun c => !endsToken c) = c :: t from h] at hhead
  simpa using hhead

theorem stripLoop_rounds {n m : Nat} {x : Bytes} (hn : x.length ≤ n) (hm : x.length ≤ m) :
    stripLoop n x = stripLoop m x := stripLoop_congr n m (.refl x) hn hm

theorem strip_nil : stripReceiptTokens [] = [] := rfl

/-- A bracketed form is passed. -/
theorem strip_bracketed {x rest : Bytes} (h : Bracketed x rest) :
    stripReceiptTokens x = stripReceiptTokens rest := by
  have hlength := h.length
  obtain ⟨c, t, rfl⟩ := List.exists_cons_of_ne_nil h.ne_nil
  rw [List.length_cons] at hlength
  show stripLoop (t.length + 1) (c :: t) = _
  rw [stripLoop, if_pos h.1, h.2]
  exact stripLoop_rounds (by omega) (Nat.le_refl _)

/-- A bare token is passed. -/
theorem strip_token {x : Bytes} (h : tokenStart <+: x) :
    stripReceiptTokens x = stripReceiptTokens (behindToken x) := by
  have hlength := behindToken_length h
  obtain ⟨c, t, rfl⟩ : ∃ c t, x = c :: t := by
    refine List.exists_cons_of_ne_nil ?_
    rintro rfl
    exact absurd h (by decide)
  have hplain : ¬ str "[receipt: sc-receipt-" <+: c :: t := by
    intro hbracket
    have hc := (List.cons_prefix_cons.mp hbracket).1
    rw [tokenStart_head h] at hc
    exact absurd hc (by decide)
  rw [List.length_cons] at hlength
  show stripLoop (t.length + 1) (c :: t) = _
  have hbare : str "sc-receipt-" <+: c :: t := h
  rw [stripLoop, if_neg hplain, if_pos hbare]
  exact stripLoop_rounds (Nat.le_of_lt_succ hlength) (Nat.le_refl _)

/-- Any other byte is kept. -/
theorem strip_kept {c : UInt8} {t : Bytes} (h : Kept (c :: t)) :
    stripReceiptTokens (c :: t) = c :: stripReceiptTokens t := by
  show stripLoop (t.length + 1) (c :: t) = c :: stripLoop t.length t
  rw [stripLoop]
  split
  · next hbracket =>
    split
    · next rest hrest => exact absurd ⟨hbracket, hrest⟩ (h.2 rest)
    · rfl
  · exact if_neg h.1

/-- **Induction over the rounds of the scan.** -/
theorem scan_induction {P : Bytes → Prop} (nil : P [])
    (bracketed : ∀ x rest, Bracketed x rest → P rest → P x)
    (token : ∀ x, tokenStart <+: x → P (behindToken x) → P x)
    (kept : ∀ c t, Kept (c :: t) → P t → P (c :: t)) (x : Bytes) : P x := by
  induction hlength : x.length using Nat.strong_induction_on generalizing x with
  | _ n ih =>
    subst hlength
    by_cases htoken : tokenStart <+: x
    · exact token x htoken (ih _ (behindToken_length htoken) _ rfl)
    by_cases hbracket : ∃ rest, Bracketed x rest
    · obtain ⟨rest, hrest⟩ := hbracket
      exact bracketed x rest hrest (ih _ hrest.length _ rfl)
    cases x with
    | nil => exact nil
    | cons c t =>
      exact kept c t ⟨htoken, fun rest hrest => hbracket ⟨rest, hrest⟩⟩ (ih _ (Nat.lt_succ_self _) _ rfl)

/-! ## Words across brackets -/

/-- **A word is spelled at the front of a text**, with bracketed forms passed over between its bytes. -/
inductive Spells : Bytes → Bytes → Prop where
  | done (x : Bytes) : Spells [] x
  | byte (c : UInt8) {word x : Bytes} : Spells word x → Spells (c :: word) (c :: x)
  | across {word x rest : Bytes} : Bracketed x rest → Spells word rest → Spells word x

/-- **The start of a token is joined**: the scan keeps a byte from which on it is spelled. -/
inductive JoinsToken : Bytes → Prop where
  | here {x : Bytes} : Kept x → Spells tokenStart x → JoinsToken x
  | bracketed {x rest : Bytes} : Bracketed x rest → JoinsToken rest → JoinsToken x
  | token {x : Bytes} : tokenStart <+: x → JoinsToken (behindToken x) → JoinsToken x
  | kept {c : UInt8} {x : Bytes} : Kept (c :: x) → JoinsToken x → JoinsToken (c :: x)

/-- A byte of a token behind its first one: no form begins with it, and it ends no token. -/
def InsideToken (c : UInt8) : Prop := c ≠ chr 's' ∧ c ≠ chr '[' ∧ endsToken c = false

theorem Bracketed.unique {x rest rest' : Bytes} (h : Bracketed x rest) (h' : Bracketed x rest') :
    rest = rest' := Option.some.inj (h.2.symm.trans h'.2)

/-- Where a form stands, a word of inner bytes is spelled behind it. -/
theorem spells_bracketed_iff {word x rest : Bytes} (hword : ∀ c ∈ word, InsideToken c)
    (h : Bracketed x rest) : Spells word x ↔ Spells word rest := by
  constructor
  · intro hspells
    cases hspells with
    | done => exact .done rest
    | byte c _ => exact absurd h.head (hword c List.mem_cons_self).2.1
    | across h' hrest => exact h.unique h' ▸ hrest
  · exact .across h

/-- Where a byte is kept, a word begins with it. -/
theorem spells_kept_iff {d c : UInt8} {word x : Bytes} (h : Kept (c :: x)) :
    Spells (d :: word) (c :: x) ↔ d = c ∧ Spells word x := by
  constructor
  · intro hspells
    cases hspells with
    | byte _ hrest => exact ⟨rfl, hrest⟩
    | across hbracket _ => exact absurd hbracket (h.2 _)
  · rintro ⟨rfl, hrest⟩
    exact .byte _ hrest

/-- No inner byte is spelled where a token stands. -/
theorem not_spells_token {d : UInt8} {word x : Bytes} (hd : InsideToken d) (h : tokenStart <+: x) :
    ¬ Spells (d :: word) x := by
  intro hspells
  cases hspells with
  | byte _ _ => exact hd.1 (tokenStart_head h)
  | across hbracket _ => exact hbracket.not_token h

/-- A byte that ends a token is kept. -/
theorem kept_of_endsToken {c : UInt8} {t : Bytes} (h : endsToken c = true) : Kept (c :: t) := by
  constructor
  · intro htoken
    rw [tokenStart_head htoken] at h
    exact absurd h (by decide)
  · intro rest hbracket
    rw [hbracket.head] at h
    exact absurd h (by decide)

/-- No inner byte comes first behind a token. -/
theorem not_prefix_behindToken {d : UInt8} {word : Bytes} (hd : InsideToken d) (x : Bytes) :
    ¬ d :: word <+: stripReceiptTokens (behindToken x) := by
  cases hrest : behindToken x with
  | nil => exact fun h => absurd (List.prefix_nil.mp h) (List.cons_ne_nil _ _)
  | cons c t =>
    have hends := behindToken_head hrest
    rw [strip_kept (kept_of_endsToken hends)]
    intro h
    obtain ⟨rfl, -⟩ := List.cons_prefix_cons.mp h
    rw [hd.2.2] at hends
    exact Bool.false_ne_true hends

/-- **What the output begins with** is spelled at the front of the text. -/
theorem prefix_strip_iff (x : Bytes) : ∀ word, (∀ c ∈ word, InsideToken c) →
    (word <+: stripReceiptTokens x ↔ Spells word x) := by
  induction x using scan_induction with
  | nil =>
    intro word _
    rw [strip_nil, List.prefix_nil]
    constructor
    · rintro rfl
      exact .done []
    · intro hspells
      cases hspells with
      | done => rfl
      | across hbracket _ => exact absurd rfl hbracket.ne_nil
  | bracketed x rest h ih =>
    intro word hword
    rw [strip_bracketed h, ih word hword, spells_bracketed_iff hword h]
  | token x h ih =>
    intro word hword
    rw [strip_token h]
    cases word with
    | nil => exact iff_of_true List.nil_prefix (.done x)
    | cons d word =>
      have hd := hword d List.mem_cons_self
      exact iff_of_false (not_prefix_behindToken hd x) (not_spells_token hd h)
  | kept c t h ih =>
    intro word hword
    rw [strip_kept h]
    cases word with
    | nil => exact iff_of_true List.nil_prefix (.done _)
    | cons d word =>
      rw [List.cons_prefix_cons, spells_kept_iff h, ih word fun e he => hword e (List.mem_cons_of_mem d he)]

/-! ## The output -/

theorem tokenStart_eq : tokenStart = chr 's' :: str "c-receipt-" := by decide

theorem tokenTail_inside : ∀ c ∈ str "c-receipt-", InsideToken c := by
  unfold InsideToken
  exact bytes_forall (by decide)

/-- **The output contains the start of a token exactly if it is joined.** -/
theorem infix_strip_iff (x : Bytes) : tokenStart <:+: stripReceiptTokens x ↔ JoinsToken x := by
  induction x using scan_induction with
  | nil =>
    refine iff_of_false (by decide) fun h => ?_
    cases h with
    | here _ hspells =>
      cases hspells with
      | across hbracket _ => exact hbracket.ne_nil rfl
    | bracketed hbracket _ => exact hbracket.ne_nil rfl
    | token htoken _ => exact absurd htoken (by decide)
  | bracketed x rest h ih =>
    rw [strip_bracketed h, ih]
    constructor
    · exact .bracketed h
    · intro hjoins
      cases hjoins with
      | here hkept _ => exact absurd h (hkept.2 rest)
      | bracketed h' hrest => exact h.unique h' ▸ hrest
      | token htoken _ => exact absurd htoken h.not_token
      | kept hkept _ => exact absurd h (hkept.2 rest)
  | token x h ih =>
    rw [strip_token h, ih]
    constructor
    · exact .token h
    · intro hjoins
      cases hjoins with
      | here hkept _ => exact absurd h hkept.1
      | bracketed h' _ => exact absurd h h'.not_token
      | token _ hrest => exact hrest
      | kept hkept _ => exact absurd h hkept.1
  | kept c t h ih =>
    have hfront : tokenStart <+: c :: stripReceiptTokens t ↔ Spells tokenStart (c :: t) := by
      rw [tokenStart_eq, List.cons_prefix_cons, spells_kept_iff h, prefix_strip_iff t _ tokenTail_inside]
    rw [strip_kept h, List.infix_cons_iff, hfront, ih]
    constructor
    · rintro (hspells | hrest)
      · exact .here h hspells
      · exact .kept h hrest
    · intro hjoins
      cases hjoins with
      | here _ hspells => exact .inl hspells
      | bracketed h' _ => exact absurd h' (h.2 _)
      | token htoken _ => exact absurd htoken h.1
      | kept _ hrest => exact .inr hrest

/-- A text without tokens is left alone. -/
theorem strip_free (x : Bytes) (h : Free tokenStart x) : stripReceiptTokens x = x := by
  induction x using scan_induction with
  | nil => rfl
  | bracketed x rest hbracket _ =>
    have hinside : tokenStart <:+: str "[receipt: sc-receipt-" := by decide
    exact absurd (hinside.trans hbracket.1.isInfix) h
  | token x htoken _ => exact absurd htoken.isInfix h
  | kept c t hkept ih =>
    rw [strip_kept hkept, ih fun hin => h (hin.trans (List.suffix_cons c t).isInfix)]

/-- **When receipt tokens are fully stripped**: what is left contains no start of a token, and stripping it
    again changes nothing, exactly if none is joined from what stands around bracketed forms. -/
theorem strip_complete_iff (output : Bytes) :
    (Free tokenStart (stripReceiptTokens output) ∧
      stripReceiptTokens (stripReceiptTokens output) = stripReceiptTokens output) ↔ ¬ JoinsToken output := by
  rw [← infix_strip_iff]
  constructor
  · exact And.left
  · intro hfree
    exact ⟨hfree, strip_free _ hfree⟩

/-- A bracketed form between the halves of another token joins them. -/
theorem not_complete_joined :
    ¬ ∀ output, Free tokenStart (stripReceiptTokens output) ∧
      stripReceiptTokens (stripReceiptTokens output) = stripReceiptTokens output := by
  intro h
  obtain ⟨hfree, -⟩ := h (str "sc-[receipt: sc-receipt-1]receipt-")
  have hleft : stripReceiptTokens (str "sc-[receipt: sc-receipt-1]receipt-") = tokenStart := by decide +kernel
  rw [hleft] at hfree
  exact hfree List.infix_rfl

end SmolClaw.Runtime
