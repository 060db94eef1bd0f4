/-
  How much text a value takes.

  A reader cannot make more out of a text than was written in it.  This module makes that a number, so
  that text glued together by hand can be judged WITHOUT following what the reader does inside it.

  1. **Weights** — a byte of text weighs 1, but a backslash and a `u` weigh 256 each.  A byte of a
     decoded string COSTS what the lightest way to write it weighs: a quote or a control byte needs a
     backslash, a backslash needs two of the heavy bytes (`\\`, or `\u005c`), every other byte stands
     for itself.

  2. **The bound** — whatever the reader returns, its cost and the weight of the text left are together
     at most the weight of the text it was given (`parseString_weight`, `Weighs.succ`).  An object costs
     the sum of its members.

  3. **Use** — when a text weighs no more than its members have to cost, every string in it must have
     been written as it is: a byte that needs an escape and got none makes the scales tip by 256.
-/
import Mathlib.Algebra.Ring.Nat
import SmolClaw.Json.Text

namespace SmolClaw

/-! ## Weights and costs -/

/-- The weight of a written byte. -/
def byteWeight (b : UInt8) : Nat := if b = chr '\\' ∨ b = chr 'u' then 256 else 1

/-- The least weight of a text that a string reads as the byte. -/
def byteCost (b : UInt8) : Nat :=
  if b = chr '\\' then 512 else if b = chr '"' ∨ b < 0x20 then 257 else byteWeight b

def textWeight (text : Bytes) : Nat := (text.map byteWeight).sum

def textCost (text : Bytes) : Nat := (text.map byteCost).sum

@[simp] theorem textWeight_nil : textWeight [] = 0 := rfl

@[simp] theorem textWeight_cons (b : UInt8) (t : Bytes) :
    textWeight (b :: t) = byteWeight b + textWeight t := List.sum_cons

@[simp] theorem textWeight_append (s t : Bytes) : textWeight (s ++ t) = textWeight s + textWeight t := by
  rw [textWeight, List.map_append, List.sum_append]
  rfl

@[simp] theorem textCost_cons (b : UInt8) (t : Bytes) :
    textCost (b :: t) = byteCost b + textCost t := List.sum_cons

@[simp] theorem textCost_append (s t : Bytes) : textCost (s ++ t) = textCost s + textCost t := by
  rw [textCost, List.map_append, List.sum_append]
  rfl

/-- A text weighs at least as much as every end of it. -/
theorem textWeight_suffix {s t : Bytes} (h : s <:+ t) : textWeight s ≤ textWeight t := by
  obtain ⟨front, rfl⟩ := h
  rw [textWeight_append]
  exact Nat.le_add_left _ _

/-- A byte that a string may hold as it is. -/
def isPlainByte (b : UInt8) : Bool := b != chr '\\' && b != chr '"' && !(b < 0x20)

/-- A plain byte costs what it weighs, any other byte 256 more. -/
theorem byteCost_plain {b : UInt8} (h : isPlainByte b = true) : byteCost b = byteWeight b := by
  simp only [isPlainByte, Bool.and_eq_true, bne_iff_ne, Bool.not_eq_true', decide_eq_false_iff_not] at h
  obtain ⟨⟨hslash, hquote⟩, hcontrol⟩ := h
  rw [byteCost, if_neg hslash, if_neg (not_or.mpr ⟨hquote, hcontrol⟩)]

theorem byteCost_escaped {b : UInt8} (h : isPlainByte b = false) : byteWeight b + 256 ≤ byteCost b := by
  by_cases hslash : b = chr '\\'
  · rw [hslash]
    decide
  · have hlow : b = chr '"' ∨ b < 0x20 := by
      by_contra hne
      rw [not_or] at hne
      rw [isPlainByte, bne_iff_ne.mpr hslash, bne_iff_ne.mpr hne.1, decide_eq_false hne.2] at h
      exact Bool.noConfusion h
    have hweight : ¬ (b = chr '\\' ∨ b = chr 'u') := by
      rintro (hb | rfl)
      · exact hslash hb
      · exact absurd hlow (by decide)
    rw [byteCost, byteWeight, if_neg hslash, if_pos hlow, if_neg hweight]

theorem byteWeight_le_cost (b : UInt8) : byteWeight b ≤ byteCost b := by
  by_cases h : isPlainByte b = true
  · rw [byteCost_plain h]
  · exact Nat.le_trans (Nat.le_add_right _ _) (byteCost_escaped ((Bool.not_eq_true _).mp h))

/-- Escaping that is paid for byte by byte is paid for. -/
theorem textWeight_flatMap_le {esc : UInt8 → Bytes} (hesc : ∀ b, textWeight (esc b) ≤ byteCost b) :
    ∀ s : Bytes, textWeight (s.flatMap esc) ≤ textCost s := by
  intro s
  induction s with
  | nil => exact Nat.le_refl 0
  | cons b s ih =>
    rw [List.flatMap_cons, textWeight_append, textCost_cons]
    exact Nat.add_le_add (hesc b) ih

/-- **One byte that is not escaped as it must be** leaves a text 256 too light. -/
theorem textWeight_flatMap_lt {esc : UInt8 → Bytes} (hesc : ∀ b, textWeight (esc b) ≤ byteCost b)
    {ok : UInt8 → Bool} (hbad : ∀ b, ok b = false → textWeight (esc b) + 256 ≤ byteCost b) :
    ∀ {s : Bytes}, s.all ok = false → textWeight (s.flatMap esc) + 256 ≤ textCost s := by
  intro s
  induction s with
  | nil => intro h; exact nomatch h
  | cons b s ih =>
    intro h
    rw [List.flatMap_cons, textWeight_append, textCost_cons]
    have hb := hesc b
    have hrest := textWeight_flatMap_le hesc s
    rw [List.all_cons, Bool.and_eq_false_iff] at h
    rcases h with h | h
    · have hlight := hbad b h
      omega
    · have hlight := ih h
      omega

/-- A text of light bytes weighs its length. -/
theorem textWeight_light {s : Bytes} (h : ∀ c ∈ s, byteWeight c = 1) : textWeight s = s.length := by
  induction s with
  | nil => rfl
  | cons c s ih =>
    rw [textWeight_cons, List.length_cons, h c List.mem_cons_self,
      ih fun d hd => h d (List.mem_cons_of_mem c hd), Nat.add_comm]

theorem isDigit_light {c : UInt8} (h : isDigit c = true) : byteWeight c = 1 := by
  refine if_neg ?_
  rintro (rfl | rfl)
  · exact absurd h (by decide)
  · exact absurd h (by decide)

/-! ## What a text is left with -/

theorem parseHex_suffix : ∀ (n : Nat) (codepoint : UInt32) (left : Bytes) {value : UInt32} {rest : Bytes},
    parseHex n codepoint left = .ok (value, rest) → rest <:+ left := by
  intro n
  induction n with
  | zero =>
    intro codepoint left value rest h
    obtain ⟨-, rfl⟩ := Prod.mk.inj (Except.ok.inj h)
    exact List.suffix_rfl
  | succ n ih =>
    intro codepoint left value rest h
    cases left with
    | nil => cases h
    | cons c left =>
      rw [parseHex] at h
      split at h
      · exact (ih _ left h).trans (List.suffix_cons c left)
      · cases h

theorem parseLowSurrogate_suffix {high value : UInt32} {left rest : Bytes}
    (h : parseLowSurrogate high left = .ok (value, rest)) : rest <:+ left := by
  unfold parseLowSurrogate at h
  split at h
  · next backslash u left =>
    split at h
    · cases h
    · split at h
      · next hlow =>
        split at h
        · cases h
        · obtain ⟨-, rfl⟩ := Prod.mk.inj (Except.ok.inj h)
          exact (parseHex_suffix _ _ _ hlow).trans
            ((List.suffix_cons u left).trans (List.suffix_cons backslash (u :: left)))
      · cases h
  · cases h

theorem parseUnicodeEscape_suffix {value : UInt32} {left rest : Bytes}
    (h : parseUnicodeEscape left = .ok (value, rest)) : rest <:+ left := by
  unfold parseUnicodeEscape at h
  split at h
  · cases h
  · split at h
    · next hhex =>
      have hleft := parseHex_suffix _ _ _ hhex
      split at h
      · exact (parseLowSurrogate_suffix h).trans hleft
      · split at h
        · cases h
        · obtain ⟨-, rfl⟩ := Prod.mk.inj (Except.ok.inj h)
          exact hleft
    · cases h

theorem takeGroup_append {p : UInt8 → Bool} {more : Bytes → Bytes × Bytes}
    (hmore : ∀ t, (more t).1 ++ (more t).2 = t) (t : Bytes) :
    (takeGroup p more t).1 ++ (takeGroup p more t).2 = t := by
  cases t with
  | nil => rfl
  | cons c t =>
    rw [takeGroup]
    split
    · rw [List.cons_append, hmore]
    · rfl

theorem takeOne_append (p : UInt8 → Bool) (t : Bytes) : (takeOne p t).1 ++ (takeOne p t).2 = t := by
  cases t with
  | nil => rfl
  | cons c t =>
    rw [takeOne]
    split <;> rfl

theorem takeDigits_append (t : Bytes) : (takeDigits t).1 ++ (takeDigits t).2 = t :=
  List.takeWhile_append_dropWhile

theorem takeSignedDigits_append (t : Bytes) :
    (takeSignedDigits t).1 ++ (takeSignedDigits t).2 = t := by
  show (takeOne _ t).1 ++ (takeDigits (takeOne _ t).2).1 ++ (takeDigits (takeOne _ t).2).2 = t
  rw [List.append_assoc, takeDigits_append, takeOne_append]

/-- The text of a number and what is left after it are the text. -/
theorem numberText_append (t : Bytes) : (numberText t).1 ++ (numberText t).2 = t := by
  have hsign := takeOne_append (· == chr '-') t
  have hwhole := takeDigits_append (takeOne (· == chr '-') t).2
  have hfrac := takeGroup_append (p := (· == chr '.')) takeDigits_append
    (takeDigits (takeOne (· == chr '-') t).2).2
  have hexp := takeGroup_append (p := fun c => c == chr 'e' || c == chr 'E') takeSignedDigits_append
    (takeGroup (· == chr '.') takeDigits (takeDigits (takeOne (· == chr '-') t).2).2).2
  simp only [numberText, List.append_assoc]
  rw [hexp, hfrac, hwhole, hsign]

theorem parseNumber_suffix {left rest : Bytes} {v : Json} (h : parseNumber left = .ok (v, rest)) :
    rest <:+ left := by
  unfold parseNumber at h
  dsimp only at h
  split at h
  · cases h
  · split at h
    · split at h
      · obtain ⟨-, rfl⟩ := Prod.mk.inj (Except.ok.inj h)
        exact ⟨_, numberText_append left⟩
      · cases h
    · cases h

/-! ## Strings -/

/-- The one-letter escapes and what they write. -/
theorem simpleEscape_cases {e c : UInt8} (h : simpleEscape e = some c) :
    (e, c) ∈ [(chr '"', chr '"'), (chr '\\', chr '\\'), (chr '/', chr '/'), (chr 'b', 8), (chr 'f', 12),
      (chr 'n', 10), (chr 'r', 13), (chr 't', 9)] := by
  unfold simpleEscape at h
  split_ifs at h with hself hb hf hn hr ht
  all_goals obtain rfl := Option.some.inj h
  · rcases hself with rfl | rfl | rfl <;> decide
  all_goals subst e; decide

/-- What holds of each one-letter escape. -/
theorem simpleEscape_forall {p : UInt8 → UInt8 → Bool}
    (hall : [(chr '"', chr '"'), (chr '\\', chr '\\'), (chr '/', chr '/'), (chr 'b', 8), (chr 'f', 12),
      (chr 'n', 10), (chr 'r', 13), (chr 't', 9)].all (fun ec => p ec.1 ec.2) = true)
    {e c : UInt8} (h : simpleEscape e = some c) : p e c = true :=
  List.all_eq_true.mp hall _ (simpleEscape_cases h)

/-- A byte that a one-letter escape writes costs no more than the escape weighs. -/
theorem simpleEscape_cost {e c : UInt8} (h : simpleEscape e = some c) : byteCost c ≤ 256 + byteWeight e :=
  of_decide_eq_true (simpleEscape_forall (p := fun e c => decide (byteCost c ≤ 256 + byteWeight e))
    (by decide) h)

theorem byteCost_le (b : UInt8) : byteCost b ≤ 512 := by
  unfold byteCost byteWeight
  split_ifs <;> decide

/-- The bytes of a longer character cost 1 each. -/
theorem byteCost_lead {mark : UInt32} (hmark : mark = 0x80 ∨ mark = 0xC0 ∨ mark = 0xE0 ∨ mark = 0xF0)
    (x : UInt32) : byteCost (mark ||| x).toUInt8 = 1 := by
  have hall : ∀ b : UInt8, byteCost ((0x80 : UInt8) ||| b) = 1 ∧ byteCost ((0xC0 : UInt8) ||| b) = 1 ∧
      byteCost ((0xE0 : UInt8) ||| b) = 1 ∧ byteCost ((0xF0 : UInt8) ||| b) = 1 := by
    apply byte_forall
    decide +kernel
  obtain ⟨h8, hc, he, hf⟩ := hall x.toUInt8
  rw [UInt32.toUInt8_or]
  rcases hmark with rfl | rfl | rfl | rfl
  · exact h8
  · exact hc
  · exact he
  · exact hf

/-- A code point costs no more than the two heavy bytes of `\u`. -/
theorem utf8Codepoint_cost {cp : UInt32} {text : Bytes} (h : utf8Codepoint cp = some text) :
    textCost text ≤ 512 := by
  have h80 : ∀ x, byteCost ((0x80 : UInt32) ||| x).toUInt8 = 1 := byteCost_lead (.inl rfl)
  have hc0 : ∀ x, byteCost ((0xC0 : UInt32) ||| x).toUInt8 = 1 := byteCost_lead (.inr (.inl rfl))
  have he0 : ∀ x, byteCost ((0xE0 : UInt32) ||| x).toUInt8 = 1 := byteCost_lead (.inr (.inr (.inl rfl)))
  have hf0 : ∀ x, byteCost ((0xF0 : UInt32) ||| x).toUInt8 = 1 := byteCost_lead (.inr (.inr (.inr rfl)))
  have hnil : textCost [] = 0 := rfl
  unfold utf8Codepoint at h
  dsimp only at h
  split_ifs at h
  · obtain rfl := Option.some.inj h
    rw [textCost_cons, hnil]
    exact byteCost_le _
  · obtain rfl := Option.some.inj h
    simp only [textCost_cons, h80, hc0, hnil]
    omega
  · obtain rfl := Option.some.inj h
    simp only [textCost_cons, h80, he0, hnil]
    omega
  · obtain rfl := Option.some.inj h
    simp only [textCost_cons, h80, hf0, hnil]
    omega

/-- The loop of `parse_string`: what it appends and the closing quote are paid for, by induction on the
    turns with one case for each way to write a byte. -/
theorem parseStringLoop_weight : ∀ (turns : Nat) (builder left : Bytes) {s rest : Bytes},
    parseStringLoop turns builder left = .ok (s, rest) →
      ∃ t, s = builder ++ t ∧ textCost t + 1 + textWeight rest ≤ textWeight left := by
  intro turns
  induction turns with
  | zero => intro builder left s rest h; cases h
  | succ turns ih =>
    intro builder left s rest h
    cases left with
    | nil => cases h
    | cons ch left =>
      rw [parseStringLoop.eq_def] at h
      dsimp only at h
      rw [textWeight_cons]
      split at h
      · -- the closing quote
        next hquote =>
        obtain ⟨rfl, rfl⟩ := Prod.mk.inj (Except.ok.inj h)
        have hweight : byteWeight ch = 1 := by rw [hquote]; decide
        exact ⟨[], (List.append_nil _).symm, by rw [hweight]; exact Nat.le_of_eq (by simp [textCost])⟩
      next hquote =>
      split at h
      · cases h
      next hcontrol =>
      split at h
      · next hslash =>
        have hweight : byteWeight ch = 256 := by rw [hslash]; decide
        cases left with
        | nil => cases h
        | cons e left =>
          dsimp only at h
          rw [textWeight_cons]
          split at h
          · -- a one-letter escape
            next c hc =>
            obtain ⟨t, rfl, ht⟩ := ih _ _ h
            have hcost := simpleEscape_cost hc
            exact ⟨c :: t, by rw [List.append_assoc]; rfl, by rw [textCost_cons]; omega⟩
          · split at h
            · next hu =>
              have hweight' : byteWeight e = 256 := by rw [hu]; decide
              split at h
              · next hescape =>
                have hleft := textWeight_suffix (parseUnicodeEscape_suffix hescape)
                split at h
                · -- a code point
                  next text htext =>
                  obtain ⟨t, rfl, ht⟩ := ih _ _ h
                  have hcost := utf8Codepoint_cost htext
                  exact ⟨text ++ t, (List.append_assoc _ _ _).symm ▸ rfl, by rw [textCost_append]; omega⟩
                · cases h
              · cases h
            · cases h
      · -- a byte that stands for itself
        next hslash =>
        obtain ⟨t, rfl, ht⟩ := ih _ _ h
        have hplain : isPlainByte ch = true := by
          simp only [isPlainByte, bne_iff_ne, Bool.and_eq_true, ne_eq, Bool.not_eq_true',
            decide_eq_false_iff_not]
          exact ⟨⟨hslash, hquote⟩, hcontrol⟩
        exact ⟨ch :: t, by rw [List.append_assoc]; rfl, by rw [textCost_cons, byteCost_plain hplain]; omega⟩

theorem consume_some {c : UInt8} {left rest : Bytes} (h : consume c left = some rest) :
    left = c :: rest := by
  cases left with
  | nil => cases h
  | cons d left =>
    rw [consume] at h
    split at h
    · next hd => rw [hd, Option.some.inj h]
    · cases h

/-- **A string is paid for**: its bytes and its two quotes. -/
theorem parseString_weight {left s rest : Bytes} (h : parseString left = .ok (s, rest)) :
    textCost s + 2 + textWeight rest ≤ textWeight left := by
  unfold parseString at h
  split at h
  · next hquote =>
    obtain ⟨t, rfl, ht⟩ := parseStringLoop_weight _ _ _ h
    have hweight : byteWeight (chr '"') = 1 := by decide
    rw [consume_some hquote, textWeight_cons, hweight]
    omega
  · cases h

/-! ## Values -/

/-- The reader `p` returns no value whose cost `c` is not paid for. -/
def Weighs (p : Bytes → Parsed Json) (c : Json → Nat) : Prop :=
  ∀ left v rest, p left = .ok (v, rest) → c v + textWeight rest ≤ textWeight left

/-- The cost of strings and of `null`; every other value is counted as nothing. -/
def scalarCost : Json → Nat
  | .string s => textCost s + 2
  | .null => textWeight (str "null")
  | _ => 0

/-- The cost of a member: key and quotes, colon, value, and the comma or brace behind it. -/
def memberCost (c : Json → Nat) (m : Bytes × Json) : Nat := textCost m.1 + 3 + c m.2 + 1

/-- The cost of a value when those of its members are `c`. -/
def objectCost (c : Json → Nat) : Json → Nat
  | .object members => 1 + (members.map (memberCost c)).sum
  | v => scalarCost v

theorem scalarCost_le (c : Json → Nat) (v : Json) : scalarCost v ≤ objectCost c v := by
  cases v <;> first | exact Nat.zero_le _ | exact Nat.le_refl _

/-- One member of an object costs no more than the object. -/
theorem memberCost_le {c : Json → Nat} {members : List (Bytes × Json)} {m : Bytes × Json}
    (hm : m ∈ members) : memberCost c m ≤ (members.map (memberCost c)).sum := by
  obtain ⟨front, back, rfl⟩ := List.append_of_mem hm
  simp only [List.map_append, List.map_cons, List.sum_append, List.sum_cons]
  omega

/-- Nor do two. -/
theorem memberCost_add_le {c : Json → Nat} {members : List (Bytes × Json)} {m n : Bytes × Json}
    (hm : m ∈ members) (hn : n ∈ members) (hne : m ≠ n) :
    memberCost c m + memberCost c n ≤ (members.map (memberCost c)).sum := by
  obtain ⟨front, back, rfl⟩ := List.append_of_mem hm
  have hother : n ∈ front ++ back := by
    rcases List.mem_append.mp hn with h | h
    · exact List.mem_append_left _ h
    · rcases List.mem_cons.mp h with h | h
      · exact absurd h.symm hne
      · exact List.mem_append_right _ h
  have hle := memberCost_le (c := c) hother
  simp only [List.map_append, List.map_cons, List.sum_append, List.sum_cons] at hle ⊢
  omega

theorem skipWs_weight (left : Bytes) : textWeight (skipWs left) ≤ textWeight left :=
  textWeight_suffix (List.dropWhile_suffix _)

section Containers

variable {p : Bytes → Parsed Json} {c : Json → Nat}

theorem parseMember_weight (hp : Weighs p c) {left rest : Bytes} {m : Bytes × Json}
    (h : parseMember p left = .ok (m, rest)) :
    textCost m.1 + 3 + c m.2 + textWeight rest ≤ textWeight left := by
  obtain ⟨after, t, hkey, hcolon, hvalue⟩ := parseMember_read h
  have hk := parseString_weight hkey
  have hskip := skipWs_weight after
  have hv := hp _ _ _ hvalue
  have hweight : byteWeight (chr ':') = 1 := by decide
  rw [consume_some hcolon, textWeight_cons, hweight] at hskip
  omega

/-- The bytes between the members weigh 1. -/
theorem consume_weight {d : UInt8} (hd : byteWeight d = 1) {left rest : Bytes}
    (h : consume d (skipWs left) = some rest) : 1 + textWeight rest ≤ textWeight left := by
  have hskip := skipWs_weight left
  rw [consume_some h, textWeight_cons, hd] at hskip
  exact hskip

/-- **The loop of `parse_object`**: every member it appends is paid for. -/
theorem MembersRead.weight (hp : Weighs p c) {acc : List (Bytes × Json)} {left rest : Bytes} {v : Json}
    (h : MembersRead p acc left v rest) :
    ∃ ms, v = .object (acc ++ ms) ∧ (ms.map (memberCost c)).sum + textWeight rest ≤ textWeight left := by
  induction h with
  | @close acc m left after rest member closed =>
    have hm := parseMember_weight hp member
    have hbrace := consume_weight (by decide) closed
    refine ⟨[m], rfl, ?_⟩
    simp only [List.map_cons, List.map_nil, List.sum_cons, List.sum_nil, memberCost]
    omega
  | @comma acc m left after t rest v member more _ ih =>
    obtain ⟨ms, rfl, hms⟩ := ih
    have hm := parseMember_weight hp member
    have hbyte := consume_weight (by decide) more
    have hskip := skipWs_weight t
    refine ⟨m :: ms, by rw [List.append_assoc]; rfl, ?_⟩
    simp only [List.map_cons, List.sum_cons, memberCost] at hms ⊢
    omega

theorem parseObject_weight (hp : Weighs p c) {left rest : Bytes} {v : Json}
    (h : parseObject p left = .ok (v, rest)) :
    ∃ ms, v = .object ms ∧ (ms.map (memberCost c)).sum + textWeight rest ≤ textWeight left := by
  rcases parseObject_read h with ⟨hclose, rfl⟩ | hread
  · have hbrace := consume_weight (by decide) hclose
    exact ⟨[], rfl, by rw [List.map_nil, List.sum_nil]; omega⟩
  · obtain ⟨ms, rfl, hms⟩ := hread.weight hp
    exact ⟨ms, rfl, hms.trans (skipWs_weight left)⟩

/-- An array is only known not to add text. -/
theorem ItemsRead.weight (hp : Weighs p c) {acc : List Json} {left rest : Bytes} {v : Json}
    (h : ItemsRead p acc left v rest) : (∃ items, v = .array items) ∧ textWeight rest ≤ textWeight left := by
  induction h with
  | close _ value closed =>
    have hi := hp _ _ _ value
    have hbracket := consume_weight (by decide) closed
    exact ⟨⟨_, rfl⟩, by omega⟩
  | @comma _ _ _ _ t _ _ _ value more _ ih =>
    have hi := hp _ _ _ value
    have hbyte := consume_weight (by decide) more
    have hskip := skipWs_weight t
    exact ⟨ih.1, by omega⟩

theorem parseArray_weight (hp : Weighs p c) {left rest : Bytes} {v : Json}
    (h : parseArray p left = .ok (v, rest)) :
    (∃ items, v = .array items) ∧ textWeight rest ≤ textWeight left := by
  rcases parseArray_read h with ⟨hclose, rfl⟩ | hread
  · have hbracket := consume_weight (by decide) hclose
    exact ⟨⟨_, rfl⟩, by omega⟩
  · obtain ⟨hkind, hrest⟩ := hread.weight hp
    exact ⟨hkind, hrest.trans (skipWs_weight left)⟩

end Containers

/-- **One more level**: when the values one level down are paid for, so are the objects they are in. -/
theorem Weighs.succ {levels : Nat} {c : Json → Nat} (hp : Weighs (parseValue levels) c) :
    Weighs (parseValue (levels + 1)) (objectCost c) := by
  intro left v rest h
  have hskip := skipWs_weight left
  have hread := parseValue_read h
  generalize skipWs left = s at hskip hread
  refine Nat.le_trans ?_ hskip
  cases hread with
  | object hmembers =>
    obtain ⟨ms, rfl, hms⟩ := parseObject_weight hp hmembers
    have hbrace : byteWeight (chr '\x7b') = 1 := by decide
    rw [textWeight_cons, hbrace]
    show 1 + (ms.map (memberCost c)).sum + _ ≤ _
    omega
  | array hitems =>
    obtain ⟨⟨items, rfl⟩, hrest⟩ := parseArray_weight hp hitems
    rw [textWeight_cons]
    show 0 + _ ≤ _
    omega
  | string htext =>
    have hs := parseString_weight htext
    show textCost _ + 2 + _ ≤ _
    omega
  | @literal word _ _ hknown =>
    have hcost : objectCost c v ≤ textWeight word := by
      rcases hknown with ⟨rfl, rfl⟩ | ⟨rfl, rfl⟩ | ⟨rfl, rfl⟩
      · exact Nat.zero_le _
      · exact Nat.zero_le _
      · exact Nat.le_refl _
    rw [textWeight_append]
    exact Nat.add_le_add_right hcost _
  | number _ hdigits =>
    have hrest := textWeight_suffix (parseNumber_suffix hdigits)
    obtain ⟨d, rfl⟩ := parseNumber_kind hdigits
    show 0 + _ ≤ _
    rwa [Nat.zero_add]

/-- The strings and nulls of a text are paid for, at every level. -/
theorem parseValue_weighs (levels : Nat) : Weighs (parseValue levels) scalarCost := by
  induction levels with
  | zero => intro left v rest h; cases h
  | succ levels ih =>
    intro left v rest h
    exact (Nat.add_le_add_right (scalarCost_le scalarCost v) _).trans (ih.succ left v rest h)

/-! ## Written objects -/

/-- The weight of a written member, with the comma or brace behind it. -/
def MemberText.weight (esc : UInt8 → Bytes) (m : MemberText) : Nat :=
  textWeight (m.key.flatMap esc) + 3 + textWeight m.text + 1

theorem textWeight_quoted (esc : UInt8 → Bytes) (s : Bytes) :
    textWeight (quoted esc s) = textWeight (s.flatMap esc) + 2 := by
  have hquote : byteWeight (chr '"') = 1 := by decide
  simp only [quoted, textWeight_cons, textWeight_append, textWeight_nil, hquote]
  omega

theorem textWeight_render (esc : UInt8 → Bytes) (m : MemberText) :
    textWeight (m.render esc) + 1 = m.weight esc := by
  have hcolon : byteWeight (chr ':') = 1 := by decide
  simp only [MemberText.render, MemberText.weight, textWeight_append, textWeight_cons, textWeight_quoted,
    hcolon]
  omega

/-- Members behind the opening brace weigh what each of them does. -/
theorem textWeight_members (esc : UInt8 → Bytes) : ∀ (m : MemberText) (ms : List MemberText),
    textWeight (commaSeparated ((m :: ms).map (·.render esc)) ++ [chr '}']) =
      ((m :: ms).map (·.weight esc)).sum := by
  have hcomma : byteWeight (chr ',') = 1 := by decide
  have hbrace : byteWeight (chr '}') = 1 := by decide
  intro m ms
  induction ms generalizing m with
  | nil =>
    rw [List.map_singleton, commaSeparated, textWeight_append, textWeight_cons, hbrace, textWeight_nil,
      List.map_singleton, List.sum_singleton, ← textWeight_render]
  | cons n ms ih =>
    have hrest := ih n
    have hsum : ((m :: n :: ms).map (·.weight esc)).sum =
        m.weight esc + ((n :: ms).map (·.weight esc)).sum := List.sum_cons
    rw [List.map_cons, List.map_cons, commaSeparated, ← List.map_cons, List.append_assoc, List.cons_append,
      textWeight_append, textWeight_cons, hcomma, hrest, hsum, ← textWeight_render]
    omega

theorem textWeight_object (esc : UInt8 → Bytes) (m : MemberText) (ms : List MemberText) :
    textWeight (objectText esc (m :: ms)) = 1 + ((m :: ms).map (·.weight esc)).sum := by
  have hbrace : byteWeight (chr '\x7b') = 1 := by decide
  rw [objectText, textWeight_cons, hbrace, textWeight_members]

/-- **The scales**: when a written object is a document and its first member reads back, the members
    behind it cost no more than was written for them. -/
theorem jsonParse_weight {esc : UInt8 → Bytes} {m n : MemberText} {ms : List MemberText} {v : Json}
    (hm : m.Reads esc (parseValue jsonMaxDepth)) (h : jsonParse (objectText esc (m :: n :: ms)) = .ok v) :
    ∃ members, v = .object ((m.key, m.value) :: members) ∧
      (members.map (memberCost (objectCost scalarCost))).sum ≤ ((n :: ms).map (·.weight esc)).sum := by
  obtain ⟨rest, hparse⟩ := jsonParse_eq_ok h
  let tail := commaSeparated ((n :: ms).map (·.render esc)) ++ [chr '}']
  have happ : objectText esc (m :: n :: ms) = chr '\x7b' :: (m.render esc ++ chr ',' :: tail) := by
    simp only [tail, objectText, List.map_cons, commaSeparated, List.append_assoc, List.cons_append]
  have hquote : ∃ t, m.render esc ++ chr ',' :: tail = chr '"' :: t := ⟨_, rfl⟩
  obtain ⟨t, ht⟩ := hquote
  have hloop : parseMembers (parseValue jsonMaxDepth) ((chr '"' :: t).length + 1) []
      (m.render esc ++ chr ',' :: tail) = .ok (v, rest) := by
    rw [happ, skipWs_cons (by decide), parseValue, skipWs_cons (by decide)] at hparse
    have hobject := (if_pos rfl).symm.trans hparse
    rw [parseObject, ht, skipWs_cons (by decide),
      consume_ne (show chr '"' ≠ chr '}' by decide)] at hobject
    rw [ht]
    exact hobject
  rw [parseMembers_comma ⟨t, ht⟩ (parseMember_render hm (by decide) tail) (skipWs_cons (by decide) tail)]
    at hloop
  obtain ⟨members, rfl, hweight⟩ :=
    (parseMembers_read _ _ _ hloop).weight (parseValue_weighs 63).succ
  refine ⟨members, rfl, ?_⟩
  have hskip := skipWs_weight tail
  rw [textWeight_members] at hskip
  omega

example : textWeight (str "ab") = 2 := by decide

end SmolClaw
