/-
  The grammar of JSON (RFC 8259), over the bytes of a UTF-8 text.

  1. **Strings** — a string is a list of pieces: a byte that stands for itself, one of the eight short
     escapes, or `\u` with four hexadecimal digits.  A byte from `0x80` on is part of a character beyond
     ASCII; that these are well formed is asked of the whole text, not here.  The grammar takes any four
     digits; `Paired` says that surrogates come as a high one with a low one right behind it, and `Decodes`
     what the string stands for then.

  2. **Numbers** — a `Numeral` has the shape of a number: a sign, digits, a point with digits, an exponent
     with digits, where any of the digits may be missing.  `Numeral.Proper` is what the grammar asks in
     addition: digits everywhere, and no zero in front of others.

  3. **Texts** — `Derives` follows the productions for values, arrays and objects.  It is counted by the
     containers that may stand around a value, and its rules leave open which strings, numbers and lengths
     of arrays are taken, so that a reader that takes more or less than the grammar is described by rules
     of its own.  More liberal rules derive more (`Document.mono`).

  4. **Lines** — a string has no line feed in it, and so no line of a text starts within a string: every one
     starts with a byte of the other tokens (`Document.lineStarts`).
-/
import Mathlib.Algebra.Group.Nat.Defs
import Mathlib.Data.List.Basic

namespace Lib.JsonGrammar

/-! ## Strings -/

/-- `HEXDIG` -/
def HexDigit (c : UInt8) : Prop := (0x30 ≤ c ∧ c ≤ 0x39) ∨ (0x41 ≤ c ∧ c ≤ 0x46) ∨ (0x61 ≤ c ∧ c ≤ 0x66)

instance (c : UInt8) : Decidable (HexDigit c) := inferInstanceAs (Decidable (_ ∨ _ ∨ _))

/-- What a hexadecimal digit stands for. -/
def hexValue (c : UInt8) : Nat :=
  if c ≤ 0x39 then c.toNat - 0x30 else if c ≤ 0x46 then c.toNat - 0x41 + 10 else c.toNat - 0x61 + 10

/-- Four hexadecimal digits. -/
structure CodeUnit where
  digits : List UInt8
  length_digits : digits.length = 4
  hex : ∀ d ∈ digits, HexDigit d

/-- The number they stand for. -/
def CodeUnit.value (u : CodeUnit) : Nat := u.digits.foldl (fun n d => 16 * n + hexValue d) 0

theorem hexValue_lt {c : UInt8} (h : HexDigit c) : hexValue c < 16 := by
  simp only [HexDigit, UInt8.le_iff_toNat_le] at h
  change (0x30 ≤ c.toNat ∧ c.toNat ≤ 0x39) ∨ (0x41 ≤ c.toNat ∧ c.toNat ≤ 0x46) ∨
    (0x61 ≤ c.toNat ∧ c.toNat ≤ 0x66) at h
  unfold hexValue
  simp only [UInt8.le_iff_toNat_le]
  change (if c.toNat ≤ 0x39 then _ else if c.toNat ≤ 0x46 then _ else _) < 16
  split_ifs <;> omega

/-- Four digits are sixteen bits. -/
theorem CodeUnit.value_lt (u : CodeUnit) : u.value < 16 ^ 4 := by
  have hfold : ∀ (digits : List UInt8) (n : Nat), (∀ d ∈ digits, HexDigit d) →
      digits.foldl (fun n d => 16 * n + hexValue d) n < (n + 1) * 16 ^ digits.length := by
    intro digits
    induction digits with
    | nil => intro n _; rw [List.foldl_nil, List.length_nil]; omega
    | cons d digits ih =>
      intro n hhex
      have hd := hexValue_lt (hhex d List.mem_cons_self)
      calc (d :: digits).foldl (fun n d => 16 * n + hexValue d) n
          < (16 * n + hexValue d + 1) * 16 ^ digits.length :=
            ih (16 * n + hexValue d) fun c hc => hhex c (List.mem_cons_of_mem d hc)
        _ ≤ (16 * (n + 1)) * 16 ^ digits.length := Nat.mul_le_mul_right _ (by omega)
        _ = (n + 1) * 16 ^ (d :: digits).length := by
            rw [List.length_cons, Nat.pow_succ, Nat.mul_comm 16 (n + 1), Nat.mul_assoc, Nat.mul_comm 16]
  have h := hfold u.digits 0 u.hex
  rwa [u.length_digits, Nat.zero_add, Nat.one_mul] at h

/-- The first half of a surrogate pair. -/
def CodeUnit.High (u : CodeUnit) : Prop := 0xD800 ≤ u.value ∧ u.value ≤ 0xDBFF

/-- The second half of a surrogate pair. -/
def CodeUnit.Low (u : CodeUnit) : Prop := 0xDC00 ≤ u.value ∧ u.value ≤ 0xDFFF

/-- What may follow a backslash alone: `" \ / b f n r t`. -/
def shortEscapes : List UInt8 := [0x22, 0x5C, 0x2F, 0x62, 0x66, 0x6E, 0x72, 0x74]

/-- `char` -/
inductive Piece where
  | unescaped (b : UInt8) (h : 0x20 ≤ b ∧ b ≠ 0x22 ∧ b ≠ 0x5C)
  | short (b : UInt8) (h : b ∈ shortEscapes)
  | unicode (u : CodeUnit)

def Piece.bytes : Piece → List UInt8
  | unescaped b _ => [b]
  | short b _ => [0x5C, b]
  | unicode u => 0x5C :: 0x75 :: u.digits

/-- Half of a surrogate pair. -/
def Piece.Surrogate : Piece → Prop
  | unicode u => u.High ∨ u.Low
  | _ => False

/-- Surrogates come in pairs. -/
inductive Paired : List Piece → Prop
  | nil : Paired []
  | cons {p : Piece} {ps : List Piece} (hp : ¬p.Surrogate) (h : Paired ps) : Paired (p :: ps)
  | pair {u v : CodeUnit} {ps : List Piece} (hu : u.High) (hv : v.Low) (h : Paired ps) :
      Paired (.unicode u :: .unicode v :: ps)

/-- `string` -/
def stringText (s : List Piece) : List UInt8 := 0x22 :: (s.flatMap Piece.bytes ++ [0x22])

/-- What a short escape stands for: five letters for control bytes, the other three for themselves. -/
def shortValue (b : UInt8) : UInt8 :=
  if b = 0x62 then 0x08 else if b = 0x66 then 0x0C else if b = 0x6E then 0x0A
  else if b = 0x72 then 0x0D else if b = 0x74 then 0x09 else b

/-- The code point of a surrogate pair. -/
def pairValue (u v : CodeUnit) : Nat := 0x10000 + (u.value - 0xD800) * 0x400 + (v.value - 0xDC00)

/-- A pair is a character beyond the surrogates. -/
theorem pairValue_range {u v : CodeUnit} (hu : u.High) (hv : v.Low) :
    0xDFFF < pairValue u v ∧ pairValue u v < 0x110000 := by
  have hhigh : 0xD800 ≤ u.value ∧ u.value ≤ 0xDBFF := hu
  have hlow : 0xDC00 ≤ v.value ∧ v.value ≤ 0xDFFF := hv
  unfold pairValue
  omega

/-- **Decoding**: bytes stand for themselves, and escapes for the UTF-8 form of their character. -/
inductive Decodes : List Piece → List UInt8 → Prop
  | nil : Decodes [] []
  | unescaped {b : UInt8} {hb : 0x20 ≤ b ∧ b ≠ 0x22 ∧ b ≠ 0x5C} {ps : List Piece} {s : List UInt8}
      (h : Decodes ps s) : Decodes (.unescaped b hb :: ps) (b :: s)
  | short {b : UInt8} {hb : b ∈ shortEscapes} {ps : List Piece} {s : List UInt8} (h : Decodes ps s) :
      Decodes (.short b hb :: ps) (shortValue b :: s)
  | unicode {u : CodeUnit} {c : Char} {ps : List Piece} {s : List UInt8} (hc : c.val.toNat = u.value)
      (h : Decodes ps s) : Decodes (.unicode u :: ps) (String.utf8EncodeChar c ++ s)
  | pair {u v : CodeUnit} {c : Char} {ps : List Piece} {s : List UInt8} (hu : u.High) (hv : v.Low)
      (hc : c.val.toNat = pairValue u v) (h : Decodes ps s) :
      Decodes (.unicode u :: .unicode v :: ps) (String.utf8EncodeChar c ++ s)

/-- What can be decoded has its surrogates in pairs. -/
theorem Decodes.paired {ps : List Piece} {s : List UInt8} (h : Decodes ps s) : Paired ps := by
  induction h with
  | nil => exact .nil
  | unescaped _ ih => exact .cons (fun hp => hp) ih
  | short _ ih => exact .cons (fun hp => hp) ih
  | @unicode u c _ _ hc _ ih =>
    refine .cons (fun hp => ?_) ih
    have hvalid := c.valid
    change c.val.toNat < 0xD800 ∨ (0xDFFF < c.val.toNat ∧ c.val.toNat < 0x110000) at hvalid
    rcases hp with hp | hp
    · have hlow := hp.1
      have hhigh := hp.2
      omega
    · have hlow := hp.1
      have hhigh := hp.2
      omega
  | pair hu hv _ _ ih => exact .pair hu hv ih

/-! ## Numbers -/

/-- `DIGIT` -/
def Digit (c : UInt8) : Prop := 0x30 ≤ c ∧ c ≤ 0x39

/-- An `e` with a sign and digits, both of which may be missing. -/
structure Exponent where
  letter : UInt8
  sign : List UInt8
  digits : List UInt8
  letter_eq : letter = 0x65 ∨ letter = 0x45
  sign_eq : sign = [] ∨ sign = [0x2B] ∨ sign = [0x2D]
  digits_digit : ∀ c ∈ digits, Digit c

def Exponent.bytes (e : Exponent) : List UInt8 := e.letter :: (e.sign ++ e.digits)

/-- The shape of a number. -/
structure Numeral where
  minus : Bool
  whole : List UInt8
  frac : Option (List UInt8)
  exp : Option Exponent
  whole_digit : ∀ c ∈ whole, Digit c
  frac_digit : ∀ c ∈ frac.getD [], Digit c

namespace Numeral

/-- The sign as it is written. -/
def signBytes (n : Numeral) : List UInt8 := if n.minus then [0x2D] else []

/-- The point and what follows it. -/
def fracBytes (n : Numeral) : List UInt8 :=
  match n.frac with
  | none => []
  | some digits => 0x2E :: digits

def expBytes (n : Numeral) : List UInt8 :=
  match n.exp with
  | none => []
  | some e => e.bytes

def bytes (n : Numeral) : List UInt8 := n.signBytes ++ n.whole ++ n.fracBytes ++ n.expBytes

/-- **A number of the grammar**: `[ minus ] int [ frac ] [ exp ]`. -/
structure Proper (n : Numeral) : Prop where
  int : n.whole = [0x30] ∨ ∃ d ds, n.whole = d :: ds ∧ d ≠ 0x30
  frac : n.frac ≠ some []
  exp : ∀ e, n.exp = some e → e.digits ≠ []

end Numeral

/-! ## Texts -/

/-- `ws` -/
def Ws (t : List UInt8) : Prop := ∀ c ∈ t, c = 0x20 ∨ c = 0x09 ∨ c = 0x0A ∨ c = 0x0D

/-- Texts with a comma between one and the next. -/
def commaJoined : List (List UInt8) → List UInt8
  | [] => []
  | [t] => t
  | t :: u :: ts => t ++ 0x2C :: commaJoined (u :: ts)

theorem Ws.append {v w : List UInt8} (hv : Ws v) (hw : Ws w) : Ws (v ++ w) := by
  intro c hc
  rcases List.mem_append.mp hc with hc | hc
  · exact hv c hc
  · exact hw c hc

theorem commaJoined_cons (t : List UInt8) {ts : List (List UInt8)} (h : ts ≠ []) :
    commaJoined (t :: ts) = t ++ 0x2C :: commaJoined ts := by
  cases ts with
  | nil => exact absurd rfl h
  | cons u ts => rfl

/-- What stands in front of the first text stands in front of all. -/
theorem commaJoined_append (w t : List UInt8) (ts : List (List UInt8)) :
    commaJoined ((w ++ t) :: ts) = w ++ commaJoined (t :: ts) := by
  cases ts with
  | nil => rfl
  | cons u ts => rw [commaJoined, commaJoined, List.append_assoc]

/-- An item of an array, with the whitespace around it. -/
structure Item where
  before : List UInt8
  text : List UInt8
  after : List UInt8
  ws_before : Ws before
  ws_after : Ws after

def Item.bytes (i : Item) : List UInt8 := i.before ++ i.text ++ i.after

/-- More whitespace in front of an item. -/
def Item.pad (i : Item) {w : List UInt8} (hw : Ws w) : Item :=
  { i with before := w ++ i.before, ws_before := hw.append i.ws_before }

theorem Item.bytes_pad (i : Item) {w : List UInt8} (hw : Ws w) : (i.pad hw).bytes = w ++ i.bytes := by
  simp only [Item.bytes, Item.pad, List.append_assoc]

/-- A member of an object: its key, the colon with the whitespace around it, and the value. -/
structure Member where
  before : List UInt8
  key : List Piece
  colon : List UInt8
  value : Item
  ws_before : Ws before
  ws_colon : Ws colon

def Member.bytes (m : Member) : List UInt8 := m.before ++ stringText m.key ++ m.colon ++ 0x3A :: m.value.bytes

/-- More whitespace in front of a member. -/
def Member.pad (m : Member) {w : List UInt8} (hw : Ws w) : Member :=
  { m with before := w ++ m.before, ws_before := hw.append m.ws_before }

theorem Member.bytes_pad (m : Member) {w : List UInt8} (hw : Ws w) : (m.pad hw).bytes = w ++ m.bytes := by
  simp only [Member.bytes, Member.pad, List.append_assoc]

/-- What a reader takes besides the productions: which strings, which numbers, how many items. -/
structure Rules where
  string : List Piece → Prop
  numeral : Numeral → Prop
  items : Nat → Prop

/-- `false`, `null` and `true` -/
def words : List (List UInt8) :=
  [[0x66, 0x61, 0x6C, 0x73, 0x65], [0x6E, 0x75, 0x6C, 0x6C], [0x74, 0x72, 0x75, 0x65]]

/-- **`value`**, in which no more than `levels` containers stand around any value. -/
inductive Derives (r : Rules) : Nat → List UInt8 → Prop
  | word {levels : Nat} {t : List UInt8} (ht : t ∈ words) : Derives r levels t
  | number {levels : Nat} (n : Numeral) (hn : r.numeral n) : Derives r levels n.bytes
  | string {levels : Nat} (s : List Piece) (hs : r.string s) : Derives r levels (stringText s)
  | emptyArray {levels : Nat} {w : List UInt8} (hw : Ws w) : Derives r levels (0x5B :: (w ++ [0x5D]))
  | array {levels : Nat} (items : List Item) (hne : items ≠ []) (hcount : r.items items.length)
      (hitems : ∀ i ∈ items, Derives r levels i.text) :
      Derives r (levels + 1) (0x5B :: (commaJoined (items.map Item.bytes) ++ [0x5D]))
  | emptyObject {levels : Nat} {w : List UInt8} (hw : Ws w) : Derives r levels (0x7B :: (w ++ [0x7D]))
  | object {levels : Nat} (members : List Member) (hne : members ≠ []) (hkeys : ∀ m ∈ members, r.string m.key)
      (hvalues : ∀ m ∈ members, Derives r levels m.value.text) :
      Derives r (levels + 1) (0x7B :: (commaJoined (members.map Member.bytes) ++ [0x7D]))

/-- **`JSON-text`**: a value with whitespace around it. -/
def Document (r : Rules) (levels : Nat) (input : List UInt8) : Prop :=
  ∃ i : Item, Derives r levels i.text ∧ input = i.bytes

/-- Everything one set of rules takes, the other takes. -/
structure Rules.Le (r s : Rules) : Prop where
  string : ∀ ps, r.string ps → s.string ps
  numeral : ∀ n, r.numeral n → s.numeral n
  items : ∀ n, r.items n → s.items n

theorem Derives.mono {r s : Rules} (hle : r.Le s) {levels : Nat} {t : List UInt8} (h : Derives r levels t) :
    Derives s levels t := by
  induction h with
  | word ht => exact .word ht
  | number n hn => exact .number n (hle.numeral n hn)
  | string ps hs => exact .string ps (hle.string ps hs)
  | emptyArray hw => exact .emptyArray hw
  | array items hne hcount _ ih => exact .array items hne (hle.items _ hcount) ih
  | emptyObject hw => exact .emptyObject hw
  | object members hne hkeys _ ih => exact .object members hne (fun m hm => hle.string _ (hkeys m hm)) ih

/-- **More liberal rules take more documents.** -/
theorem Document.mono {r s : Rules} (hle : r.Le s) {levels : Nat} {input : List UInt8}
    (h : Document r levels input) : Document s levels input := by
  obtain ⟨i, hi, rfl⟩ := h
  exact ⟨i, hi.mono hle, rfl⟩

/-! ## Lines -/

/-- A property of the first byte of every line: of the first byte of the text and of every byte behind a
    line feed. -/
def LineStarts (p : UInt8 → Prop) (t : List UInt8) : Prop :=
  ∀ before c after, t = before ++ c :: after → before = [] ∨ before.getLast? = some 0x0A → p c

/-- The bytes outside of strings: whitespace, delimiters, the bytes of the words and of numbers. -/
def tokenBytes : List UInt8 :=
  [0x20, 0x09, 0x0A, 0x0D, 0x22, 0x2C, 0x3A, 0x5B, 0x5D, 0x7B, 0x7D,
    0x61, 0x65, 0x66, 0x6C, 0x6E, 0x72, 0x73, 0x74, 0x75, 0x2B, 0x2D, 0x2E, 0x45,
    0x30, 0x31, 0x32, 0x33, 0x34, 0x35, 0x36, 0x37, 0x38, 0x39]

section LineStarts

variable {p : UInt8 → Prop}

theorem LineStarts.of_forall {t : List UInt8} (h : ∀ c ∈ t, p c) : LineStarts p t := by
  intro before c after ht _
  exact h c (ht ▸ List.mem_append_right before List.mem_cons_self)

/-- A line of its own starts with its first byte only. -/
theorem LineStarts.of_line {c : UInt8} {t : List UInt8} (hc : p c) (ht : 0x0A ∉ c :: t) :
    LineStarts p (c :: t) := by
  intro before d after hsplit hstart
  rcases hstart with rfl | hstart
  · exact (List.cons.inj hsplit).1 ▸ hc
  · have hmem := List.mem_of_getLast? hstart
    exact absurd (hsplit ▸ List.mem_append_left (d :: after) hmem) ht

theorem LineStarts.append {s t : List UInt8} (hs : LineStarts p s) (ht : LineStarts p t) :
    LineStarts p (s ++ t) := by
  intro before c after hsplit hstart
  rcases List.append_eq_append_iff.mp hsplit with ⟨middle, hbefore, hmiddle⟩ | ⟨middle, hs', hmiddle⟩
  · -- the byte stands in the second text, where a line may have begun in the first
    refine ht middle c after hmiddle ?_
    rcases List.eq_nil_or_concat middle with rfl | ⟨front, e, rfl⟩
    · exact Or.inl rfl
    · rcases hstart with rfl | hstart
      · exact absurd hbefore (by simp)
      · rw [hbefore] at hstart
        simpa using hstart
  · cases middle with
    | nil => exact ht [] c after (by simpa using hmiddle.symm) (Or.inl rfl)
    | cons d middle =>
      obtain ⟨rfl, -⟩ := List.cons.inj hmiddle
      exact hs before c middle hs' hstart

theorem LineStarts.commaJoined (hcomma : p 0x2C) {ts : List (List UInt8)} (h : ∀ t ∈ ts, LineStarts p t) :
    LineStarts p (commaJoined ts) := by
  induction ts with
  | nil => exact .of_forall fun c hc => absurd hc List.not_mem_nil
  | cons t ts ih =>
    have ht := h t List.mem_cons_self
    by_cases hts : ts = []
    · rw [hts]
      exact ht
    · rw [commaJoined_cons t hts]
      refine ht.append (.append (s := [0x2C]) ?_ (ih fun u hu => h u (List.mem_cons_of_mem t hu)))
      exact .of_forall fun c hc => List.mem_singleton.mp hc ▸ hcomma

end LineStarts

/-- A string is on one line. -/
theorem Piece.not_newline (s : Piece) : 0x0A ∉ s.bytes := by
  intro h
  cases s with
  | unescaped b hb =>
    rw [Piece.bytes, List.mem_singleton] at h
    exact absurd (h ▸ hb.1) (by decide)
  | short b hb =>
    rw [Piece.bytes, List.mem_cons, List.mem_singleton] at h
    rcases h with h | h
    · exact absurd h (by decide)
    · exact absurd (h ▸ hb) (by decide)
  | unicode u =>
    rw [Piece.bytes, List.mem_cons, List.mem_cons] at h
    rcases h with h | h | h
    · exact absurd h (by decide)
    · exact absurd h (by decide)
    · exact absurd (u.hex _ h) (by decide)

theorem stringText_lineStarts (s : List Piece) : LineStarts (· ∈ tokenBytes) (stringText s) := by
  refine .of_line (by decide) fun h => ?_
  rw [List.mem_cons, List.mem_append, List.mem_singleton, List.mem_flatMap] at h
  rcases h with h | ⟨piece, -, h⟩ | h
  · exact absurd h (by decide)
  · exact piece.not_newline h
  · exact absurd h (by decide)

theorem Ws.lineStarts {w : List UInt8} (hw : Ws w) : LineStarts (· ∈ tokenBytes) w := by
  refine .of_forall fun c hc => ?_
  rcases hw c hc with rfl | rfl | rfl | rfl <;> decide

theorem Item.lineStarts {i : Item} (h : LineStarts (· ∈ tokenBytes) i.text) :
    LineStarts (· ∈ tokenBytes) i.bytes := (i.ws_before.lineStarts.append h).append i.ws_after.lineStarts

/-- One byte of its own. -/
theorem tokenByte_lineStarts {c : UInt8} (hc : c ∈ tokenBytes) : LineStarts (· ∈ tokenBytes) [c] :=
  .of_forall fun _ hd => List.mem_singleton.mp hd ▸ hc

theorem Member.lineStarts {m : Member} (h : LineStarts (· ∈ tokenBytes) m.value.text) :
    LineStarts (· ∈ tokenBytes) m.bytes := by
  have hkey := (m.ws_before.lineStarts.append (stringText_lineStarts m.key)).append m.ws_colon.lineStarts
  exact hkey.append ((tokenByte_lineStarts (c := 0x3A) (by decide)).append (Item.lineStarts h))

theorem Digit.tokenByte {c : UInt8} (h : Digit c) : c ∈ tokenBytes := by
  have hlow : 0x30 ≤ c.toNat := UInt8.le_iff_toNat_le.mp h.1
  have hhigh : c.toNat ≤ 0x39 := UInt8.le_iff_toNat_le.mp h.2
  have hten : ∀ n : Nat, 0x30 ≤ n → n ≤ 0x39 → UInt8.ofNat n ∈ tokenBytes := by
    intro n hlow hhigh
    obtain rfl | rfl | rfl | rfl | rfl | rfl | rfl | rfl | rfl | rfl : n = 0x30 ∨ n = 0x31 ∨ n = 0x32 ∨
      n = 0x33 ∨ n = 0x34 ∨ n = 0x35 ∨ n = 0x36 ∨ n = 0x37 ∨ n = 0x38 ∨ n = 0x39 := by omega
    all_goals decide
  exact UInt8.ofNat_toNat (x := c) ▸ hten c.toNat hlow hhigh

theorem Numeral.tokenByte (n : Numeral) : ∀ c ∈ n.bytes, c ∈ tokenBytes := by
  have hsign : ∀ c ∈ n.signBytes, c ∈ tokenBytes := by
    intro c hc
    unfold Numeral.signBytes at hc
    split at hc
    · exact List.mem_singleton.mp hc ▸ by decide
    · exact absurd hc List.not_mem_nil
  have hfrac : ∀ c ∈ n.fracBytes, c ∈ tokenBytes := by
    intro c hc
    unfold Numeral.fracBytes at hc
    split at hc
    · exact absurd hc List.not_mem_nil
    · next digits hdigits =>
      rcases List.mem_cons.mp hc with rfl | hc
      · decide
      · exact (n.frac_digit c (by rw [hdigits]; exact hc)).tokenByte
  have hexp : ∀ c ∈ n.expBytes, c ∈ tokenBytes := by
    intro c hc
    unfold Numeral.expBytes at hc
    split at hc
    · exact absurd hc List.not_mem_nil
    · next e _ =>
      rcases List.mem_cons.mp hc with rfl | hc
      · rcases e.letter_eq with h | h <;> rw [h] <;> decide
      · rcases List.mem_append.mp hc with hc | hc
        · rcases e.sign_eq with h | h | h <;> rw [h] at hc
          · exact absurd hc List.not_mem_nil
          · exact List.mem_singleton.mp hc ▸ by decide
          · exact List.mem_singleton.mp hc ▸ by decide
        · exact (e.digits_digit c hc).tokenByte
  intro c hc
  rw [Numeral.bytes, List.mem_append, List.mem_append, List.mem_append] at hc
  rcases hc with ((hc | hc) | hc) | hc
  · exact hsign c hc
  · exact (n.whole_digit c hc).tokenByte
  · exact hfrac c hc
  · exact hexp c hc

/-- What stands between two delimiters. -/
theorem LineStarts.between {a c : UInt8} {t : List UInt8} (ha : a ∈ tokenBytes) (hc : c ∈ tokenBytes)
    (ht : LineStarts (· ∈ tokenBytes) t) : LineStarts (· ∈ tokenBytes) (a :: (t ++ [c])) :=
  (tokenByte_lineStarts ha).append (ht.append (tokenByte_lineStarts hc))

/-- **No line of a value starts within a string**, by induction on the derivation. -/
theorem Derives.lineStarts {r : Rules} {levels : Nat} {t : List UInt8} (h : Derives r levels t) :
    LineStarts (· ∈ tokenBytes) t := by
  induction h with
  | @word _ t ht =>
    have hwords : ∀ t ∈ words, ∀ c ∈ t, c ∈ tokenBytes := by
      intro t ht
      simp only [words, List.mem_cons, List.not_mem_nil, or_false] at ht
      rcases ht with rfl | rfl | rfl <;> simp [tokenBytes]
    exact .of_forall (hwords t ht)
  | number n _ => exact .of_forall n.tokenByte
  | string s _ => exact stringText_lineStarts s
  | emptyArray hw => exact .between (by decide) (by decide) hw.lineStarts
  | array items _ _ _ ih =>
    refine .between (by decide) (by decide) (.commaJoined (by decide) fun t ht => ?_)
    obtain ⟨i, hi, rfl⟩ := List.mem_map.mp ht
    exact Item.lineStarts (ih i hi)
  | emptyObject hw => exact .between (by decide) (by decide) hw.lineStarts
  | object members _ _ _ ih =>
    refine .between (by decide) (by decide) (.commaJoined (by decide) fun t ht => ?_)
    obtain ⟨m, hm, rfl⟩ := List.mem_map.mp ht
    exact Member.lineStarts (ih m hm)

theorem Document.lineStarts {r : Rules} {levels : Nat} {input : List UInt8} (h : Document r levels input) :
    LineStarts (· ∈ tokenBytes) input := by
  obtain ⟨i, hi, rfl⟩ := h
  exact Item.lineStarts hi.lineStarts

end Lib.JsonGrammar
