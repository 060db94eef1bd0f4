/-
  UTF-8, exactly (`sc_str_is_valid_utf8`, `src/core/string.c`).

  1. **Program** — `utf8Walk` is the loop with its index.  Every byte is read from its place in the text,
     and there is no result at all where a read would leave the text.  It always has one, and it is that of
     the walk over the bytes that the rest of the development uses (`utf8Walk_eq`).

  2. **Specification** — `encoding` puts the bits of a code point behind the marks of one to four bytes; a
     text is UTF-8 if it is made of the encodings of scalar values.

  3. **Result** — `utf8Walk_exact`: the program takes exactly these texts.  What it takes is made of the forms
     of characters (`utf8_wellFormed`), and each form is taken (`utf8_encodeChar`).
-/
import SmolClaw.Json.Characters

namespace SmolClaw

/-! ## Program -/

/-- What the first of several bytes says: how many they are, and the first bits of the code point. -/
def utf8Lead (a : UInt8) : Option (Nat × UInt32) :=
  if a &&& 0xE0 = 0xC0 then some (2, (a &&& 0x1F).toUInt32)
  else if a &&& 0xF0 = 0xE0 then some (3, (a &&& 0x0F).toUInt32)
  else if a &&& 0xF8 = 0xF0 then some (4, (a &&& 0x07).toUInt32)
  else none

/-- The inner loop, over so many bytes from an index on: the code point, unless a byte continues nothing. -/
def utf8Tail (input : Bytes) : Nat → Nat → UInt32 → Option (Option UInt32)
  | _, 0, codepoint => some (some codepoint)
  | index, count + 1, codepoint =>
      match input[index]? with
      | none => none
      | some b =>
          if isContinuation b then utf8Tail input (index + 1) count (utf8Shift codepoint b) else some none

/-- The loop of `sc_str_is_valid_utf8` from an index on, for so many turns at most. -/
def utf8Walk (input : Bytes) : Nat → Nat → Option Bool
  | 0, _ => none
  | turns + 1, i =>
      if i < input.length then
        match input[i]? with
        | none => none
        | some a =>
            if a ≤ 0x7F then utf8Walk input turns (i + 1)
            else
              match utf8Lead a with
              | none => some false
              | some (needed, codepoint) =>
                  if input.length - i < needed then some false
                  else
                    match utf8Tail input (i + 1) (needed - 1) codepoint with
                    | none => none
                    | some none => some false
                    | some (some codepoint) =>
                        if codepointOk needed codepoint then utf8Walk input turns (i + needed) else some false
      else some true

/-! ## Specification -/

/-- A code point that is no surrogate. -/
def ScalarValue (n : Nat) : Prop := n < 0x110000 ∧ ¬(0xD800 ≤ n ∧ n ≤ 0xDFFF)

/-- The UTF-8 encoding of a code point: its bits behind the marks `0`, `110`, `1110` or `11110` of the first
    byte, and `10` of those that continue it. -/
def encoding (n : Nat) : Bytes :=
  if n < 0x80 then [UInt8.ofNat n]
  else if n < 0x800 then [UInt8.ofNat (0xC0 + n / 64), UInt8.ofNat (0x80 + n % 64)]
  else if n < 0x10000 then
    [UInt8.ofNat (0xE0 + n / 4096), UInt8.ofNat (0x80 + n / 64 % 64), UInt8.ofNat (0x80 + n % 64)]
  else
    [UInt8.ofNat (0xF0 + n / 262144), UInt8.ofNat (0x80 + n / 4096 % 64), UInt8.ofNat (0x80 + n / 64 % 64),
      UInt8.ofNat (0x80 + n % 64)]

/-- **UTF-8**: the encodings of scalar values, one after another. -/
def IsUtf8 (s : Bytes) : Prop := ∃ ns : List Nat, (∀ n ∈ ns, ScalarValue n) ∧ s = ns.flatMap encoding

/-! ## The walk -/

variable {input : Bytes} {i : Nat}

/-- A byte by its distance from the index. -/
theorem getElem?_of_drop {rest : Bytes} (h : input.drop i = rest) (k : Nat) : input[i + k]? = rest[k]? := by
  rw [← h, List.getElem?_drop]

/-- The inner loop over bytes that are all there: they are shifted in one by one, if all continue. -/
theorem utf8Tail_eq {bs rest : Bytes} {index : Nat} (h : input.drop index = bs ++ rest) (codepoint : UInt32) :
    utf8Tail input index bs.length codepoint =
      some (if bs.all isContinuation then some (bs.foldl utf8Shift codepoint) else none) := by
  induction bs generalizing index codepoint with
  | nil => rfl
  | cons b bs ih =>
    have hget : input[index]? = some b := getElem?_of_drop h 0
    have hnext : input.drop (index + 1) = bs ++ rest := by
      rw [← List.drop_drop, h]
      rfl
    rw [List.length_cons, utf8Tail, hget, List.all_cons, List.foldl_cons]
    dsimp only
    cases isContinuation b with
    | false => rfl
    | true => exact ih hnext (utf8Shift codepoint b)

/-- A turn of the loop at the first of several bytes, `bs` those that follow it. -/
theorem utf8Walk_lead (bs : Bytes) {turns : Nat} {a : UInt8} {rest : Bytes} {codepoint : UInt32}
    (h : input.drop i = a :: (bs ++ rest)) (hone : ¬a ≤ 0x7F)
    (hlead : utf8Lead a = some (bs.length + 1, codepoint))
    (hnext : utf8Walk input turns (i + (bs.length + 1)) = some (strIsValidUtf8 rest)) :
    utf8Walk input (turns + 1) i = some (bs.all isContinuation &&
      (codepointOk (bs.length + 1) (bs.foldl utf8Shift codepoint) && strIsValidUtf8 rest)) := by
  have hlen : input.length - i = bs.length + rest.length + 1 := by
    rw [← List.length_drop, h, List.length_cons, List.length_append]
  have htail : input.drop (i + 1) = bs ++ rest := by
    rw [← List.drop_drop, h]
    rfl
  rw [utf8Walk, if_pos (by omega), show input[i]? = some a from getElem?_of_drop h 0]
  dsimp only
  rw [if_neg hone, hlead]
  dsimp only
  rw [if_neg (by omega), Nat.add_sub_cancel, utf8Tail_eq htail]
  cases bs.all isContinuation with
  | false => rfl
  | true =>
    show (if codepointOk _ _ = true then _ else _) = some (codepointOk _ _ && _)
    cases codepointOk (bs.length + 1) (bs.foldl utf8Shift codepoint) with
    | false => rfl
    | true => exact hnext

/-- The text ends inside a character. -/
theorem utf8Walk_short {turns needed : Nat} {a : UInt8} {t : Bytes} {codepoint : UInt32}
    (h : input.drop i = a :: t) (hone : ¬a ≤ 0x7F) (hlead : utf8Lead a = some (needed, codepoint))
    (hshort : t.length + 1 < needed) : utf8Walk input (turns + 1) i = some false := by
  have hlen : input.length - i = t.length + 1 := by rw [← List.length_drop, h, List.length_cons]
  rw [utf8Walk, if_pos (by omega), show input[i]? = some a from getElem?_of_drop h 0]
  dsimp only
  rw [if_neg hone, hlead]
  exact if_pos (by omega)

/-- **The index stays in the text, and the result is that of the walk over the bytes.** -/
theorem utf8Walk_eq (input : Bytes) : ∀ turns i, input.length - i < turns →
    utf8Walk input turns i = some (strIsValidUtf8 (input.drop i)) := by
  intro turns
  induction turns with
  | zero => intro i hturns; omega
  | succ turns ih =>
    intro i hturns
    have hlen : (input.drop i).length = input.length - i := List.length_drop
    cases hrest : input.drop i with
    | nil =>
      rw [hrest, List.length_nil] at hlen
      rw [utf8Walk, if_neg (by omega)]
      rfl
    | cons a t =>
      rw [hrest, List.length_cons] at hlen
      have ha : input[i]? = some a := getElem?_of_drop hrest 0
      have hi : i < input.length := by omega
      have hnext : ∀ k, 0 < k → utf8Walk input turns (i + k) = some (strIsValidUtf8 ((a :: t).drop k)) := by
        intro k hk
        rw [ih (i + k) (by omega), ← hrest, List.drop_drop]
      rw [strIsValidUtf8.eq_def]
      dsimp only
      by_cases hone : a ≤ 0x7F
      · rw [utf8Walk, if_pos hi, ha]
        dsimp only
        rw [if_pos hone, if_pos hone, hnext 1 (by omega)]
        rfl
      rw [if_neg hone]
      by_cases htwo : a &&& 0xE0 = 0xC0
      · have hlead : utf8Lead a = some (2, (a &&& 0x1F).toUInt32) := if_pos htwo
        rw [if_pos htwo]
        rcases t with _ | ⟨b, t⟩
        · exact utf8Walk_short hrest hone hlead (by decide)
        · rw [utf8Walk_lead [b] hrest hone hlead (hnext 2 (by omega))]
          simp [Bool.and_assoc]
      rw [if_neg htwo]
      by_cases hthree : a &&& 0xF0 = 0xE0
      · have hlead : utf8Lead a = some (3, (a &&& 0x0F).toUInt32) := (if_neg htwo).trans (if_pos hthree)
        rw [if_pos hthree]
        rcases t with _ | ⟨b, _ | ⟨c, t⟩⟩
        · exact utf8Walk_short hrest hone hlead (by decide)
        · exact utf8Walk_short hrest hone hlead (Nat.lt_succ_self 2)
        · rw [utf8Walk_lead [b, c] hrest hone hlead (hnext 3 (by omega))]
          simp [Bool.and_assoc]
      rw [if_neg hthree]
      by_cases hfour : a &&& 0xF8 = 0xF0
      · have hlead : utf8Lead a = some (4, (a &&& 0x07).toUInt32) :=
          (if_neg htwo).trans ((if_neg hthree).trans (if_pos hfour))
        rw [if_pos hfour]
        rcases t with _ | ⟨b, _ | ⟨c, _ | ⟨d, t⟩⟩⟩
        · exact utf8Walk_short hrest hone hlead (by decide)
        · exact utf8Walk_short hrest hone hlead (show 2 < 4 by decide)
        · exact utf8Walk_short hrest hone hlead (Nat.lt_succ_self 3)
        · rw [utf8Walk_lead [b, c, d] hrest hone hlead (hnext 4 (by omega))]
          simp [Bool.and_assoc]
      · have hlead : utf8Lead a = none := (if_neg htwo).trans ((if_neg hthree).trans (if_neg hfour))
        rw [if_neg hfour, utf8Walk, if_pos hi, ha]
        dsimp only
        rw [if_neg hone, hlead]

/-! ## Encodings -/

/-- Lean's own encoder writes the same bytes. -/
theorem encoding_char (c : Char) : encoding c.val.toNat = String.utf8EncodeChar c := by
  have hmax : c.val.toNat < 0x110000 := by
    have hvalid := char_range c
    omega
  unfold encoding String.utf8EncodeChar
  dsimp only
  by_cases hone : c.val.toNat ≤ 0x7F
  · rw [if_pos hone, if_pos (by omega)]
  rw [if_neg hone, if_neg (show ¬c.val.toNat < 0x80 by omega)]
  by_cases htwo : c.val.toNat ≤ 0x7FF
  · rw [if_pos htwo, if_pos (by omega), Nat.add_comm 0xC0, Nat.add_comm 0x80,
      Nat.mod_eq_of_lt (a := c.val.toNat / 64) (b := 32) (by omega)]
  rw [if_neg htwo, if_neg (show ¬c.val.toNat < 0x800 by omega)]
  by_cases hthree : c.val.toNat ≤ 0xFFFF
  · rw [if_pos hthree, if_pos (by omega), Nat.add_comm 0xE0, Nat.add_comm 0x80, Nat.add_comm 0x80,
      Nat.mod_eq_of_lt (a := c.val.toNat / 4096) (b := 16) (by omega)]
  · rw [if_neg hthree, if_neg (show ¬c.val.toNat < 0x10000 by omega), Nat.add_comm 0xF0, Nat.add_comm 0x80,
      Nat.add_comm 0x80, Nat.add_comm 0x80, Nat.mod_eq_of_lt (a := c.val.toNat / 262144) (b := 8) (by omega)]

/-- The scalar values are the characters. -/
theorem scalarValue_iff (n : Nat) : ScalarValue n ↔ ∃ c : Char, c.val.toNat = n := by
  constructor
  · rintro ⟨hmax, hsurrogate⟩
    have hvalid : n.isValidChar := by
      change n < 0xD800 ∨ (0xDFFF < n ∧ n < 0x110000)
      omega
    exact ⟨Char.ofNatAux n hvalid, rfl⟩
  · rintro ⟨c, rfl⟩
    have hvalid := char_range c
    unfold ScalarValue
    omega

theorem isUtf8_iff (s : Bytes) : IsUtf8 s ↔ WellFormed s := by
  constructor
  · rintro ⟨ns, hscalar, rfl⟩
    induction ns with
    | nil => exact ⟨[], rfl⟩
    | cons n ns ih =>
      rw [List.forall_mem_cons] at hscalar
      obtain ⟨c, rfl⟩ := (scalarValue_iff n).mp hscalar.1
      rw [List.flatMap_cons, encoding_char]
      exact wellFormed_cons (ih hscalar.2)
  · rintro ⟨cs, rfl⟩
    refine ⟨cs.map fun c => c.val.toNat, fun n hn => ?_, ?_⟩
    · obtain ⟨c, -, rfl⟩ := List.mem_map.mp hn
      exact (scalarValue_iff _).mpr ⟨c, rfl⟩
    · rw [List.flatMap_map]
      exact List.flatMap_congr fun c _ => (encoding_char c).symm

/-! ## The check -/

/-- What is made of characters is taken, and nothing else. -/
theorem utf8_iff (s : Bytes) : strIsValidUtf8 s = true ↔ WellFormed s := by
  refine ⟨utf8_wellFormed, ?_⟩
  rintro ⟨cs, rfl⟩
  induction cs with
  | nil => rfl
  | cons c cs ih =>
    rw [List.flatMap_cons]
    exact utf8_append_of (utf8_encodeChar c) ih

/-- **`sc_str_is_valid_utf8` takes exactly UTF-8**, and reads nothing outside the text. -/
theorem utf8Walk_exact (input : Bytes) :
    utf8Walk input (input.length + 1) 0 ≠ none ∧
    (utf8Walk input (input.length + 1) 0 = some true ↔ IsUtf8 input) := by
  have hwalk := utf8Walk_eq input (input.length + 1) 0 (by omega)
  rw [List.drop_zero] at hwalk
  rw [hwalk, isUtf8_iff, ← utf8_iff]
  exact ⟨Option.some_ne_none _, Option.some_inj⟩

end SmolClaw
