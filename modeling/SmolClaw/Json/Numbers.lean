/-
  Numbers: what `parse_number` (`src/json/json.c`) takes, and what `mjson_write_number_double`
  (`vendor/microjson/mjson_write.c`) writes for it.

  1. **Scanning** — `parse_number` takes a number whole, by its shape and not by the grammar's rules on
     zeros and digits (`parseNumber_sound`, `parseNumber_complete`).

  2. **Digits** — of the 17 digits of a number the zeros at the end are not printed; the others and the
     exponent give the number back (`decimalValue_printed`).

  3. **Numerals** — what is printed is a number of the grammar (`layout17_numeral`) with the value of
     the 17 digits, and `strtod` reads a numeral for its value (`strtod_numeral`).

  4. **Round trip** — `formatGeneral17_numeral`: `strtod` reads a printed finite value as that value,
     the sign of a zero included.  17 digits are enough because `2 ^ 53 < 10 ^ 16`.

  5. **Values** — a numeral is a number value to the reader (`parseValue_numeral`).
-/
import SmolClaw.Core.Nearest
import SmolClaw.Json.Weight
import SmolClaw.Lib.JsonGrammar

namespace SmolClaw

open Lib.Precision
open Lib.JsonGrammar

/-! ## Scanning -/

theorem isDigit_iff {c : UInt8} : isDigit c = true ↔ Digit c := by
  rw [isDigit, Bool.and_eq_true, decide_eq_true_iff, decide_eq_true_iff]
  rfl

/-- Nothing in front of a text satisfies `p`. -/
def Stops (p : UInt8 → Bool) (t : Bytes) : Prop := ∀ c ∈ t.head?, p c = false

theorem stops_cons {p : UInt8 → Bool} {c : UInt8} {t : Bytes} (h : p c = false) : Stops p (c :: t) := by
  intro d hd
  rwa [← Option.some.inj hd]

/-- What may stand in front is what stands in front of one part or, where it is empty, of the next. -/
theorem Stops.append {p : UInt8 → Bool} {s t : Bytes} (hs : Stops p s) (ht : Stops p t) : Stops p (s ++ t) := by
  cases s with
  | nil => exact ht
  | cons c s => exact hs

theorem takeDigits_sound (left : Bytes) : ∀ c ∈ (takeDigits left).1, Digit c :=
  fun _ hc => isDigit_iff.mp (List.mem_takeWhile_imp hc)

theorem takeDigits_complete {digits t : Bytes} (hdigits : ∀ c ∈ digits, Digit c) (ht : Stops isDigit t) :
    takeDigits (digits ++ t) = (digits, t) := by
  have hpos : ∀ c ∈ digits, isDigit c = true := fun c hc => isDigit_iff.mpr (hdigits c hc)
  have htake : t.takeWhile isDigit = [] ∧ t.dropWhile isDigit = t := by
    cases t with
    | nil => exact ⟨rfl, rfl⟩
    | cons c t =>
      have hc : ¬ isDigit c = true := by rw [ht c rfl]; exact Bool.false_ne_true
      exact ⟨List.takeWhile_cons_of_neg hc, List.dropWhile_cons_of_neg hc⟩
  rw [takeDigits, List.takeWhile_append_of_pos hpos, List.dropWhile_append_of_pos hpos, htake.1, htake.2,
    List.append_nil]

theorem takeOne_stops {p : UInt8 → Bool} {t : Bytes} (ht : Stops p t) : takeOne p t = ([], t) := by
  cases t with
  | nil => rfl
  | cons c t => rw [takeOne, ht c rfl]; rfl

theorem takeOne_cons {p : UInt8 → Bool} {c : UInt8} (hc : p c = true) (t : Bytes) : takeOne p (c :: t) = ([c], t) := by
  rw [takeOne, if_pos hc]

theorem takeGroup_stops {p : UInt8 → Bool} {more : Bytes → Bytes × Bytes} {t : Bytes} (ht : Stops p t) :
    takeGroup p more t = ([], t) := by
  cases t with
  | nil => rfl
  | cons c t => rw [takeGroup, ht c rfl]; rfl

/-- What one optional byte may be. -/
theorem takeOne_sound (p : UInt8 → Bool) (t : Bytes) :
    (takeOne p t).1 = [] ∨ ∃ c, p c = true ∧ (takeOne p t).1 = [c] := by
  cases t with
  | nil => exact Or.inl rfl
  | cons c t =>
    rw [takeOne]
    split
    next hc => exact Or.inr ⟨c, hc, rfl⟩
    next => exact Or.inl rfl

/-- What an optional group may be. -/
theorem takeGroup_sound (p : UInt8 → Bool) (more : Bytes → Bytes × Bytes) (t : Bytes) :
    (takeGroup p more t).1 = [] ∨ ∃ c u, p c = true ∧ (takeGroup p more t).1 = c :: (more u).1 := by
  cases t with
  | nil => exact Or.inl rfl
  | cons c t =>
    rw [takeGroup]
    split
    next hc => exact Or.inr ⟨c, t, hc, rfl⟩
    next => exact Or.inl rfl

/-- The exponent of a number, or none. -/
theorem takeExponent_sound (t : Bytes) :
    ∃ e : Option Exponent, (takeGroup (fun c => c == chr 'e' || c == chr 'E') takeSignedDigits t).1 =
      match e with
      | none => []
      | some e => e.bytes := by
  rcases takeGroup_sound (fun c => c == chr 'e' || c == chr 'E') takeSignedDigits t with h | ⟨c, u, hc, h⟩
  · exact ⟨none, h⟩
  · have hletter : c = 0x65 ∨ c = 0x45 := by
      rcases Bool.or_eq_true_iff.mp hc with hc | hc
      · exact Or.inl (eq_of_beq hc)
      · exact Or.inr (eq_of_beq hc)
    have hsign : (takeOne (fun c => c == chr '+' || c == chr '-') u).1 = [] ∨
        (takeOne (fun c => c == chr '+' || c == chr '-') u).1 = [0x2B] ∨
        (takeOne (fun c => c == chr '+' || c == chr '-') u).1 = [0x2D] := by
      rcases takeOne_sound (fun c => c == chr '+' || c == chr '-') u with hu | ⟨d, hd, hu⟩
      · exact Or.inl hu
      · rcases Bool.or_eq_true_iff.mp hd with hd | hd
        · exact Or.inr (Or.inl (by rw [hu, eq_of_beq hd]; rfl))
        · exact Or.inr (Or.inr (by rw [hu, eq_of_beq hd]; rfl))
    exact ⟨some ⟨c, _, _, hletter, hsign, takeDigits_sound _⟩, h⟩

/-- **What `parse_number` looks at has the shape of a number.** -/
theorem numberText_sound (left : Bytes) : ∃ n : Numeral, (numberText left).1 = n.bytes := by
  have hsign : ∃ minus : Bool, (takeOne (· == chr '-') left).1 = if minus then [0x2D] else [] := by
    rcases takeOne_sound (· == chr '-') left with h | ⟨c, hc, h⟩
    · exact ⟨false, h⟩
    · exact ⟨true, by rw [h, eq_of_beq hc]; rfl⟩
  obtain ⟨minus, hminus⟩ := hsign
  have hfrac : ∃ frac : Option Bytes, (∀ c ∈ frac.getD [], Digit c) ∧
      (takeGroup (· == chr '.') takeDigits (takeDigits (takeOne (· == chr '-') left).2).2).1 =
        frac.elim [] (0x2E :: ·) := by
    rcases takeGroup_sound (· == chr '.') takeDigits (takeDigits (takeOne (· == chr '-') left).2).2 with
      h | ⟨c, u, hc, h⟩
    · exact ⟨none, fun c hc => absurd hc List.not_mem_nil, h⟩
    · exact ⟨some (takeDigits u).1, takeDigits_sound u, by rw [h, eq_of_beq hc]; rfl⟩
  obtain ⟨frac, hdigits, hfrac⟩ := hfrac
  obtain ⟨exp, hexp⟩ := takeExponent_sound
    (takeGroup (· == chr '.') takeDigits (takeDigits (takeOne (· == chr '-') left).2).2).2
  refine ⟨⟨minus, (takeDigits (takeOne (· == chr '-') left).2).1, frac, exp, takeDigits_sound _, hdigits⟩, ?_⟩
  show (takeOne (· == chr '-') left).1 ++ (takeDigits (takeOne (· == chr '-') left).2).1 ++
    (takeGroup (· == chr '.') takeDigits (takeDigits (takeOne (· == chr '-') left).2).2).1 ++
    (takeGroup (fun c => c == chr 'e' || c == chr 'E') takeSignedDigits
      (takeGroup (· == chr '.') takeDigits (takeDigits (takeOne (· == chr '-') left).2).2).2).1 = _
  rw [hminus, hfrac, hexp]
  cases frac with
  | none => rfl
  | some digits => rfl

/-- What a number may go on with. -/
def goesOn (c : UInt8) : Bool :=
  isDigit c || c == chr '.' || c == chr 'e' || c == chr 'E' || c == chr '+' || c == chr '-'

/-- Where nothing of a wider kind stands in front, nothing of the kind does. -/
theorem Stops.imp {p q : UInt8 → Bool} {t : Bytes} (ht : Stops q t) (h : ∀ c, p c = true → q c = true) :
    Stops p t := by
  intro c hc
  have hq := ht c hc
  refine Bool.eq_false_iff.mpr fun hp => ?_
  rw [h c hp] at hq
  exact Bool.noConfusion hq

theorem stops_of_forall {p : UInt8 → Bool} {t : Bytes} (h : ∀ c ∈ t, p c = false) : Stops p t :=
  fun c hc => h c (List.mem_of_mem_head? hc)

theorem stops_digits {p : UInt8 → Bool} {t : Bytes} (hp : ∀ c, isDigit c = true → p c = false)
    (ht : ∀ c ∈ t, Digit c) : Stops p t := stops_of_forall fun c hc => hp c (isDigit_iff.mpr (ht c hc))

theorem stops_fracBytes {p : UInt8 → Bool} (hp : p 0x2E = false) (n : Numeral) : Stops p n.fracBytes := by
  unfold Numeral.fracBytes
  split
  next => exact fun c hc => nomatch hc
  next => exact stops_cons hp

theorem stops_expBytes {p : UInt8 → Bool} (he : p 0x65 = false) (hE : p 0x45 = false) (n : Numeral) :
    Stops p n.expBytes := by
  unfold Numeral.expBytes
  split
  next => exact fun c hc => nomatch hc
  next e _ =>
    rcases e.letter_eq with h | h
    · exact stops_cons (h ▸ he)
    · exact stops_cons (h ▸ hE)

/-- A digit is none of the marks of a number. -/
theorem digit_beq_mark {c mark : UInt8} (hmark : isDigit mark = false) (hc : isDigit c = true) :
    (c == mark) = false :=
  beq_eq_false_iff_ne.mpr fun h => Bool.false_ne_true (hmark.symm.trans (h ▸ hc))

/-- The marks of a number go on with it. -/
theorem goesOn_of_beq {c mark : UInt8} (hmark : goesOn mark = true) (h : (c == mark) = true) :
    goesOn c = true := eq_of_beq h ▸ hmark

/-- A sign and digits are taken. -/
theorem takeSignedDigits_complete {e : Exponent} {rest : Bytes} (hrest : Stops goesOn rest) :
    takeSignedDigits (e.sign ++ e.digits ++ rest) = (e.sign ++ e.digits, rest) := by
  have hdigit : ∀ c, isDigit c = true → (c == chr '+' || c == chr '-') = false := fun _ hc =>
    Bool.or_eq_false_iff.mpr ⟨digit_beq_mark (by decide) hc, digit_beq_mark (by decide) hc⟩
  have hgoes : ∀ c, (c == chr '+' || c == chr '-') = true → goesOn c = true := fun _ hc =>
    (Bool.or_eq_true_iff.mp hc).elim (goesOn_of_beq (by decide)) (goesOn_of_beq (by decide))
  have hsign : takeOne (fun c => c == chr '+' || c == chr '-') (e.sign ++ (e.digits ++ rest)) =
      (e.sign, e.digits ++ rest) := by
    rcases e.sign_eq with h | h | h
    · rw [h]
      exact takeOne_stops ((stops_digits hdigit e.digits_digit).append (hrest.imp hgoes))
    · rw [h]
      exact takeOne_cons (by decide) _
    · rw [h]
      exact takeOne_cons (by decide) _
  have hdigits := takeDigits_complete e.digits_digit (hrest.imp fun c hc => by
    rw [goesOn, hc]
    rfl)
  rw [takeSignedDigits, List.append_assoc, hsign]
  dsimp only
  rw [hdigits]

/-- **A number is looked at whole**, when nothing behind it goes on with it. -/
theorem numberText_complete (n : Numeral) {rest : Bytes} (hrest : Stops goesOn rest) :
    numberText (n.bytes ++ rest) = (n.bytes, rest) := by
  have hdigitRest : Stops isDigit rest := hrest.imp fun c hc => by
    rw [goesOn, hc]
    rfl
  have hsign : takeOne (· == chr '-') (n.signBytes ++ (n.whole ++ (n.fracBytes ++ (n.expBytes ++ rest)))) =
      (n.signBytes, n.whole ++ (n.fracBytes ++ (n.expBytes ++ rest))) := by
    have hdigit : ∀ c, isDigit c = true → (c == chr '-') = false := fun _ => digit_beq_mark (by decide)
    have hgoes : ∀ c, (c == chr '-') = true → goesOn c = true := fun _ => goesOn_of_beq (by decide)
    unfold Numeral.signBytes
    split
    next => exact takeOne_cons (by decide) _
    next =>
      exact takeOne_stops ((stops_digits hdigit n.whole_digit).append ((stops_fracBytes (by decide) n).append
        ((stops_expBytes (by decide) (by decide) n).append (hrest.imp hgoes))))
  have hwhole : takeDigits (n.whole ++ (n.fracBytes ++ (n.expBytes ++ rest))) =
      (n.whole, n.fracBytes ++ (n.expBytes ++ rest)) :=
    takeDigits_complete n.whole_digit ((stops_fracBytes (by decide) n).append
      ((stops_expBytes (by decide) (by decide) n).append hdigitRest))
  have hfrac : takeGroup (· == chr '.') takeDigits (n.fracBytes ++ (n.expBytes ++ rest)) =
      (n.fracBytes, n.expBytes ++ rest) := by
    have hgoes : ∀ c, (c == chr '.') = true → goesOn c = true := fun _ => goesOn_of_beq (by decide)
    unfold Numeral.fracBytes
    split
    next => exact takeGroup_stops ((stops_expBytes (by decide) (by decide) n).append (hrest.imp hgoes))
    next digits hdigits =>
      have hall : ∀ c ∈ digits, Digit c := fun c hc => n.frac_digit c (by rw [hdigits]; exact hc)
      have htake := takeDigits_complete hall ((stops_expBytes (by decide) (by decide) n).append hdigitRest)
      rw [List.cons_append, takeGroup, htake]
      exact if_pos (by decide)
  have hexp : takeGroup (fun c => c == chr 'e' || c == chr 'E') takeSignedDigits (n.expBytes ++ rest) =
      (n.expBytes, rest) := by
    have hgoes : ∀ c, (c == chr 'e' || c == chr 'E') = true → goesOn c = true := fun _ hc =>
      (Bool.or_eq_true_iff.mp hc).elim (goesOn_of_beq (by decide)) (goesOn_of_beq (by decide))
    unfold Numeral.expBytes
    split
    next => exact takeGroup_stops (hrest.imp hgoes)
    next e _ =>
      have hletter : (e.letter == chr 'e' || e.letter == chr 'E') = true := by
        rcases e.letter_eq with h | h <;> rw [h] <;> decide
      rw [Exponent.bytes, List.cons_append, takeGroup, takeSignedDigits_complete hrest, if_pos hletter]
  simp only [numberText, Numeral.bytes, List.append_assoc, hsign, hwhole, hfrac, hexp]

/-- A number is ASCII. -/
theorem numeral_ascii (n : Numeral) : ∀ c ∈ n.bytes, c ≤ 0x7F := by
  have hdigits : ∀ {ds : Bytes}, (∀ c ∈ ds, Digit c) → ∀ c ∈ ds, c ≤ 0x7F := fun h c hc =>
    UInt8.le_trans (h c hc).2 (by decide)
  have hsign : ∀ {sign : Bytes}, sign = [] ∨ sign = [0x2B] ∨ sign = [0x2D] → ∀ c ∈ sign, c ≤ 0x7F := by
    rintro sign (rfl | rfl | rfl) c hc
    · exact absurd hc List.not_mem_nil
    · rw [List.mem_singleton.mp hc]
      decide
    · rw [List.mem_singleton.mp hc]
      decide
  have hexp : ∀ (e : Exponent), ∀ c ∈ e.bytes, c ≤ 0x7F := by
    intro e c hc
    rcases List.mem_cons.mp hc with rfl | hc
    · rcases e.letter_eq with h | h <;> rw [h] <;> decide
    · rcases List.mem_append.mp hc with hc | hc
      · exact hsign e.sign_eq c hc
      · exact hdigits e.digits_digit c hc
  intro c hc
  rcases List.mem_append.mp hc with hc | hc
  · rcases List.mem_append.mp hc with hc | hc
    · rcases List.mem_append.mp hc with hc | hc
      · refine hsign ?_ c hc
        unfold Numeral.signBytes
        split
        · exact Or.inr (Or.inr rfl)
        · exact Or.inl rfl
      · exact hdigits n.whole_digit c hc
    · cases hf : n.frac with
      | none => rw [Numeral.fracBytes, hf] at hc; exact absurd hc List.not_mem_nil
      | some ds =>
        rw [Numeral.fracBytes, hf] at hc
        rcases List.mem_cons.mp hc with rfl | hc
        · decide
        · exact hdigits (fun d hd => n.frac_digit d (by rw [hf]; exact hd)) c hc
  · cases he : n.exp with
    | none => rw [Numeral.expBytes, he] at hc; exact absurd hc List.not_mem_nil
    | some e => rw [Numeral.expBytes, he] at hc; exact hexp e c hc

/-- A number that fits the buffer and the range of a `double`. -/
def NumeralFits (n : Numeral) : Prop :=
  n.bytes.length ≤ 127 ∧ ∀ d, strtod n.bytes = some d → d.isFinite = true

/-- What `parse_number` takes: a number fits, and `strtod` finds one in front. -/
def NumeralRead (n : Numeral) : Prop := NumeralFits n ∧ (strtod n.bytes).isSome = true

/-- **What `parse_number` takes** has the shape of a number, fits, and starts with the number it returns. -/
theorem parseNumber_sound {left rest : Bytes} {v : Json} (h : parseNumber left = .ok (v, rest)) :
    ∃ (n : Numeral) (d : Double), NumeralRead n ∧ strtod n.bytes = some d ∧ v = .number d ∧
      left = n.bytes ++ rest := by
  obtain ⟨n, hn⟩ := numberText_sound left
  have hleft := numberText_append left
  unfold parseNumber at h
  dsimp only at h
  rw [hn] at h hleft
  split at h
  next => cases h
  next hlen =>
    split at h
    next number hnumber =>
      split at h
      next hfinite =>
        cases h
        refine ⟨n, number, ⟨⟨by omega, ?_⟩, by rw [hnumber]; rfl⟩, hnumber, rfl, hleft.symm⟩
        intro d hd
        rwa [← Option.some.inj (hnumber.symm.trans hd)]
      next => cases h
    next => cases h

/-- **A number that fits is taken.** -/
theorem parseNumber_complete {n : Numeral} (hn : NumeralRead n) {rest : Bytes} (hrest : Stops goesOn rest) :
    ∃ v, parseNumber (n.bytes ++ rest) = .ok (v, rest) := by
  obtain ⟨⟨hlen, hfinite⟩, hsome⟩ := hn
  obtain ⟨d, hd⟩ := Option.isSome_iff_exists.mp hsome
  have hne : n.bytes.length ≠ 0 := by
    intro h
    rw [List.length_eq_zero_iff.mp h] at hsome
    exact absurd hsome (by decide)
  refine ⟨.number d, ?_⟩
  simp only [parseNumber, numberText_complete n hrest, hd, hfinite d hd]
  rw [if_neg (by omega)]
  rfl

/-! ## Digits -/

theorem decimalValue_append_run (s t : Bytes) :
    decimalValue (s ++ t) = decimalValue s * 10 ^ t.length + decimalValue t := by
  induction t using List.reverseRecOn with
  | nil => rw [List.append_nil, List.length_nil, Nat.pow_zero, Nat.mul_one]; rfl
  | append_singleton t c ih =>
    rw [← List.append_assoc, decimalValue_append, decimalValue_append, ih, List.length_append,
      List.length_singleton, Nat.pow_succ]
    ring

theorem decimalValue_zeros (z : Nat) : decimalValue (List.replicate z (chr '0')) = 0 := by
  induction z with
  | zero => rfl
  | succ z ih => rw [List.replicate_succ', decimalValue_append, ih]; rfl

/-- The zeros that are not printed. -/
theorem decimal_printed (m : Nat) :
    ∃ z, decimal m = printedDigits m ++ List.replicate z (chr '0') := by
  have hsplit := List.takeWhile_append_dropWhile (p := (· == chr '0')) (l := (decimal m).reverse)
  have hzeros : (decimal m).reverse.takeWhile (· == chr '0') =
      List.replicate ((decimal m).reverse.takeWhile (· == chr '0')).length (chr '0') :=
    List.eq_replicate_iff.mpr ⟨rfl, fun c hc =>
      eq_of_beq (List.mem_takeWhile_imp (p := (· == chr '0')) hc)⟩
  refine ⟨((decimal m).reverse.takeWhile (· == chr '0')).length, ?_⟩
  rw [printedDigits]
  nth_rewrite 1 [← List.reverse_reverse (decimal m), ← hsplit, hzeros]
  rw [List.reverse_append, List.reverse_replicate]

theorem printedDigits_isDigit (m : Nat) : ∀ c ∈ printedDigits m, Digit c := by
  intro c hc
  obtain ⟨z, hz⟩ := decimal_printed m
  exact isDigit_iff.mp (decimal_isDigit m c (by rw [hz]; exact List.mem_append_left _ hc))

/-- **The printed digits and the exponent of the first give the number back.** -/
theorem decimalValue_printed {m : Nat} (hlow : 10 ^ 16 ≤ m) (hhigh : m < 10 ^ 17) (x : Int) :
    printedDigits m ≠ [] ∧ (decimalValue (printedDigits m) : ℚ) * 10 ^ (x + 1 - (printedDigits m).length) =
      m * 10 ^ (x - 16) := by
  obtain ⟨z, hz⟩ := decimal_printed m
  have hlen : (decimal m).length = 17 := by
    have hle := decimal_length_le 16 m hhigh
    have hlt : 10 ^ 16 < 10 ^ (decimal m).length := Nat.lt_of_le_of_lt hlow (decimal_bounds m).1
    have hgt := (Nat.pow_lt_pow_iff_right (by decide)).mp hlt
    omega
  have hvalue : m = decimalValue (printedDigits m) * 10 ^ z := by
    have h := decimalValue_decimal m
    rw [hz, decimalValue_append_run, decimalValue_zeros, List.length_replicate, Nat.add_zero] at h
    exact h.symm
  rw [hz, List.length_append, List.length_replicate] at hlen
  constructor
  · intro hnil
    rw [hnil] at hvalue
    have hzero : m = 0 := hvalue.trans (Nat.zero_mul _)
    omega
  · have hexp : x + 1 - (printedDigits m).length = z + (x - 16) := by omega
    have hvalueQ : (m : ℚ) = decimalValue (printedDigits m) * 10 ^ z := by exact_mod_cast hvalue
    rw [hexp, zpow_add₀ (by norm_num), zpow_natCast, ← mul_assoc, ← hvalueQ]

/-! ## Numerals -/

/-- A minus, or nothing. -/
theorem scanSign_numeral {n : Numeral} (hw : n.whole ≠ []) :
    scanSign n.bytes = (n.minus, n.whole ++ (n.fracBytes ++ n.expBytes)) := by
  obtain ⟨c, w, hcw⟩ := List.exists_cons_of_ne_nil hw
  have hc : isDigit c = true := isDigit_iff.mpr (n.whole_digit c (by rw [hcw]; exact List.mem_cons_self))
  have hminus : c ≠ chr '-' := ne_of_beq_false (digit_beq_mark (by decide) hc)
  have hplus : c ≠ chr '+' := ne_of_beq_false (digit_beq_mark (by decide) hc)
  rw [Numeral.bytes, Numeral.signBytes, List.append_assoc, List.append_assoc]
  cases n.minus with
  | true => rfl
  | false =>
    rw [hcw]
    exact (if_neg hminus).trans (if_neg hplus)

/-- **`strtod` reads a numeral for its digits and its exponent.** -/
theorem strtod_numeral {n : Numeral} (hw : n.whole ≠ []) :
    strtod n.bytes = some (decimalDouble n.minus (decimalValue (n.whole ++ n.frac.getD []))
      (scanExponent n.expBytes - (n.frac.getD []).length)) := by
  have hstop := stops_expBytes (p := isDigit) (by decide) (by decide) n
  have hwhole := takeDigits_complete n.whole_digit ((stops_fracBytes (by decide) n).append hstop)
  have htake : (n.whole ++ (n.fracBytes ++ n.expBytes)).takeWhile isDigit = n.whole :=
    congrArg Prod.fst hwhole
  have hdrop : (n.whole ++ (n.fracBytes ++ n.expBytes)).dropWhile isDigit = n.fracBytes ++ n.expBytes :=
    congrArg Prod.snd hwhole
  simp only [strtod, scanSign_numeral hw, htake, hdrop]
  cases hfrac : n.frac with
  | some digits =>
    have hall : ∀ c ∈ digits, Digit c := fun c hc => n.frac_digit c (by rw [hfrac]; exact hc)
    have hdigits := takeDigits_complete hall hstop
    have hpoint : n.fracBytes = chr '.' :: digits := by rw [Numeral.fracBytes, hfrac]; rfl
    have htakeFrac : (digits ++ n.expBytes).takeWhile isDigit = digits := congrArg Prod.fst hdigits
    have hdropFrac : (digits ++ n.expBytes).dropWhile isDigit = n.expBytes := congrArg Prod.snd hdigits
    rw [hpoint, List.cons_append]
    simp only [if_true, htakeFrac, hdropFrac, Option.getD_some]
    rw [if_neg fun h => hw h.1]
  | none =>
    have hpoint : n.fracBytes = [] := by rw [Numeral.fracBytes, hfrac]
    have hdot := stops_expBytes (p := (· == chr '.')) (by decide) (by decide) n
    rw [hpoint, List.nil_append]
    cases he : n.expBytes with
    | nil =>
      dsimp only [Option.getD_none]
      rw [if_neg fun h => hw h.1]
    | cons c t =>
      rw [he] at hdot
      have hc : c ≠ chr '.' := ne_of_beq_false (hdot c rfl)
      simp only [if_neg hc, Option.getD_none]
      rw [if_neg fun h => hw h.1]

/-- `strtod` finds a number where there are digits in front of the point. -/
theorem strtod_of_whole {n : Numeral} (h : n.whole ≠ []) : (strtod n.bytes).isSome = true := by
  rw [strtod_numeral h]
  rfl

/-- Digits behind an optional minus. -/
def wholeNumeral (minus : Bool) (digits : Bytes) (h : ∀ c ∈ digits, isDigit c = true) : Numeral where
  minus := minus
  whole := digits
  frac := none
  exp := none
  whole_digit := fun c hc => isDigit_iff.mp (h c hc)
  frac_digit := fun _ hc => absurd hc List.not_mem_nil

theorem wholeNumeral_bytes (minus : Bool) {digits : Bytes} (h : ∀ c ∈ digits, isDigit c = true) :
    (wholeNumeral minus digits h).bytes = (if minus then str "-" else []) ++ digits :=
  (List.append_nil _).trans (List.append_nil _)

/-- The digits behind a point, and the point, unless there are none. -/
def behindPoint (frac : Bytes) : Option Bytes := if frac = [] then none else some frac

theorem behindPoint_getD (frac : Bytes) : (behindPoint frac).getD [] = frac := by
  rw [behindPoint]
  split
  next h => exact h.symm
  next => rfl

theorem withPoint_eq {n : Numeral} {frac : Bytes} (h : n.frac = behindPoint frac) (whole : Bytes) :
    withPoint whole frac = whole ++ n.fracBytes := by
  rw [withPoint, Numeral.fracBytes, h, behindPoint]
  split
  · exact (List.append_nil whole).symm
  · rfl

theorem digit_zero : Digit (chr '0') := isDigit_iff.mp (by decide)

/-- The exponent `%.17g` prints: a sign and at least two digits. -/
theorem exponent_digits (n : Nat) : ∀ c ∈ List.replicate (2 - (decimal n).length) (chr '0') ++ decimal n, Digit c := by
  intro c hc
  rcases List.mem_append.mp hc with h | h
  · rw [List.eq_of_mem_replicate h]
    exact digit_zero
  · exact isDigit_iff.mp (decimal_isDigit n c h)

theorem scanExponent_printed (x : Int) :
    scanExponent (chr 'e' :: (if x < 0 then chr '-' else chr '+') ::
      (List.replicate (2 - (decimal x.natAbs).length) (chr '0') ++ decimal x.natAbs)) = x := by
  have htake : (List.replicate (2 - (decimal x.natAbs).length) (chr '0') ++ decimal x.natAbs).takeWhile isDigit =
      List.replicate (2 - (decimal x.natAbs).length) (chr '0') ++ decimal x.natAbs :=
    List.takeWhile_eq_self_iff.mpr fun c hc => isDigit_iff.mpr (exponent_digits x.natAbs c hc)
  have hvalue : decimalValue (List.replicate (2 - (decimal x.natAbs).length) (chr '0') ++ decimal x.natAbs) =
      x.natAbs := by
    rw [decimalValue_append_run, decimalValue_zeros, Nat.zero_mul, Nat.zero_add, decimalValue_decimal]
  rw [scanExponent, if_pos (Or.inl rfl)]
  by_cases hx : x < 0
  · rw [if_pos hx, scanSign, if_pos rfl]
    simp only [htake, hvalue, if_true]
    omega
  · rw [if_neg hx, scanSign, if_neg (by decide), if_pos rfl]
    simp only [htake, hvalue, Bool.false_eq_true, if_false]
    omega

/-- The layouts of `%.17g` by their parts: digits before and behind the point, and the exponent. -/
theorem layout17_parts (x : Int) {digits : Bytes} (hne : digits ≠ []) (hdigits : ∀ c ∈ digits, Digit c) :
    ∃ (whole frac : Bytes) (exp : Option Exponent) (e : Int), whole ≠ [] ∧ (∀ c ∈ whole, Digit c) ∧
      (∀ c ∈ frac, Digit c) ∧ layout17 x digits = withPoint whole frac ++ exp.elim [] Exponent.bytes ∧
      scanExponent (exp.elim [] Exponent.bytes) - frac.length = e ∧ (e = x + 1 - digits.length ∨ e = 0) ∧
      (decimalValue (whole ++ frac) : ℚ) * 10 ^ e = decimalValue digits * 10 ^ (x + 1 - digits.length) := by
  have hzeros : ∀ (k : Nat), ∀ c ∈ List.replicate k (chr '0'), Digit c := by
    intro k c hc
    rw [List.eq_of_mem_replicate hc]
    exact digit_zero
  by_cases hfar : x < -4 ∨ 17 ≤ x
  · -- a digit, a point, the other digits and the exponent
    obtain ⟨c, rest, rfl⟩ := List.exists_cons_of_ne_nil hne
    obtain ⟨hc, hrest⟩ := List.forall_mem_cons.mp hdigits
    let e : Exponent :=
      { letter := chr 'e'
        sign := [if x < 0 then chr '-' else chr '+']
        digits := List.replicate (2 - (decimal x.natAbs).length) (chr '0') ++ decimal x.natAbs
        letter_eq := Or.inl rfl
        sign_eq := by
          split
          · exact Or.inr (Or.inr rfl)
          · exact Or.inr (Or.inl rfl)
        digits_digit := exponent_digits x.natAbs }
    have hexp : scanExponent e.bytes = x := scanExponent_printed x
    refine ⟨[c], rest, some e, _, List.cons_ne_nil _ _, List.forall_mem_singleton.mpr hc, hrest, ?_, ?_,
      Or.inl rfl, rfl⟩
    · rw [layout17, if_pos hfar]
      rfl
    · rw [Option.elim_some, hexp, List.length_cons]
      omega
  by_cases hneg : x < 0
  · -- zeros between the point and the digits
    refine ⟨List.replicate 1 (chr '0'), List.replicate (x.natAbs - 1) (chr '0') ++ digits, none, _, by decide, hzeros 1,
      List.forall_mem_append.mpr ⟨hzeros _, hdigits⟩, ?_, ?_, Or.inl rfl, ?_⟩
    · rw [layout17, if_neg hfar, if_pos hneg]
      exact (List.append_nil _).symm
    · show (0 : Int) - _ = _
      rw [List.length_append, List.length_replicate]
      omega
    · rw [decimalValue_append_run, decimalValue_append_run, decimalValue_zeros, decimalValue_zeros,
        Nat.zero_mul, Nat.zero_mul, Nat.zero_add, Nat.zero_add]
  by_cases hlong : x.toNat + 1 ≤ digits.length
  · -- the point among the digits
    refine ⟨digits.take (x.toNat + 1), digits.drop (x.toNat + 1), none, _, ?_,
      fun c hc => hdigits c (List.mem_of_mem_take hc), fun c hc => hdigits c (List.mem_of_mem_drop hc), ?_, ?_,
      Or.inl rfl, by rw [List.take_append_drop]⟩
    · exact List.ne_nil_of_length_pos (by rw [List.length_take]; omega)
    · rw [layout17, if_neg hfar, if_neg hneg]
      dsimp only
      rw [List.length_take_of_le hlong, Nat.sub_self, List.replicate_zero, List.append_nil]
      exact (List.append_nil _).symm
    · show (0 : Int) - _ = _
      rw [List.length_drop]
      omega
  · -- zeros behind the digits
    have hscale : x + 1 - digits.length = (x.toNat + 1 - digits.length : ℕ) := by omega
    refine ⟨digits ++ List.replicate (x.toNat + 1 - digits.length) (chr '0'), [], none, 0,
      List.append_ne_nil_of_left_ne_nil hne _, List.forall_mem_append.mpr ⟨hdigits, hzeros _⟩,
      fun c hc => absurd hc List.not_mem_nil, ?_, rfl, Or.inr rfl, ?_⟩
    · rw [layout17, if_neg hfar, if_neg hneg]
      dsimp only
      rw [List.take_of_length_le (by omega), List.drop_of_length_le (by omega)]
      exact (List.append_nil _).symm
    · rw [List.append_nil, decimalValue_append_run, decimalValue_zeros, List.length_replicate, hscale, zpow_natCast]
      push_cast
      norm_num

/-- **The layouts of `%.17g` are numerals**, with the value of their digits. -/
theorem layout17_numeral (neg : Bool) (x : Int) {digits : Bytes} (hne : digits ≠ []) (hdigits : ∀ c ∈ digits, Digit c) :
    ∃ n : Numeral, n.minus = neg ∧ n.whole ≠ [] ∧
      n.bytes = (if neg then str "-" else []) ++ layout17 x digits ∧
      (scanExponent n.expBytes - (n.frac.getD []).length = x + 1 - digits.length ∨
        scanExponent n.expBytes - (n.frac.getD []).length = 0) ∧
      (decimalValue (n.whole ++ n.frac.getD []) : ℚ) *
          10 ^ (scanExponent n.expBytes - (n.frac.getD []).length) =
        decimalValue digits * 10 ^ (x + 1 - digits.length) := by
  obtain ⟨whole, frac, exp, e, hw, hwhole, hfrac, hlayout, rfl, hscale, hvalue⟩ := layout17_parts x hne hdigits
  have hgetD := behindPoint_getD frac
  let n : Numeral := ⟨neg, whole, behindPoint frac, exp, hwhole, by rwa [hgetD]⟩
  have hexp : n.expBytes = exp.elim [] Exponent.bytes := by cases exp <;> rfl
  refine ⟨n, rfl, hw, ?_, ?_, ?_⟩
  · rw [hlayout, withPoint_eq (n := n) rfl, Numeral.bytes, hexp, List.append_assoc, List.append_assoc,
      List.append_assoc]
    cases neg <;> rfl
  · rwa [hexp, show n.frac = behindPoint frac from rfl, hgetD]
  · rwa [hexp, show n.frac = behindPoint frac from rfl, hgetD]

/-! ## Round trip -/

/-- **What is printed of a finite value is a numeral that `strtod` reads as the value.** -/
theorem formatGeneral17_numeral {d : Double} (h : d.isFinite = true) :
    ∃ n : Numeral, n.bytes = formatGeneral17 d ∧ n.whole ≠ [] ∧ strtod n.bytes = some d := by
  by_cases hsig : d.significand = 0
  · have hzero : ∀ c ∈ [chr '0'], isDigit c = true := List.forall_mem_singleton.mpr (by decide)
    have hw : (wholeNumeral d.negative [chr '0'] hzero).whole ≠ [] := List.cons_ne_nil _ _
    have hnan := Double.isNaN_of_isFinite h
    refine ⟨wholeNumeral d.negative [chr '0'] hzero, ?_, hw, ?_⟩
    · rw [wholeNumeral_bytes, formatGeneral17]
      simp only [hnan, h, hsig, Bool.false_eq_true, if_false, Bool.not_true, if_true]
      rfl
    · rw [strtod_numeral hw]
      exact congrArg some (decimalDouble_zero hsig)
  · have hpos : 0 < d.significand := Nat.pos_of_ne_zero hsig
    have hx := within_digits17 h hpos
    obtain ⟨x, m, hmLow, hmHigh, hxMin, hxMax, hlayout, hdigits⟩ := formatGeneral17_finite h hpos
    have hvalue : (m * (10 : ℚ) ^ (x - 16)) = digits17 d * (10 : ℚ) ^ (exponent17 d - 16) := by
      rcases hdigits with ⟨rfl, rfl⟩ | ⟨rfl, hcarry⟩
      · rfl
      · have hshift : exponent17 d + 1 - 16 = exponent17 d - 16 + 1 := by ring
        rw [← hcarry, hshift, zpow_add_one₀ (by norm_num)]
        push_cast
        ring
    obtain ⟨hne, hprinted⟩ := decimalValue_printed hmLow hmHigh x
    obtain ⟨n, hminus, hw, hbytes, hscale, hnumeral⟩ := layout17_numeral d.negative x hne (printedDigits_isDigit m)
    have hlen := printedDigits_length hmHigh
    have hmantissa : decimalValue (n.whole ++ n.frac.getD []) ≠ 0 := by
      intro hzero
      have hmQ : (0 : ℚ) < m := by exact_mod_cast (by omega : 0 < m)
      have hm10 : (0 : ℚ) < m * (10 : ℚ) ^ (x - 16) := mul_pos hmQ (zpow_pos (by norm_num) _)
      rw [hzero, hprinted, Nat.cast_zero, zero_mul] at hnumeral
      exact hm10.ne hnumeral
    refine ⟨n, by rw [hbytes, hlayout], hw, ?_⟩
    rw [hprinted, hvalue] at hnumeral
    rw [← hnumeral] at hx
    rw [strtod_numeral hw, hminus, decimalDouble_of_within h hmantissa (by omega) (by omega) hx]

/-! ## Values -/

/-- What starts a number starts nothing else. -/
theorem number_dispatch {c : UInt8} (h : c = chr '-' ∨ isDigit c = true) :
    isWs c = false ∧ c ≠ chr ']' ∧ c ≠ chr '\x7b' ∧ c ≠ chr '[' ∧ c ≠ chr '"' ∧ c ≠ chr 't' ∧ c ≠ chr 'f' ∧
      c ≠ chr 'n' := by
  rcases h with rfl | h
  · decide
  · exact (digit_dispatch h).2

/-- `parse_value` sends numbers to `parse_number`. -/
theorem parseValue_number {levels : Nat} {left : Bytes} {c : UInt8} {t : Bytes} (hleft : skipWs left = c :: t)
    (hc : c = chr '-' ∨ isDigit c = true) : parseValue (levels + 1) left = parseNumber (c :: t) := by
  obtain ⟨-, -, h1, h2, h3, h4, h5, h6⟩ := number_dispatch hc
  rw [parseValue, hleft]
  exact (if_neg h1).trans ((if_neg h2).trans ((if_neg h3).trans ((if_neg h4).trans ((if_neg h5).trans
    ((if_neg h6).trans (if_pos hc))))))

/-- A numeral starts with a minus or a digit. -/
theorem numeral_head {n : Numeral} (hw : n.whole ≠ []) :
    ∃ c t, n.bytes = c :: t ∧ (c = chr '-' ∨ isDigit c = true) := by
  obtain ⟨c, w, hcw⟩ := List.exists_cons_of_ne_nil hw
  have hc : isDigit c = true := isDigit_iff.mpr (n.whole_digit c (by rw [hcw]; exact List.mem_cons_self))
  rw [Numeral.bytes, Numeral.signBytes, hcw]
  cases n.minus with
  | true => exact ⟨chr '-', _, rfl, Or.inl rfl⟩
  | false => exact ⟨c, _, rfl, Or.inr hc⟩

/-- **A numeral is a number value**, when nothing behind it goes on with it. -/
theorem parseValue_numeral {n : Numeral} {d : Double} (hw : n.whole ≠ []) (hd : strtod n.bytes = some d)
    (hf : d.isFinite = true) (hlen : n.bytes.length < 128) (levels : Nat) {rest : Bytes}
    (hrest : Stops goesOn rest) : parseValue (levels + 1) (n.bytes ++ rest) = .ok (.number d, rest) := by
  obtain ⟨c, t, hct, hc⟩ := numeral_head hw
  have hshort : ¬ (n.bytes.length = 0 ∨ 128 ≤ n.bytes.length) := by
    have hpos : 0 < n.bytes.length := by rw [hct]; exact Nat.succ_pos _
    omega
  have htext := numberText_complete n hrest
  rw [hct, List.cons_append, parseValue_number (skipWs_cons (number_dispatch hc).1 _) hc, ← List.cons_append, ← hct]
  simp only [parseNumber, htext, if_neg hshort, hd, hf, if_true]

/-- No delimiter goes on with a number. -/
theorem stops_delimiter {c : UInt8} (h : isDelimiter c = true) (rest : Bytes) : Stops goesOn (c :: rest) := by
  apply stops_cons
  revert h
  apply byte_forall (p := fun c => isDelimiter c = true → goesOn c = false)
  decide +kernel

theorem ReadsTo.numeral {n : Numeral} {d : Double} (hw : n.whole ≠ []) (hd : strtod n.bytes = some d)
    (hf : d.isFinite = true) (hlen : n.bytes.length < 128) (levels : Nat) :
    ReadsTo (parseValue (levels + 1)) n.bytes (.number d) := by
  obtain ⟨c, t, hct, hc⟩ := numeral_head hw
  obtain ⟨hws, hclose, -⟩ := number_dispatch hc
  exact ⟨⟨c, t, hct, hws, hclose⟩, fun e rest he =>
    parseValue_numeral hw hd hf hlen levels (stops_delimiter he rest)⟩

/-- A digit is a number value. -/
theorem ReadsTo.digit {k : UInt8} {d : Double} (hk : isDigit k = true)
    (hd : strtod [k] = some d) (hf : d.isFinite = true) (levels : Nat) :
    ReadsTo (parseValue (levels + 1)) [k] (.number d) := by
  have hdigits : ∀ c ∈ [k], isDigit c = true := fun c hc => by rwa [List.mem_singleton.mp hc]
  have hlen : [k].length < 128 := by rw [List.length_singleton]; decide
  exact ReadsTo.numeral (n := wholeNumeral false [k] hdigits) (List.cons_ne_nil k []) hd hf hlen levels

/-- An integer is a number value. -/
theorem ReadsTo.integer {neg : Bool} {n : Nat} {d : Double}
    (hd : strtod ((if neg then str "-" else []) ++ decimal n) = some d) (hf : d.isFinite = true)
    (hlen : (decimal n).length ≤ 100) (levels : Nat) :
    ReadsTo (parseValue (levels + 1)) ((if neg then str "-" else []) ++ decimal n) (.number d) := by
  have hbytes := wholeNumeral_bytes neg (decimal_isDigit n)
  rw [← hbytes] at hd ⊢
  refine ReadsTo.numeral (decimal_ne_nil n) hd hf ?_ levels
  have hone : (if neg then str "-" else []).length ≤ 1 := by cases neg <;> decide
  rw [hbytes, List.length_append]
  omega

/-- **A finite number is read back**, when nothing behind it goes on with it. -/
theorem parseValue_formatGeneral17 {d : Double} (h : d.isFinite = true) (levels : Nat) {rest : Bytes}
    (hrest : Stops goesOn rest) :
    parseValue (levels + 1) (formatGeneral17 d ++ rest) = .ok (.number d, rest) := by
  obtain ⟨n, hbytes, hw, hread⟩ := formatGeneral17_numeral h
  have hlen := formatGeneral17_length d
  rw [← hbytes] at hlen ⊢
  exact parseValue_numeral hw hread h (by omega) levels hrest

/-- The text of a number is ASCII. -/
theorem formatGeneral17_ascii {d : Double} (h : d.isFinite = true) : ∀ c ∈ formatGeneral17 d, c ≤ 0x7F := by
  obtain ⟨n, hbytes, -, -⟩ := formatGeneral17_numeral h
  rw [← hbytes]
  exact numeral_ascii n

end SmolClaw
