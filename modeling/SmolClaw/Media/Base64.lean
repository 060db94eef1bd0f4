/-
  Base64 media: what a request carries (`base64_encode`, `src/providers/http_providers.c`) and what a webhook
  brings (`base64_decode`, `src/channels/orchestrator.c`).

  1. **Writer** — three bytes at a time into memory that was asked for beforehand.  A write outside of it
     would be undefined, so `encode` has an outer `Option`.

  2. **Reader** — a buffer that takes six bits from each character and gives eight to the output; white
     space is passed over, and `=` only ends the text.

  3. **Specification** — `rfc4648`, and `Survives`: the writer writes it, the reader reads it back, and what
     the reader accepts is it.

  4. **Defect** — the reader neither counts the signs `=` nor looks at the bits it is left with: a lone last
     character and set bits are dropped.

  5. **Result** — `survives_iff`: exactly the texts that are cut off or padded wrongly do not survive.
-/
import SmolClaw.Core.Status
import SmolClaw.Lib.Sextets

namespace SmolClaw.Media

open Lib.Sextets

/-! ## Writer -/

/-- `alphabet` -/
def alphabet : Bytes := str "ABCDEFGHIJKLMNOPQRSTUVWXYZabcdefghijklmnopqrstuvwxyz0123456789+/"

/-- The character of a sextet. -/
def letter (n : Nat) : UInt8 := alphabet.getD n 0

/-- A byte written into memory; `none` outside of it. -/
def writeAt (memory : Bytes) (i : Nat) (b : UInt8) : Option Bytes :=
  if i < memory.length then some (memory.set i b) else none

/-- The loop of `base64_encode`, with its counter `i` and its `cursor`. -/
def encodeLoop (input : Bytes) : Nat → Nat → Nat → Bytes → Option Bytes
  | 0, _, _, memory => some memory
  | rounds + 1, i, cursor, memory =>
      if i < input.length then do
        let a := (input.getD i 0).toNat
        let b := if i + 1 < input.length then (input.getD (i + 1) 0).toNat else 0
        let c := if i + 2 < input.length then (input.getD (i + 2) 0).toNat else 0
        let memory ← writeAt memory cursor (letter ((a >>> 2) &&& 0x3F))
        let memory ← writeAt memory (cursor + 1) (letter (((a &&& 0x03) <<< 4) ||| ((b >>> 4) &&& 0x0F)))
        let memory ← writeAt memory (cursor + 2)
          (if i + 1 < input.length then letter (((b &&& 0x0F) <<< 2) ||| ((c >>> 6) &&& 0x03)) else chr '=')
        let memory ← writeAt memory (cursor + 3)
          (if i + 2 < input.length then letter (c &&& 0x3F) else chr '=')
        encodeLoop input rounds (i + 3) (cursor + 4) memory
      else some memory

/-- `sc_alloc`: memory of the size asked for, with any bytes in it. -/
abbrev Allocate := (n : Nat) → Option { memory : Bytes // memory.length = n }

/-- `base64_encode` -/
def encode (allocate : Allocate) (input : Bytes) : Option (Res Bytes) :=
  let encodedLen := (input.length + 2) / 3 * 4
  if sizeMax < input.length + 2 ∨ sizeMax < encodedLen ∨ sizeMax < encodedLen + 1 then some Status.noMemory
  else
    match allocate (encodedLen + 1) with
    | none => some Status.noMemory
    | some memory => do
        let memory ← encodeLoop input input.length 0 0 memory.val
        let memory ← writeAt memory encodedLen 0
        return .ok (memory.take encodedLen)

/-! ## Reader -/

/-- `base64_value`; `none` for -1. -/
def base64Value (ch : UInt8) : Option Nat :=
  if chr 'A' ≤ ch ∧ ch ≤ chr 'Z' then some (ch.toNat - (chr 'A').toNat)
  else if chr 'a' ≤ ch ∧ ch ≤ chr 'z' then some (ch.toNat - (chr 'a').toNat + 26)
  else if chr '0' ≤ ch ∧ ch ≤ chr '9' then some (ch.toNat - (chr '0').toNat + 52)
  else if ch = chr '+' then some 62
  else if ch = chr '/' then some 63
  else none

/-- The white space that is passed over. -/
def isSpace (ch : UInt8) : Bool := ch = chr ' ' ∨ ch = chr '\n' ∨ ch = chr '\r' ∨ ch = chr '\t'

/-- The locals of `base64_decode`. -/
structure Decoding where
  buffer : Nat := 0
  bits : Nat := 0
  padding : Bool := false
  out : Bytes := []

/-- A sextet; `buffer` has 32 bits. -/
def Decoding.push (state : Decoding) (value : Nat) : Decoding :=
  let buffer := ((state.buffer <<< 6) % 2 ^ 32) ||| value
  let bits := state.bits + 6
  if 8 ≤ bits then
    { state with
      buffer := buffer &&& ((1 <<< (bits - 8)) - 1)
      bits := bits - 8
      out := state.out ++ [UInt8.ofNat ((buffer >>> (bits - 8)) &&& 0xFF)] }
  else { state with buffer := buffer, bits := bits }

/-- A round of the loop of `base64_decode`. -/
def decodeStep (state : Decoding) (ch : UInt8) : Res Decoding :=
  if isSpace ch then .ok state
  else if ch = chr '=' then .ok { state with padding := true }
  else
    match base64Value ch with
    | none => Status.parse "sc.channel_webhook.base64_invalid"
    | some value =>
        if state.padding then Status.parse "sc.channel_webhook.base64_invalid"
        else .ok (state.push value)

/-- `base64_decode` -/
def decode (input : Bytes) : Res Bytes := do
  let state ← input.foldlM decodeStep {}
  if state.out = [] then Status.invalidArgument "sc.channel_webhook.base64_empty"
  else return state.out

/-! ## Specification -/

/-- Base64 by groups of three bytes. -/
def rfc4648 : Bytes → Bytes
  | a :: b :: c :: rest =>
      letter (a.toNat / 4) :: letter (a.toNat % 4 * 16 + b.toNat / 16) ::
        letter (b.toNat % 16 * 4 + c.toNat / 64) :: letter (c.toNat % 64) :: rfc4648 rest
  | [a, b] =>
      [letter (a.toNat / 4), letter (a.toNat % 4 * 16 + b.toNat / 16), letter (b.toNat % 16 * 4), chr '=']
  | [a] => [letter (a.toNat / 4), letter (a.toNat % 4 * 16), chr '=', chr '=']
  | [] => []

/-- A text without its white space. -/
def strip (text : Bytes) : Bytes := text.filter fun ch => !isSpace ch

/-- The memory for the encoded bytes can be asked for and is granted. -/
def Granted (allocate : Allocate) (bytes : Bytes) : Prop :=
  (rfc4648 bytes).length + 1 ≤ sizeMax ∧ (allocate ((rfc4648 bytes).length + 1)).isSome

/-- **Surviving**: the bytes are written as base64, and without memory nothing is; the text is read as the
    bytes it encodes; and it is accepted for the bytes it encodes only. -/
structure Survives (allocate : Allocate) (bytes text : Bytes) : Prop where
  written : Granted allocate bytes → encode allocate bytes = some (.ok (rfc4648 bytes))
  refused : ¬ Granted allocate bytes → encode allocate bytes = some Status.noMemory
  read : bytes ≠ [] → strip text = rfc4648 bytes → decode text = .ok bytes
  whole : ∀ out, decode text = .ok out → strip text = rfc4648 out

/-- **Cut off**, or padded wrongly: two or more letters and then signs `=`, but these do not fill the last
    group of four, or bits behind the last byte are set. -/
def CutOff (text : Bytes) : Prop :=
  ∃ vs pads, (∀ v ∈ vs, v < 64) ∧ strip text = vs.map letter ++ List.replicate pads (chr '=') ∧
    2 ≤ vs.length ∧ ¬ (Whole vs ∧ pads = (4 - vs.length % 4) % 4)

/-! ## Letters -/

set_option maxRecDepth 2000 in
/-- The reader knows the letters, and no sign or white space is one. -/
theorem base64Value_letter {n : Nat} (h : n < 64) : base64Value (letter n) = some n := by
  have hall : ∀ n : Fin 64, base64Value (letter n) = some n.val := by decide
  exact hall ⟨n, h⟩

set_option maxRecDepth 2000 in
theorem letter_of_value {ch : UInt8} {n : Nat} (h : base64Value ch = some n) : n < 64 ∧ letter n = ch := by
  have hupper : ∀ k : Fin 26, letter k = UInt8.ofNat (k + 65) := by decide
  have hlower : ∀ k : Fin 26, letter (k + 26) = UInt8.ofNat (k + 97) := by decide
  have hdigit : ∀ k : Fin 10, letter (k + 52) = UInt8.ofNat (k + 48) := by decide
  have hback : ∀ m k, k ≤ ch.toNat → m = ch.toNat - k → UInt8.ofNat (m + k) = ch := by
    rintro m k hk rfl
    rw [Nat.sub_add_cancel hk, UInt8.ofNat_toNat]
  unfold base64Value at h
  split at h
  · next hrange =>
    have hlow : 65 ≤ ch.toNat := UInt8.le_iff_toNat_le.mp hrange.1
    have hhigh : ch.toNat ≤ 90 := UInt8.le_iff_toNat_le.mp hrange.2
    obtain rfl := Option.some.inj h
    refine ⟨?_, (hupper ⟨ch.toNat - 65, by omega⟩).trans (hback _ 65 hlow rfl)⟩
    show ch.toNat - 65 < 64
    omega
  · split at h
    · next hrange =>
      have hlow : 97 ≤ ch.toNat := UInt8.le_iff_toNat_le.mp hrange.1
      have hhigh : ch.toNat ≤ 122 := UInt8.le_iff_toNat_le.mp hrange.2
      obtain rfl := Option.some.inj h
      refine ⟨?_, (hlower ⟨ch.toNat - 97, by omega⟩).trans (hback _ 97 hlow rfl)⟩
      show ch.toNat - 97 + 26 < 64
      omega
    · split at h
      · next hrange =>
        have hlow : 48 ≤ ch.toNat := UInt8.le_iff_toNat_le.mp hrange.1
        have hhigh : ch.toNat ≤ 57 := UInt8.le_iff_toNat_le.mp hrange.2
        obtain rfl := Option.some.inj h
        refine ⟨?_, (hdigit ⟨ch.toNat - 48, by omega⟩).trans (hback _ 48 hlow rfl)⟩
        show ch.toNat - 48 + 52 < 64
        omega
      · split at h
        · next hplus =>
          obtain rfl := Option.some.inj h
          exact ⟨by decide, hplus ▸ by decide⟩
        · split at h
          · next hslash =>
            obtain rfl := Option.some.inj h
            exact ⟨by decide, hslash ▸ by decide⟩
          · cases h

theorem letter_injective {m n : Nat} (hm : m < 64) (hn : n < 64) (h : letter m = letter n) : m = n := by
  have hvalue := base64Value_letter hm
  rw [h, base64Value_letter hn] at hvalue
  exact (Option.some.inj hvalue).symm

theorem letter_ne_sign {n : Nat} (h : n < 64) : letter n ≠ chr '=' := by
  intro hsign
  have hvalue := base64Value_letter h
  rw [hsign, show base64Value (chr '=') = none by decide] at hvalue
  cases hvalue

set_option maxRecDepth 2000 in
theorem isSpace_letter {n : Nat} (h : n < 64) : isSpace (letter n) = false := by
  have hall : ∀ n : Fin 64, isSpace (letter n) = false := by decide
  exact hall ⟨n, h⟩

theorem rfc4648_eq (bytes : Bytes) :
    rfc4648 bytes =
      (sextets bytes).map letter ++ List.replicate ((4 - (sextets bytes).length % 4) % 4) (chr '=') := by
  fun_induction rfc4648 bytes with
  | case1 a b c rest ih =>
    have hlength : (4 - ((sextets rest).length + 1 + 1 + 1 + 1) % 4) % 4 =
        (4 - (sextets rest).length % 4) % 4 := by
      omega
    rw [sextets, ih]
    simp only [List.map_cons, List.length_cons, List.cons_append, hlength]
  | case2 | case3 | case4 => rfl

theorem rfc4648_length (bytes : Bytes) : (rfc4648 bytes).length = (bytes.length + 2) / 3 * 4 := by
  rw [rfc4648_eq, List.length_append, List.length_map, List.length_replicate, sextets_length]
  omega

/-! ## Writer -/

theorem writeAt_append (written free : Bytes) (old b : UInt8) :
    writeAt (written ++ old :: free) written.length b = some (written ++ b :: free) := by
  have hlt : written.length < (written ++ old :: free).length := by
    rw [List.length_append, List.length_cons]
    omega
  rw [writeAt, if_pos hlt, List.set_append_right _ _ (Nat.le_refl _), Nat.sub_self, List.set_cons_zero]

/-- Four writes in a row. -/
theorem writeAt_group (written free : Bytes) (o₁ o₂ o₃ o₄ b₁ b₂ b₃ b₄ : UInt8) {α : Type}
    (next : Bytes → Option α) :
    (do
      let memory ← writeAt (written ++ o₁ :: o₂ :: o₃ :: o₄ :: free) written.length b₁
      let memory ← writeAt memory (written.length + 1) b₂
      let memory ← writeAt memory (written.length + 2) b₃
      let memory ← writeAt memory (written.length + 3) b₄
      next memory) = next (written ++ [b₁, b₂, b₃, b₄] ++ free) := by
  have h₁ := writeAt_append written (o₂ :: o₃ :: o₄ :: free) o₁ b₁
  have h₂ := writeAt_append (written ++ [b₁]) (o₃ :: o₄ :: free) o₂ b₂
  have h₃ := writeAt_append (written ++ [b₁, b₂]) (o₄ :: free) o₃ b₃
  have h₄ := writeAt_append (written ++ [b₁, b₂, b₃]) free o₄ b₄
  simp only [List.append_assoc, List.cons_append, List.nil_append, List.length_append, List.length_cons,
    List.length_nil, Nat.zero_add, Nat.reduceAdd] at h₂ h₃ h₄
  simp only [Option.bind_eq_bind, h₁, h₂, h₃, h₄, Option.bind_some, List.append_assoc, List.cons_append,
    List.nil_append]

/-- The bit operations of the writer are divisions. -/
theorem high_sextet (a : Nat) (h : a < 256) : (a >>> 2) &&& 0x3F = a / 4 := by
  rw [Nat.and_two_pow_sub_one_eq_mod _ 6, Nat.shiftRight_eq_div_pow]
  omega

theorem low_sextet (c : Nat) : c &&& 0x3F = c % 64 := Nat.and_two_pow_sub_one_eq_mod c 6

theorem joined_sextet (a b : Nat) (k l : Nat) (h : b < 2 ^ l) :
    ((a &&& (2 ^ k - 1)) <<< l) ||| b = a % 2 ^ k * 2 ^ l + b := by
  rw [Nat.and_two_pow_sub_one_eq_mod, ← Nat.shiftLeft_add_eq_or_of_lt h, Nat.shiftLeft_eq]

theorem second_sextet (a b : Nat) (h : b < 256) :
    ((a &&& 0x03) <<< 4) ||| ((b >>> 4) &&& 0x0F) = a % 4 * 16 + b / 16 := by
  have hb : (b >>> 4) &&& 0x0F = b / 16 := by
    rw [Nat.and_two_pow_sub_one_eq_mod _ 4, Nat.shiftRight_eq_div_pow]
    omega
  rw [hb]
  exact joined_sextet a (b / 16) 2 4 (by omega)

theorem third_sextet (b c : Nat) (h : c < 256) :
    ((b &&& 0x0F) <<< 2) ||| ((c >>> 6) &&& 0x03) = b % 16 * 4 + c / 64 := by
  have hc : (c >>> 6) &&& 0x03 = c / 64 := by
    rw [Nat.and_two_pow_sub_one_eq_mod _ 2, Nat.shiftRight_eq_div_pow]
    omega
  rw [hc]
  exact joined_sextet b (c / 64) 4 2 (by omega)

theorem encodeLoop_end {input : Bytes} {i : Nat} (h : input.length ≤ i) (rounds cursor : Nat)
    (memory : Bytes) : encodeLoop input rounds i cursor memory = some memory := by
  cases rounds with
  | zero => rfl
  | succ rounds => rw [encodeLoop, if_neg (by omega)]

/-- **What the loop writes**, by induction on the rounds: the input `done` is written already. -/
theorem encodeLoop_append : ∀ (rounds : Nat) (done rest written free : Bytes), rest.length ≤ rounds →
    (rfc4648 rest).length ≤ free.length →
    encodeLoop (done ++ rest) rounds done.length written.length (written ++ free) =
      some (written ++ rfc4648 rest ++ free.drop (rfc4648 rest).length) := by
  intro rounds
  induction rounds with
  | zero =>
    intro done rest written free hrounds _
    obtain rfl := List.eq_nil_of_length_eq_zero (Nat.eq_zero_of_le_zero hrounds)
    rw [encodeLoop, rfc4648, List.append_nil, List.length_nil, List.drop_zero]
  | succ rounds ih =>
    intro done rest written free hrounds hfree
    cases rest with
    | nil =>
      rw [encodeLoop, if_neg (by rw [List.append_nil]; omega), rfc4648, List.append_nil, List.length_nil,
        List.drop_zero]
    | cons a more =>
      have ha := a.toNat_lt
      have hfour : 4 ≤ free.length := by
        rw [rfc4648_length, List.length_cons] at hfree
        omega
      obtain ⟨o₁, o₂, o₃, o₄, free, rfl⟩ : ∃ o₁ o₂ o₃ o₄ tail, free = o₁ :: o₂ :: o₃ :: o₄ :: tail := by
        match free, hfour with
        | o₁ :: o₂ :: o₃ :: o₄ :: tail, _ => exact ⟨o₁, o₂, o₃, o₄, tail, rfl⟩
      have hget : ∀ k, (done ++ a :: more).getD (done.length + k) 0 = (a :: more).getD k 0 := by
        intro k
        rw [List.getD_eq_getElem?_getD, List.getElem?_append_right (Nat.le_add_right _ _),
          Nat.add_sub_cancel_left, ← List.getD_eq_getElem?_getD]
      have hlength : (done ++ a :: more).length = done.length + (more.length + 1) := by
        rw [List.length_append, List.length_cons]
      have hzero := hget 0
      rw [Nat.add_zero] at hzero
      rw [encodeLoop, if_pos (by omega), writeAt_group, hzero, hget 1, hget 2, hlength]
      cases more with
      | nil =>
        have hone : ¬ done.length + 1 < done.length + (([] : Bytes).length + 1) := by
          rw [List.length_nil]
          omega
        have htwo : ¬ done.length + 2 < done.length + (([] : Bytes).length + 1) := by omega
        rw [encodeLoop_end (by rw [hlength, List.length_nil]; omega)]
        simp only [if_neg hone, if_neg htwo, List.getD_cons_zero]
        rw [high_sextet _ ha, second_sextet _ 0 (by decide)]
        rfl
      | cons b more =>
        have hb := b.toNat_lt
        have hone : done.length + 1 < done.length + ((b :: more).length + 1) := by
          rw [List.length_cons]
          omega
        cases more with
        | nil =>
          have htwo : ¬ done.length + 2 < done.length + ([b].length + 1) := by
            rw [List.length_singleton]
            omega
          rw [encodeLoop_end (by rw [hlength, List.length_singleton]; omega)]
          simp only [if_pos hone, if_neg htwo, List.getD_cons_zero, List.getD_cons_succ]
          rw [high_sextet _ ha, second_sextet _ _ hb, third_sextet _ 0 (by decide)]
          rfl
        | cons c more =>
          have hc := c.toNat_lt
          have htwo : done.length + 2 < done.length + ((b :: c :: more).length + 1) := by
            rw [List.length_cons, List.length_cons]
            omega
          simp only [if_pos hone, if_pos htwo, List.getD_cons_zero, List.getD_cons_succ]
          rw [high_sextet _ ha, second_sextet _ _ hb, third_sextet _ _ hc, low_sextet]
          have hround := ih (done ++ [a, b, c]) more
            (written ++ [letter (a.toNat / 4), letter (a.toNat % 4 * 16 + b.toNat / 16),
              letter (b.toNat % 16 * 4 + c.toNat / 64), letter (c.toNat % 64)]) free
            (by simp only [List.length_cons] at hrounds; omega)
            (by simp only [rfc4648, List.length_cons] at hfree; omega)
          simp only [List.append_assoc, List.cons_append, List.nil_append, List.length_append,
            List.length_cons, List.length_nil, Nat.zero_add, Nat.reduceAdd] at hround
          simp only [rfc4648, List.append_assoc, List.cons_append, List.nil_append, List.length_cons,
            List.drop_succ_cons]
          exact hround

/-- **The writer writes base64.** -/
theorem encode_granted {allocate : Allocate} {bytes : Bytes} (h : Granted allocate bytes) :
    encode allocate bytes = some (.ok (rfc4648 bytes)) := by
  obtain ⟨hsize, hmemory⟩ := h
  rw [rfc4648_length] at hsize hmemory
  obtain ⟨⟨memory, hlength⟩, hallocate⟩ := Option.isSome_iff_exists.mp hmemory
  have hloop := encodeLoop_append bytes.length [] bytes [] memory (Nat.le_refl _) (by
    rw [rfc4648_length, hlength]
    omega)
  simp only [List.nil_append, List.length_nil] at hloop
  unfold encode
  dsimp only
  have hfits : ¬ (sizeMax < bytes.length + 2 ∨ sizeMax < (bytes.length + 2) / 3 * 4 ∨
      sizeMax < (bytes.length + 2) / 3 * 4 + 1) := by
    rw [sizeMax] at hsize ⊢
    omega
  obtain ⟨last, hlast⟩ : ∃ last, memory.drop (rfc4648 bytes).length = [last] := by
    rw [← List.length_eq_one_iff, List.length_drop, rfc4648_length]
    omega
  rw [if_neg hfits, hallocate]
  dsimp only
  rw [hloop, hlast, Option.bind_eq_bind, Option.bind_some, ← rfc4648_length, writeAt_append, Option.bind_some,
    List.take_left]
  rfl

theorem encode_refused {allocate : Allocate} {bytes : Bytes} (h : ¬ Granted allocate bytes) :
    encode allocate bytes = some Status.noMemory := by
  unfold encode
  dsimp only
  split
  · rfl
  · next hfits =>
    have hnone : allocate ((bytes.length + 2) / 3 * 4 + 1) = none := by
      rw [← Option.not_isSome_iff_eq_none]
      intro hsome
      refine h ⟨?_, ?_⟩
      · rw [rfc4648_length]
        omega
      · rw [rfc4648_length]
        exact hsome
    rw [hnone]

/-! ## Reader -/

/-- A sextet behind fewer than six bits, or behind six. -/
theorem push_eq (state : Decoding) {value : Nat} (hbuffer : state.buffer < 64) (hvalue : value < 64) :
    state.push value =
      if 2 ≤ state.bits then
        { state with
          buffer := (state.buffer * 64 + value) % 2 ^ (state.bits - 2)
          bits := state.bits - 2
          out := state.out ++ [UInt8.ofNat ((state.buffer * 64 + value) / 2 ^ (state.bits - 2) % 256)] }
      else { state with buffer := state.buffer * 64 + value, bits := state.bits + 6 } := by
  have hjoin : ((state.buffer <<< 6) % 2 ^ 32) ||| value = state.buffer * 64 + value := by
    rw [Nat.shiftLeft_eq, Nat.mod_eq_of_lt (by omega), ← Nat.shiftLeft_eq,
      ← Nat.shiftLeft_add_eq_or_of_lt (by omega : value < 2 ^ 6), Nat.shiftLeft_eq]
  have hbits : state.bits + 6 - 8 = state.bits - 2 := by omega
  unfold Decoding.push
  dsimp only
  rw [hjoin, hbits]
  split
  · rw [if_pos (by omega), Nat.one_shiftLeft, Nat.and_two_pow_sub_one_eq_mod, Nat.shiftRight_eq_div_pow,
      Nat.and_two_pow_sub_one_eq_mod _ 8]
  · rw [if_neg (by omega)]

theorem decodeStep_letter {state : Decoding} (hpad : state.padding = false) {v : Nat} (hv : v < 64) :
    decodeStep state (letter v) = .ok (state.push v) := by
  rw [decodeStep, isSpace_letter hv, if_neg Bool.false_ne_true, if_neg (letter_ne_sign hv),
    base64Value_letter hv, hpad]
  rfl

section Group

variable (out : Bytes) {w x y z : Nat}

/-! The four letters of a group. -/

theorem decodeStep_first (hw : w < 64) :
    decodeStep { out := out } (letter w) = .ok { buffer := w, bits := 6, out := out } := by
  rw [decodeStep_letter rfl hw, push_eq _ (show 0 < 64 by decide) hw, if_neg (show ¬ 2 ≤ 0 by decide)]
  simp only [Nat.zero_mul, Nat.zero_add]

theorem decodeStep_second (hw : w < 64) (hx : x < 64) :
    decodeStep { buffer := w, bits := 6, out := out } (letter x) =
      .ok { buffer := x % 16, bits := 4, out := out ++ [UInt8.ofNat (w * 4 + x / 16)] } := by
  have hlow : (w * 64 + x) % 2 ^ 4 = x % 16 := by omega
  have hbyte : (w * 64 + x) / 2 ^ 4 % 256 = w * 4 + x / 16 := by omega
  rw [decodeStep_letter rfl hx, push_eq _ hw hx, if_pos (show 2 ≤ 6 by decide)]
  simp only [Nat.reduceSub, hlow, hbyte]

theorem decodeStep_third (hy : y < 64) :
    decodeStep { buffer := x % 16, bits := 4, out := out } (letter y) =
      .ok { buffer := y % 4, bits := 2, out := out ++ [UInt8.ofNat (x % 16 * 16 + y / 4)] } := by
  have hlow : (x % 16 * 64 + y) % 2 ^ 2 = y % 4 := by omega
  have hbyte : (x % 16 * 64 + y) / 2 ^ 2 % 256 = x % 16 * 16 + y / 4 := by omega
  rw [decodeStep_letter rfl hy, push_eq _ (show x % 16 < 64 by omega) hy, if_pos (show 2 ≤ 4 by decide)]
  simp only [Nat.reduceSub, hlow, hbyte]

theorem decodeStep_fourth (hz : z < 64) :
    decodeStep { buffer := y % 4, bits := 2, out := out } (letter z) =
      .ok { out := out ++ [UInt8.ofNat (y % 4 * 64 + z)] } := by
  have hlow : (y % 4 * 64 + z) % 2 ^ 0 = 0 := by omega
  have hbyte : (y % 4 * 64 + z) / 2 ^ 0 % 256 = y % 4 * 64 + z := by omega
  rw [decodeStep_letter rfl hz, push_eq _ (show y % 4 < 64 by omega) hz, if_pos (show 2 ≤ 2 by decide)]
  simp only [Nat.reduceSub, hlow, hbyte]

end Group

theorem foldlM_of_step {state next : Decoding} {ch : UInt8} (rest : Bytes)
    (h : decodeStep state ch = .ok next) :
    (ch :: rest).foldlM decodeStep state = rest.foldlM decodeStep next := by
  rw [List.foldlM_cons, h]
  rfl

/-- **What letters are read as**, four at a time. -/
theorem decode_letters (vs : List Nat) : ∀ out : Bytes, (∀ v ∈ vs, v < 64) → ∃ buffer bits,
    (vs.map letter).foldlM decodeStep { out := out } =
      .ok { buffer := buffer, bits := bits, out := out ++ bytesOf vs } := by
  fun_induction bytesOf vs with
  | case1 w x y z rest ih =>
    intro out hvs
    simp only [List.forall_mem_cons] at hvs
    obtain ⟨hw, hx, hy, hz, hrest⟩ := hvs
    obtain ⟨buffer, bits, hloop⟩ := ih (out ++ [UInt8.ofNat (w * 4 + x / 16)] ++
      [UInt8.ofNat (x % 16 * 16 + y / 4)] ++ [UInt8.ofNat (y % 4 * 64 + z)]) hrest
    refine ⟨buffer, bits, ?_⟩
    simp only [List.map_cons]
    rw [foldlM_of_step _ (decodeStep_first out hw), foldlM_of_step _ (decodeStep_second _ hw hx),
      foldlM_of_step _ (decodeStep_third _ hy), foldlM_of_step _ (decodeStep_fourth _ hz), hloop]
    simp only [List.append_assoc, List.cons_append, List.nil_append]
  | case2 w x y =>
    intro out hvs
    simp only [List.forall_mem_cons] at hvs
    obtain ⟨hw, hx, hy, -⟩ := hvs
    refine ⟨y % 4, 2, ?_⟩
    simp only [List.map_cons, List.map_nil]
    rw [foldlM_of_step _ (decodeStep_first out hw), foldlM_of_step _ (decodeStep_second _ hw hx),
      foldlM_of_step _ (decodeStep_third _ hy), List.append_assoc]
    rfl
  | case3 w x =>
    intro out hvs
    simp only [List.forall_mem_cons] at hvs
    obtain ⟨hw, hx, -⟩ := hvs
    refine ⟨x % 16, 4, ?_⟩
    simp only [List.map_cons, List.map_nil]
    rw [foldlM_of_step _ (decodeStep_first out hw), foldlM_of_step _ (decodeStep_second _ hw hx)]
    rfl
  | case4 w =>
    intro out hvs
    refine ⟨w, 6, ?_⟩
    simp only [List.map_cons, List.map_nil]
    rw [foldlM_of_step _ (decodeStep_first out (hvs w List.mem_cons_self)), List.append_nil]
    rfl
  | case5 =>
    intro out _
    exact ⟨0, 0, by rw [List.append_nil]; rfl⟩

/-- White space is passed over. -/
theorem foldlM_strip (text : Bytes) : ∀ state : Decoding,
    text.foldlM decodeStep state = (strip text).foldlM decodeStep state := by
  induction text with
  | nil => exact fun _ => rfl
  | cons ch text ih =>
    intro state
    cases hspace : isSpace ch with
    | true =>
      have hdropped : strip (ch :: text) = strip text :=
        List.filter_cons_of_neg (by rw [hspace]; exact Bool.false_ne_true)
      rw [hdropped, List.foldlM_cons, decodeStep, if_pos hspace]
      exact ih state
    | false =>
      have hkept : strip (ch :: text) = ch :: strip text := List.filter_cons_of_pos (by rw [hspace]; rfl)
      rw [hkept, List.foldlM_cons, List.foldlM_cons]
      exact congrArg _ (funext ih)

/-- The signs at the end only set the flag. -/
theorem foldlM_signs (pads : Nat) : ∀ state : Decoding, ∃ padding,
    (List.replicate pads (chr '=')).foldlM decodeStep state = .ok { state with padding := padding } := by
  induction pads with
  | zero => exact fun state => ⟨state.padding, rfl⟩
  | succ pads ih =>
    intro state
    obtain ⟨padding, hloop⟩ := ih { state with padding := true }
    refine ⟨padding, ?_⟩
    rw [List.replicate_succ, List.foldlM_cons, decodeStep, if_neg (by decide), if_pos rfl]
    exact hloop

/-- **Letters and signs** are read as the bytes of the letters. -/
theorem decode_of_shape {text : Bytes} {vs : List Nat} {pads : Nat} (hvs : ∀ v ∈ vs, v < 64)
    (hshape : strip text = vs.map letter ++ List.replicate pads (chr '=')) :
    decode text = if bytesOf vs = [] then Status.invalidArgument "sc.channel_webhook.base64_empty"
      else .ok (bytesOf vs) := by
  obtain ⟨buffer, bits, hletters⟩ := decode_letters vs [] hvs
  obtain ⟨padding, hsigns⟩ := foldlM_signs pads { buffer := buffer, bits := bits, out := bytesOf vs }
  have hloop : (strip text).foldlM decodeStep {} =
      .ok { buffer := buffer, bits := bits, padding := padding, out := bytesOf vs } := by
    rw [hshape, List.foldlM_append, hletters]
    exact hsigns
  rw [decode, foldlM_strip, hloop]
  rfl

/-- **What is accepted** is letters and signs, and behind a sign no letter. -/
theorem shape_of_foldlM (text : Bytes) : ∀ state state' : Decoding, (∀ ch ∈ text, isSpace ch = false) →
    text.foldlM decodeStep state = .ok state' → ∃ vs pads, (∀ v ∈ vs, v < 64) ∧
      text = vs.map letter ++ List.replicate pads (chr '=') ∧ (state.padding = true → vs = []) := by
  induction text with
  | nil => exact fun _ _ _ _ => ⟨[], 0, fun v hv => absurd hv List.not_mem_nil, rfl, fun _ => rfl⟩
  | cons ch text ih =>
    intro state state' hspace hloop
    rw [List.forall_mem_cons] at hspace
    rw [List.foldlM_cons] at hloop
    obtain ⟨next, hstep, hrest⟩ := Res.bind_eq_ok.mp hloop
    obtain ⟨vs, pads, hvs, htext, hpadding⟩ := ih next state' hspace.2 hrest
    rw [decodeStep, hspace.1, if_neg Bool.false_ne_true] at hstep
    split at hstep
    · next hsign =>
      -- a sign: nothing but signs behind it
      obtain rfl := Except.ok.inj hstep
      refine ⟨[], pads + 1, fun v hv => absurd hv List.not_mem_nil, ?_, fun _ => rfl⟩
      rw [hsign, htext, hpadding rfl]
      rfl
    · cases hvalue : base64Value ch with
      | none =>
        rw [hvalue] at hstep
        cases hstep
      | some v =>
        rw [hvalue] at hstep
        obtain ⟨hv, hletter⟩ := letter_of_value hvalue
        cases hpad : state.padding with
        | true =>
          rw [hpad] at hstep
          cases hstep
        | false =>
          refine ⟨v :: vs, pads, List.forall_mem_cons.mpr ⟨hv, hvs⟩, ?_, fun h => absurd h Bool.false_ne_true⟩
          rw [htext, List.map_cons, hletter]
          rfl

/-! ## Result -/

theorem strip_no_space (text : Bytes) : ∀ ch ∈ strip text, isSpace ch = false := by
  intro ch hch
  have hkept := (List.mem_filter.mp hch).2
  rwa [Bool.not_eq_true'] at hkept

theorem accepted_shape {text out : Bytes} (h : decode text = .ok out) :
    ∃ vs pads, (∀ v ∈ vs, v < 64) ∧ strip text = vs.map letter ++ List.replicate pads (chr '=') ∧
      2 ≤ vs.length ∧ out = bytesOf vs := by
  have hfold := h
  rw [decode, foldlM_strip] at hfold
  obtain ⟨state, hloop, -⟩ := Res.bind_eq_ok.mp hfold
  obtain ⟨vs, pads, hvs, hshape, -⟩ := shape_of_foldlM (strip text) {} state (strip_no_space text) hloop
  rw [decode_of_shape hvs hshape] at h
  split at h
  · cases h
  · next hne => exact ⟨vs, pads, hvs, hshape, (bytesOf_ne_nil_iff vs).mp hne, (Except.ok.inj h).symm⟩

/-- The letters of two texts of letters and signs are the same ones. -/
theorem letters_unique {vs vs' : List Nat} {pads pads' : Nat} (hvs : ∀ v ∈ vs, v < 64)
    (hvs' : ∀ v ∈ vs', v < 64)
    (h : vs.map letter ++ List.replicate pads (chr '=') = vs'.map letter ++ List.replicate pads' (chr '=')) :
    vs = vs' := by
  induction vs generalizing vs' with
  | nil =>
    cases vs' with
    | nil => rfl
    | cons v' vs' =>
      cases pads with
      | zero => exact absurd h (List.cons_ne_nil _ _).symm
      | succ pads =>
        have hhead := (List.cons.inj h).1
        exact absurd hhead.symm (letter_ne_sign (hvs' v' List.mem_cons_self))
  | cons v vs ih =>
    cases vs' with
    | nil =>
      cases pads' with
      | zero => exact absurd h (List.cons_ne_nil _ _)
      | succ pads' =>
        have hhead := (List.cons.inj h).1
        exact absurd hhead (letter_ne_sign (hvs v List.mem_cons_self))
    | cons v' vs' =>
      rw [List.forall_mem_cons] at hvs hvs'
      obtain ⟨hhead, htail⟩ := List.cons.inj h
      rw [letter_injective hvs.1 hvs'.1 hhead, ih hvs.2 hvs'.2 htail]

/-- **Base64 media survives** exactly if the text is not cut off. -/
theorem survives_iff (allocate : Allocate) (bytes text : Bytes) :
    Survives allocate bytes text ↔ ¬ CutOff text := by
  constructor
  · rintro hsurvives ⟨vs, pads, hvs, hshape, hlength, hcut⟩
    have hdecode := decode_of_shape hvs hshape
    rw [if_neg ((bytesOf_ne_nil_iff vs).mpr hlength)] at hdecode
    have hwhole := hsurvives.whole _ hdecode
    rw [hshape, rfc4648_eq] at hwhole
    have hsame := letters_unique hvs (sextets_lt _) hwhole
    rw [← hsame] at hwhole
    have hpads := congrArg List.length (List.append_cancel_left hwhole)
    rw [List.length_replicate, List.length_replicate] at hpads
    exact hcut ⟨(sextets_bytesOf_iff hvs).mp hsame.symm, hpads⟩
  · intro huncut
    refine ⟨encode_granted, encode_refused, fun hne hstrip => ?_, fun out hdecode => ?_⟩
    · rw [rfc4648_eq] at hstrip
      rw [decode_of_shape (sextets_lt bytes) hstrip, bytesOf_sextets, if_neg hne]
    · obtain ⟨vs, pads, hvs, hshape, hlength, rfl⟩ := accepted_shape hdecode
      have hfull : Whole vs ∧ pads = (4 - vs.length % 4) % 4 := by
        by_contra hcut
        exact huncut ⟨vs, pads, hvs, hshape, hlength, hcut⟩
      rw [rfc4648_eq, (sextets_bytesOf_iff hvs).mpr hfull.1, hshape, hfull.2]

/-- **A lone last letter is dropped.** -/
theorem lone_letter_dropped :
    ¬ ∀ (allocate : Allocate) (bytes text : Bytes), Survives allocate bytes text := by
  intro hall
  have hwhole := (hall (fun _ => none) [] (str "QUJDR")).whole (str "ABC") (by rfl)
  exact absurd (congrArg List.length hwhole) (by decide)

end SmolClaw.Media
