/-
  Device frames (`sc_hardware_protocol_parse_frame`, `src/hardware/hardware.c`).

  1. **Specification** — `IsFrame`: the magic byte, a known command, the length of the payload in two bytes,
     the payload, and the sum of all these modulo 256.

  2. **Parsing** — `parseFrame_iff`: the parser accepts exactly the frames.

  3. **Detection** — the sum of a frame without its last byte is that last byte.  A byte changed in front of it
     alters the sum by less than 256, and a changed last byte alters only the byte (`IsFrame.changed`); a
     string that is cut or has grown has not the length that its third and fourth byte say
     (`IsFrame.length`).
-/
import Mathlib.Algebra.GroupWithZero.Nat
import SmolClaw.Hardware.Board

namespace SmolClaw.Hardware

/-! ## Specification -/

/-- The sum of bytes. -/
def byteSum (s : Bytes) : Nat := (s.map UInt8.toNat).sum

/-- What stands in front of the checksum. -/
def frameBody (commandId high low : UInt8) (payload : Bytes) : Bytes :=
  0x5a :: commandId :: high :: low :: payload

/-- **A frame** with a payload of at most `limit` bytes. -/
structure IsFrame (limit : Nat) (frame : Bytes) (parsed : HardwareFrame) : Prop where
  known : 1 ≤ parsed.commandId ∧ parsed.commandId ≤ 4
  bounded : parsed.payload.length ≤ limit
  layout : ∃ high low checksum : UInt8, parsed.payload.length = high.toNat * 256 + low.toNat ∧
    checksum.toNat = byteSum (frameBody parsed.commandId high low parsed.payload) % 256 ∧
    frame = frameBody parsed.commandId high low parsed.payload ++ [checksum]

/-- Exactly one byte is another one. -/
def OneByteChanged (frame other : Bytes) : Prop :=
  ∃ s b c t, b ≠ c ∧ frame = s ++ b :: t ∧ other = s ++ c :: t

/-- Bytes are dropped at the end. -/
def CutShort (frame other : Bytes) : Prop := ∃ t, t ≠ [] ∧ frame = other ++ t

/-- Frames are parsed exactly, and damaged ones are refused under any limit. -/
structure ExactAndSafe (frame : Bytes) (limit : Nat) : Prop where
  exact : ∀ parsed, hardwareProtocolParseFrame frame limit = .ok parsed ↔ IsFrame limit frame parsed
  safe : ∀ parsed, hardwareProtocolParseFrame frame limit = .ok parsed → ∀ other,
    OneByteChanged frame other ∨ CutShort frame other ∨ CutShort other frame →
    ∀ bound wrong, hardwareProtocolParseFrame other bound ≠ .ok wrong

/-! ## Sums -/

theorem byteSum_append (s t : Bytes) : byteSum (s ++ t) = byteSum s + byteSum t := by
  rw [byteSum, List.map_append, List.sum_append]
  rfl

theorem byteSum_cons (b : UInt8) (s : Bytes) : byteSum (b :: s) = b.toNat + byteSum s := by
  rw [byteSum, List.map_cons, List.sum_cons]
  rfl

/-- The checksum loop adds modulo 256. -/
theorem checksum_toNat (s : Bytes) : (hardwareProtocolFrameChecksum s).toNat = byteSum s % 256 := by
  have hloop : ∀ (s : Bytes) (acc : UInt8), (s.foldl (· + ·) acc).toNat = (acc.toNat + byteSum s) % 256 := by
    intro s
    induction s with
    | nil =>
      intro acc
      have hacc := acc.toNat_lt
      show acc.toNat = (acc.toNat + 0) % 256
      omega
    | cons b s ih =>
      intro acc
      rw [List.foldl_cons, ih, byteSum_cons, UInt8.toNat_add]
      omega
  rw [hardwareProtocolFrameChecksum, hloop s 0]
  show (0 + byteSum s) % 256 = _
  rw [Nat.zero_add]

/-! ## Parsing -/

/-- The checks of the parser, for a string of at least five bytes. -/
theorem parseFrame_long (magic commandId high low : UInt8) {rest : Bytes} (hrest : rest ≠ []) (limit : Nat)
    (parsed : HardwareFrame) :
    hardwareProtocolParseFrame (magic :: commandId :: high :: low :: rest) limit = .ok parsed ↔
      magic = 0x5a ∧ (1 ≤ commandId ∧ commandId ≤ 4) ∧ high.toNat * 256 + low.toNat ≤ limit ∧
      rest.length = high.toNat * 256 + low.toNat + 1 ∧
      hardwareProtocolFrameChecksum (magic :: commandId :: high :: low :: rest).dropLast =
        (magic :: commandId :: high :: low :: rest).getLastD 0 ∧
      parsed = ⟨commandId, rest.take (high.toNat * 256 + low.toNat)⟩ := by
  have hlength : (magic :: commandId :: high :: low :: rest).length = rest.length + 4 := rfl
  rw [hardwareProtocolParseFrame, if_neg hrest]
  dsimp only
  rw [hlength]
  constructor
  · intro h
    split at h
    · cases h
    · next hmagic =>
      split at h
      · cases h
      · next hcommand =>
        split at h
        · cases h
        · next hbound =>
          split at h
          · cases h
          · next hshort =>
            split at h
            · cases h
            · next hlong =>
              split at h
              · cases h
              · next hsum =>
                cases h
                rw [not_or, UInt8.not_lt, UInt8.not_lt] at hcommand
                exact ⟨not_not.mp hmagic, hcommand, by omega, by omega, not_not.mp hsum, rfl⟩
  · rintro ⟨hmagic, hcommand, hbound, hlen, hsum, rfl⟩
    have hknown : ¬ (commandId < 1 ∨ 4 < commandId) := by
      rw [not_or, UInt8.not_lt, UInt8.not_lt]
      exact hcommand
    rw [if_neg (not_not_intro hmagic), if_neg hknown, if_neg (by omega), if_neg (by omega), if_neg (by omega),
      if_neg (not_not_intro hsum)]

/-- A string of fewer than five bytes is no frame. -/
theorem parseFrame_short {frame : Bytes} (h : frame.length < 5) (limit : Nat) (parsed : HardwareFrame) :
    hardwareProtocolParseFrame frame limit ≠ .ok parsed := by
  intro hok
  unfold hardwareProtocolParseFrame at hok
  split at hok
  · cases hok
  · next rest =>
    have hrest : rest = [] := by
      refine List.eq_nil_of_length_eq_zero ?_
      simp only [List.length_cons] at h
      omega
    rw [if_pos hrest] at hok
    cases hok
  · cases hok

/-- **The parser accepts exactly the frames.** -/
theorem parseFrame_iff (frame : Bytes) (limit : Nat) (parsed : HardwareFrame) :
    hardwareProtocolParseFrame frame limit = .ok parsed ↔ IsFrame limit frame parsed := by
  constructor
  · intro hok
    rcases Nat.lt_or_ge frame.length 5 with hshort | hlong
    · exact absurd hok (parseFrame_short hshort limit parsed)
    · obtain ⟨magic, commandId, high, low, rest, rfl, hrest⟩ :
          ∃ magic commandId high low rest, frame = magic :: commandId :: high :: low :: rest ∧ rest ≠ [] := by
        match frame, hlong with
        | magic :: commandId :: high :: low :: b :: rest, _ =>
          exact ⟨magic, commandId, high, low, b :: rest, rfl, List.cons_ne_nil b rest⟩
      obtain ⟨rfl, hcommand, hbound, hlen, hsum, rfl⟩ :=
        (parseFrame_long magic commandId high low hrest limit parsed).mp hok
      obtain ⟨payload, checksum, rfl⟩ : ∃ payload checksum, rest = payload ++ [checksum] :=
        ⟨rest.dropLast, rest.getLast hrest, (List.dropLast_append_getLast hrest).symm⟩
      rw [List.length_append, List.length_singleton] at hlen
      have hpayload : payload.length = high.toNat * 256 + low.toNat := by omega
      have htake : (payload ++ [checksum]).take (high.toNat * 256 + low.toNat) = payload := by
        rw [← hpayload, List.take_left]
      have happ : (0x5a :: commandId :: high :: low :: (payload ++ [checksum])) =
          frameBody commandId high low payload ++ [checksum] := rfl
      rw [happ, List.dropLast_concat, List.getLastD_concat] at hsum
      refine ⟨hcommand, ?_, high, low, checksum, ?_, ?_, ?_⟩
      · rw [htake]
        show payload.length ≤ limit
        omega
      · rw [htake, hpayload]
      · rw [htake, ← hsum]
        exact checksum_toNat _
      · rw [htake]
        rfl
  · rintro ⟨hcommand, hbound, high, low, checksum, hlen, hsum, rfl⟩
    have happ : frameBody parsed.commandId high low parsed.payload ++ [checksum] =
        0x5a :: parsed.commandId :: high :: low :: (parsed.payload ++ [checksum]) := rfl
    have hne : parsed.payload ++ [checksum] ≠ [] := List.append_ne_nil_of_right_ne_nil _ (List.cons_ne_nil _ _)
    have hcheck : hardwareProtocolFrameChecksum (frameBody parsed.commandId high low parsed.payload) =
        checksum := UInt8.toNat_inj.mp ((checksum_toNat _).trans hsum.symm)
    rw [happ, parseFrame_long _ _ _ _ hne]
    refine ⟨rfl, hcommand, hlen ▸ hbound, ?_, ?_, ?_⟩
    · rw [List.length_append, List.length_singleton, hlen]
    · rw [← happ, List.dropLast_concat, List.getLastD_concat]
      exact hcheck
    · rw [← hlen, List.take_left]

/-! ## Detection -/

/-- The last byte is the sum of the others. -/
theorem IsFrame.checksum {limit : Nat} {frame : Bytes} {parsed : HardwareFrame} (h : IsFrame limit frame parsed) :
    ∃ body checksum, frame = body ++ [checksum] ∧ checksum.toNat = byteSum body % 256 := by
  obtain ⟨high, low, checksum, -, hsum, rfl⟩ := h.layout
  exact ⟨_, checksum, rfl, hsum⟩

/-- The third and the fourth byte say how long a frame is. -/
theorem IsFrame.length {limit : Nat} {frame : Bytes} {parsed : HardwareFrame} (h : IsFrame limit frame parsed) :
    ∃ magic commandId high low rest, frame = magic :: commandId :: high :: low :: rest ∧
      frame.length = high.toNat * 256 + low.toNat + 5 := by
  obtain ⟨high, low, checksum, hlen, -, rfl⟩ := h.layout
  refine ⟨_, _, high, low, parsed.payload ++ [checksum], rfl, ?_⟩
  rw [frameBody, ← hlen]
  simp only [List.cons_append, List.length_cons, List.length_append, List.length_nil]

/-- **A changed byte is detected.** -/
theorem IsFrame.changed {limit bound : Nat} {frame other : Bytes} {parsed wrong : HardwareFrame}
    (h : IsFrame limit frame parsed) (hchange : OneByteChanged frame other) : ¬ IsFrame bound other wrong := by
  intro hother
  obtain ⟨body, checksum, hframe, hsum⟩ := h.checksum
  obtain ⟨body', checksum', hframe', hsum'⟩ := hother.checksum
  obtain ⟨s, b, c, t, hne, hb, hc⟩ := hchange
  have hvalue : b.toNat ≠ c.toNat := fun he => hne (UInt8.toNat_inj.mp he)
  rcases List.eq_nil_or_concat t with rfl | ⟨t, x, rfl⟩
  · -- the checksum is changed, and what it is the sum of is not
    obtain ⟨rfl, hlast⟩ := List.append_inj' (hframe.symm.trans hb) rfl
    obtain ⟨rfl, hlast'⟩ := List.append_inj' (hframe'.symm.trans hc) rfl
    cases hlast
    cases hlast'
    omega
  · -- a byte of the sum is changed, and the checksum is not
    rw [List.concat_eq_append, ← List.cons_append, ← List.append_assoc] at hb hc
    obtain ⟨rfl, hlast⟩ := List.append_inj' (hframe.symm.trans hb) rfl
    obtain ⟨rfl, hlast'⟩ := List.append_inj' (hframe'.symm.trans hc) rfl
    cases hlast
    cases hlast'
    have hblt := b.toNat_lt
    have hclt := c.toNat_lt
    rw [byteSum_append, byteSum_cons] at hsum hsum'
    omega

/-- **A cut frame is detected**, and so is one that has grown. -/
theorem IsFrame.cut {limit bound : Nat} {frame other : Bytes} {parsed wrong : HardwareFrame}
    (h : IsFrame limit frame parsed) (hcut : CutShort frame other) : ¬ IsFrame bound other wrong := by
  intro hother
  obtain ⟨magic, commandId, high, low, rest, hframe, hlen⟩ := h.length
  obtain ⟨magic', commandId', high', low', rest', hframe', hlen'⟩ := hother.length
  obtain ⟨t, ht, rfl⟩ := hcut
  rw [hframe'] at hframe
  cases hframe
  have hgrown := List.length_pos_iff.mpr ht
  rw [List.length_append] at hlen
  omega

/-- **Frames are parsed exactly**, and a changed byte, dropped bytes and appended bytes are detected. -/
theorem frames_exact (frame : Bytes) (limit : Nat) : ExactAndSafe frame limit where
  exact := parseFrame_iff frame limit
  safe parsed hok other hdamage bound wrong hwrong := by
    have hframe := (parseFrame_iff frame limit parsed).mp hok
    have hother := (parseFrame_iff other bound wrong).mp hwrong
    rcases hdamage with hchange | hcut | hgrown
    · exact hframe.changed hchange hother
    · exact hframe.cut hcut hother
    · exact hother.cut hgrown hframe

example : hardwareProtocolParseFrame [0x5a, 3, 0, 1, 13, 0x6b] 16 = .ok ⟨3, [13]⟩ := by decide

end SmolClaw.Hardware
