/-
  Ogg, the container: pages, the packets they hold, and the checksum each carries.

  1. **Fields** — numbers are little-endian of a fixed width: `le` writes and `ofLe` reads them, and what
     is read back is the number modulo the width (`ofLe_le`).

  2. **The checksum** — a register of 32 bits that takes the message in bit by bit, the most significant
     bit of each byte first, with the generator `0x04c11db7`, no initial value and no final change
     (`crc`).  `crc_eq_foldl` is the usual program for it: a whole byte goes in at the top and the
     register is shifted eight times.

  3. **Pages** — a `Page` is a header, a table of lacing values and a body as long as the table says; both
     bounds are fields of the structure.  `readPage` takes one page off the front of a byte string and
     `readPages` takes a string apart completely.  **Pages written one behind the other are read back as
     they are** (`readPages_flatMap`).

  4. **Packets** — `Page.packets` joins a page's segments by the lacing rule: a packet goes on behind a
     segment of 255 bytes and ends at the first shorter one.  `lace` is the table for a single packet,
     also for one whose length is a multiple of 255, and `unlace_lace` reads that packet back.

  5. **Deliveries** — what a writer that gives each packet a page of its own has to deliver, and the
     pages for it: `stream` numbers them from zero and seals each with its checksum.
-/
import Mathlib.Algebra.Group.Nat.Defs
import Mathlib.Algebra.GroupWithZero.Nat
import Mathlib.Data.List.Basic
import Mathlib.Data.Nat.Basic
import Mathlib.Logic.Function.Iterate

namespace Lib.Ogg

/-! ## Little-endian fields -/

/-- `v` in `width` bytes, the low byte first. -/
def le : Nat → Nat → List UInt8
  | 0, _ => []
  | width + 1, v => UInt8.ofNat v :: le width (v / 256)

/-- The number that bytes stand for, the low byte first. -/
def ofLe : List UInt8 → Nat
  | [] => 0
  | b :: bytes => b.toNat + 256 * ofLe bytes

@[simp] theorem length_le (width v : Nat) : (le width v).length = width := by
  induction width generalizing v with
  | zero => rfl
  | succ width ih => rw [le, List.length_cons, ih]

/-- **A field holds a number modulo its width.** -/
theorem ofLe_le (width v : Nat) : ofLe (le width v) = v % 256 ^ width := by
  induction width generalizing v with
  | zero => rw [le, ofLe, Nat.pow_zero, Nat.mod_one]
  | succ width ih =>
    have hlow : (UInt8.ofNat v).toNat = v % 256 := UInt8.toNat_ofNat'
    rw [le, ofLe, ih, hlow, Nat.pow_succ, Nat.mul_comm (256 ^ width), Nat.mod_mul]

theorem ofLe_le_of_lt {width v : Nat} (h : v < 256 ^ width) : ofLe (le width v) = v := by
  rw [ofLe_le, Nat.mod_eq_of_lt h]

/-! ## The checksum -/

/-- One bit goes into the register. -/
def crcBit (register : BitVec 32) (bit : Bool) : BitVec 32 :=
  if (register.msb ^^ bit) = true then (register <<< 1) ^^^ 0x04c11db7#32 else register <<< 1

/-- The bits of a byte, the most significant first. -/
def byteBits (b : UInt8) : List Bool := (List.range 8).map b.toBitVec.getMsbD

/-- **The checksum of a byte string**: all its bits go through the register. -/
def crc (bytes : List UInt8) : BitVec 32 := (bytes.flatMap byteBits).foldl crcBit 0

/-- The register is shifted once, and reduced by the generator when a one leaves it. -/
def crcShift (register : BitVec 32) : BitVec 32 :=
  if register.msb = true then (register <<< 1) ^^^ 0x04c11db7#32 else register <<< 1

/-- A shift of the register with a word laid over it is one bit of the word going in. -/
theorem crcShift_xor (register word : BitVec 32) :
    crcShift (register ^^^ word) = crcBit register word.msb ^^^ (word <<< 1) := by
  unfold crcShift crcBit
  rw [BitVec.msb_xor, BitVec.shiftLeft_xor_distrib]
  split
  next => ac_rfl
  next => rfl

/-- `n` shifts take in the `n` top bits of the word. -/
theorem crcShift_iterate (register word : BitVec 32) (n : Nat) :
    crcShift^[n] (register ^^^ word) =
      ((List.range n).map word.getMsbD).foldl crcBit register ^^^ (word <<< n) := by
  induction n with
  | zero => rw [BitVec.shiftLeft_zero]; rfl
  | succ n ih =>
    rw [Function.iterate_succ_apply', ih, crcShift_xor, BitVec.msb_shiftLeft, List.range_succ,
      List.map_append, List.foldl_append, BitVec.shiftLeft_add]
    rfl

/-- The usual step of a program: a byte is laid over the top of the register, and eight shifts follow. -/
def crcByte (register : BitVec 32) (b : UInt8) : BitVec 32 :=
  crcShift^[8] (register ^^^ (b.toBitVec.setWidth 32 <<< 24))

/-- Eight shifts take in the byte and nothing else. -/
theorem crcByte_eq (register : BitVec 32) (b : UInt8) :
    crcByte register b = (byteBits b).foldl crcBit register := by
  have hbits : (List.range 8).map (b.toBitVec.setWidth 32 <<< 24).getMsbD = byteBits b := by
    refine List.map_congr_left fun i hi => ?_
    have hlt : i < 8 := List.mem_range.mp hi
    rw [BitVec.getMsbD_shiftLeft, BitVec.getMsbD_setWidth, show i + 24 + 8 - 32 = i by omega]
    simp only [show 32 - 8 ≤ i + 24 by omega, decide_true, Bool.true_and]
  have hgone : (b.toBitVec.setWidth 32 <<< 24) <<< 8 = 0#32 := by
    rw [← BitVec.shiftLeft_add]
    exact BitVec.shiftLeft_eq_zero (by decide)
  rw [crcByte, crcShift_iterate, hbits, hgone, BitVec.xor_zero]

/-- **The program computes the checksum**: byte for byte it is the register that takes in the bits. -/
theorem crc_eq_foldl (bytes : List UInt8) : crc bytes = bytes.foldl crcByte 0 := by
  have hfrom : ∀ register, (bytes.flatMap byteBits).foldl crcBit register = bytes.foldl crcByte register := by
    induction bytes with
    | nil => intro register; rfl
    | cons b bytes ih =>
      intro register
      rw [List.flatMap_cons, List.foldl_append, List.foldl_cons, ih, crcByte_eq]
  exact hfrom 0

/-! ## Pages -/

/-- `OggS` -/
def capture : List UInt8 := [0x4f, 0x67, 0x67, 0x53]

/-- The bytes that a lacing table stands for. -/
def laced (lacing : List UInt8) : Nat := (lacing.map UInt8.toNat).sum

/-- A page.  Its table has at most 255 entries, and its body is as long as they say. -/
@[ext] structure Page where
  flags : UInt8
  granule : UInt64
  serial : UInt32
  sequence : UInt32
  checksum : UInt32
  lacing : List UInt8
  body : List UInt8
  lacing_le : lacing.length ≤ 255
  body_length : body.length = laced lacing

namespace Page

/-- The first packet of the page began on an earlier one. -/
def Continued (page : Page) : Prop := page.flags &&& 1 ≠ 0

/-- Beginning of stream. -/
def Bos (page : Page) : Prop := page.flags &&& 2 ≠ 0

/-- End of stream. -/
def Eos (page : Page) : Prop := page.flags &&& 4 ≠ 0

/-- What stands in front of the checksum. -/
def front (page : Page) : List UInt8 :=
  capture ++ [0, page.flags] ++ le 8 page.granule.toNat ++ le 4 page.serial.toNat ++ le 4 page.sequence.toNat

/-- The fixed part of a page, up to the number of lacing values. -/
def header (page : Page) : List UInt8 :=
  page.front ++ le 4 page.checksum.toNat ++ [UInt8.ofNat page.lacing.length]

/-- A page as it is written. -/
def bytes (page : Page) : List UInt8 := page.header ++ page.lacing ++ page.body

/-- What stands behind the checksum. -/
def back (page : Page) : List UInt8 := UInt8.ofNat page.lacing.length :: page.lacing ++ page.body

/-- **The checksum fits**: it is that of the page with the field zeroed. -/
def Sealed (page : Page) : Prop := page.checksum.toBitVec = crc { page with checksum := 0 }.bytes

theorem length_front (page : Page) : page.front.length = 22 := by
  simp [front, capture]

theorem length_header (page : Page) : page.header.length = 27 := by
  simp [header, length_front]

/-- The checksum stands at byte 22, and neither side of it depends on it. -/
theorem bytes_eq (page : Page) : page.bytes = page.front ++ le 4 page.checksum.toNat ++ page.back := by
  simp only [bytes, header, back, List.append_assoc, List.cons_append, List.nil_append]

theorem bytes_ne_nil (page : Page) : page.bytes ≠ [] := by
  intro h
  have hlen := congrArg List.length h
  rw [bytes, List.length_append, List.length_append, length_header, List.length_nil] at hlen
  omega

end Page

/-- The number in the `width` bytes at an offset. -/
def field (bytes : List UInt8) (offset width : Nat) : Nat := ofLe ((bytes.drop offset).take width)

/-- The number of lacing values that a header announces. -/
def lacingCount (bytes : List UInt8) : Nat := (bytes.getD 26 0).toNat

/-- Take one page off the front: the capture pattern, version 0, the whole header, the table and as many
    bytes as it says. -/
def readPage (bytes : List UInt8) : Option (Page × List UInt8) :=
  let lacing := (bytes.drop 27).take (lacingCount bytes)
  let body := (bytes.drop (27 + lacingCount bytes)).take (laced lacing)
  if h : 27 ≤ bytes.length ∧ bytes.take 5 = capture ++ [0] ∧ lacing.length = lacingCount bytes ∧
      body.length = laced lacing then
    some
      ({ flags := bytes.getD 5 0, granule := UInt64.ofNat (field bytes 6 8)
         serial := UInt32.ofNat (field bytes 14 4), sequence := UInt32.ofNat (field bytes 18 4)
         checksum := UInt32.ofNat (field bytes 22 4), lacing, body
         lacing_le := by rw [h.2.2.1]; exact Nat.le_of_lt_succ (bytes.getD 26 0).toNat_lt
         body_length := h.2.2.2 },
        bytes.drop (27 + lacingCount bytes + laced lacing))
  else none

theorem length_readPage {bytes rest : List UInt8} {page : Page} (h : readPage bytes = some (page, rest)) :
    rest.length < bytes.length := by
  unfold readPage at h
  dsimp only at h
  split at h
  next hread =>
    have hrest := (Prod.mk.inj (Option.some.inj h)).2
    rw [← hrest, List.length_drop]
    omega
  next => exact absurd h nofun

/-- Take a byte string apart into its pages. -/
def readPages (bytes : List UInt8) : Option (List Page) :=
  if bytes = [] then some [] else
    match _h : readPage bytes with
    | none => none
    | some (page, rest) => (readPages rest).map (page :: ·)
termination_by bytes.length
decreasing_by exact length_readPage ‹_›

/-- The page that stands in front of anything is read, and what follows is left. -/
theorem readPage_bytes (page : Page) (rest : List UInt8) :
    readPage (page.bytes ++ rest) = some (page, rest) := by
  have hlen := page.length_header
  have hcount : lacingCount (page.bytes ++ rest) = page.lacing.length := by
    have hbyte : (page.bytes ++ rest).getD 26 0 = UInt8.ofNat page.lacing.length := by
      simp [Page.bytes, Page.header, Page.front, capture, le]
    rw [lacingCount, hbyte]
    exact UInt8.toNat_ofNat'.trans (Nat.mod_eq_of_lt (Nat.lt_succ_of_le page.lacing_le))
  have hlacing : ((page.bytes ++ rest).drop 27).take page.lacing.length = page.lacing := by
    rw [Page.bytes, List.append_assoc, List.append_assoc, ← hlen, List.drop_left, List.take_left]
  have hbehind : (page.bytes ++ rest).drop (27 + page.lacing.length) = page.body ++ rest := by
    rw [Page.bytes, List.append_assoc, ← hlen, ← List.length_append, List.drop_left]
  have hbody : ((page.bytes ++ rest).drop (27 + page.lacing.length)).take (laced page.lacing) = page.body := by
    rw [hbehind, ← page.body_length, List.take_left]
  have hrest : (page.bytes ++ rest).drop (27 + page.lacing.length + laced page.lacing) = rest := by
    rw [← List.drop_drop, hbehind, ← page.body_length, List.drop_left]
  have hread : 27 ≤ (page.bytes ++ rest).length ∧ (page.bytes ++ rest).take 5 = capture ++ [0] ∧
      True ∧ page.body.length = laced page.lacing := by
    refine ⟨?_, rfl, trivial, page.body_length⟩
    rw [Page.bytes, List.append_assoc, List.append_assoc, List.length_append, hlen]
    omega
  simp only [readPage, hcount, hlacing, hbody, hrest]
  rw [dif_pos hread]
  refine congrArg (fun p => some (p, rest)) ?_
  ext1
  case flags => rfl
  case lacing => rfl
  case body => rfl
  case granule =>
    show UInt64.ofNat (ofLe (le 8 page.granule.toNat)) = page.granule
    rw [ofLe_le_of_lt page.granule.toNat_lt, UInt64.ofNat_toNat]
  case serial =>
    show UInt32.ofNat (ofLe (le 4 page.serial.toNat)) = page.serial
    rw [ofLe_le_of_lt page.serial.toNat_lt, UInt32.ofNat_toNat]
  case sequence =>
    show UInt32.ofNat (ofLe (le 4 page.sequence.toNat)) = page.sequence
    rw [ofLe_le_of_lt page.sequence.toNat_lt, UInt32.ofNat_toNat]
  case checksum =>
    show UInt32.ofNat (ofLe (le 4 page.checksum.toNat)) = page.checksum
    rw [ofLe_le_of_lt page.checksum.toNat_lt, UInt32.ofNat_toNat]

/-- **Pages written one behind the other are read back as they are.** -/
theorem readPages_flatMap (pages : List Page) : readPages (pages.flatMap Page.bytes) = some pages := by
  induction pages with
  | nil => rw [List.flatMap_nil, readPages, if_pos rfl]
  | cons page pages ih =>
    have hne : page.bytes ++ pages.flatMap Page.bytes ≠ [] := by
      simp only [ne_eq, List.append_eq_nil_iff, page.bytes_ne_nil, false_and, not_false_eq_true]
    have hread := readPage_bytes page (pages.flatMap Page.bytes)
    rw [List.flatMap_cons, readPages, if_neg hne]
    split
    next h => exact absurd (hread.symm.trans h) nofun
    next front rest h =>
      obtain ⟨rfl, rfl⟩ := Prod.mk.inj (Option.some.inj (hread.symm.trans h))
      rw [ih, Option.map_some]

/-! ## Packets -/

/-- Join the segments of a body: the packets that end in it, and what is left open behind the last of
    them.  `pending` is the packet that goes on. -/
def unlace (pending : List UInt8) : List UInt8 → List UInt8 → List (List UInt8) × List UInt8
  | [], _ => ([], pending)
  | value :: lacing, body =>
    if value = 255 then unlace (pending ++ body.take 255) lacing (body.drop 255)
    else
      let behind := unlace [] lacing (body.drop value.toNat)
      ((pending ++ body.take value.toNat) :: behind.1, behind.2)

/-- The packets of a page that none goes on from. -/
def Page.packets (page : Page) : List (List UInt8) × List UInt8 := unlace [] page.lacing page.body

/-- The table for one packet of `n` bytes: as many full segments as it has, and a shorter one, which is
    empty when `n` is a multiple of 255. -/
def lace (n : Nat) : List UInt8 := List.replicate (n / 255) 255 ++ [UInt8.ofNat (n % 255)]

theorem lace_of_lt {n : Nat} (h : n < 255) : lace n = [UInt8.ofNat n] := by
  rw [lace, Nat.div_eq_of_lt h, Nat.mod_eq_of_lt h]
  rfl

theorem lace_add (n : Nat) : lace (n + 255) = 255 :: lace n := by
  rw [lace, Nat.add_div_right n (by decide), Nat.add_mod_right, List.replicate_succ]
  rfl

theorem length_lace (n : Nat) : (lace n).length = n / 255 + 1 := by
  rw [lace, List.length_append, List.length_replicate]
  rfl

/-- What a short segment's byte stands for. -/
theorem toNat_ofNat_of_lt {n : Nat} (h : n < 255) : (UInt8.ofNat n).toNat = n :=
  UInt8.toNat_ofNat'.trans (Nat.mod_eq_of_lt (by omega))

/-- The table accounts for the whole packet. -/
theorem laced_lace (n : Nat) : laced (lace n) = n := by
  have hshort : n % 255 < 255 := Nat.mod_lt n (by decide)
  rw [laced, lace, List.map_append, List.map_replicate, List.sum_append, List.sum_replicate_nat, List.map_singleton,
    List.sum_singleton, toNat_ofNat_of_lt hshort]
  show n / 255 * 255 + n % 255 = n
  omega

/-- **The packet is read back**, whatever its length is: the segment behind the full ones ends it. -/
theorem unlace_lace (pending packet : List UInt8) :
    unlace pending (lace packet.length) packet = ([pending ++ packet], []) := by
  induction hn : packet.length using Nat.strongRecOn generalizing pending packet with
  | ind n ih =>
    by_cases hlt : n < 255
    case pos =>
      have hvalue : UInt8.ofNat n ≠ 255 := by
        intro h
        have hn := congrArg UInt8.toNat h
        rw [toNat_ofNat_of_lt hlt] at hn
        exact absurd hn (Nat.ne_of_lt hlt)
      rw [lace_of_lt hlt, unlace, if_neg hvalue, toNat_ofNat_of_lt hlt, ← hn, List.take_length]
      rfl
    case neg =>
      obtain ⟨m, rfl⟩ : ∃ m, n = m + 255 := ⟨n - 255, by omega⟩
      have hdrop : (packet.drop 255).length = m := by rw [List.length_drop]; omega
      rw [lace_add, unlace, if_pos rfl, ih m (by omega) _ _ hdrop, List.append_assoc, List.take_append_drop]

/-! ## Deliveries -/

/-- One packet for one page. -/
structure Delivery where
  flags : UInt8
  granule : UInt64
  packet : List UInt8
  /-- The table has a place for the segment that ends the packet. -/
  fits : packet.length / 255 < 255

namespace Delivery

/-- The page before its checksum is known. -/
def blank (d : Delivery) (serial sequence : UInt32) : Page :=
  { flags := d.flags, granule := d.granule, serial, sequence, checksum := 0, lacing := lace d.packet.length
    body := d.packet
    lacing_le := by rw [length_lace]; exact d.fits
    body_length := (laced_lace d.packet.length).symm }

/-- The page for a packet, sealed with its checksum. -/
def page (d : Delivery) (serial sequence : UInt32) : Page :=
  { d.blank serial sequence with checksum := UInt32.ofBitVec (crc (d.blank serial sequence).bytes) }

/-- Sealing a page changes its checksum alone. -/
theorem page_bytes (d : Delivery) (serial sequence : UInt32) :
    (d.page serial sequence).bytes = (d.blank serial sequence).front ++
      le 4 (crc (d.blank serial sequence).bytes).toNat ++ (d.blank serial sequence).back := by
  rw [page, Page.bytes_eq, UInt32.toNat_ofBitVec]
  rfl

/-- The page holds the packet and nothing else. -/
theorem page_packets (d : Delivery) (serial sequence : UInt32) :
    (d.page serial sequence).packets = ([d.packet], []) := unlace_lace [] d.packet

theorem page_sealed (d : Delivery) (serial sequence : UInt32) : (d.page serial sequence).Sealed := by
  have hblank : { d.page serial sequence with checksum := 0 } = d.blank serial sequence := rfl
  rw [Page.Sealed, hblank, page]

end Delivery

/-- The pages of a stream, numbered from zero.  The number is a field of 32 bits. -/
def stream (serial : UInt32) (ds : List Delivery) : List Page :=
  ds.mapIdx fun i d => d.page serial (UInt32.ofNat i)

/-- One delivery more is one page more. -/
theorem stream_concat (serial : UInt32) (ds : List Delivery) (d : Delivery) :
    stream serial (ds ++ [d]) = stream serial ds ++ [d.page serial (UInt32.ofNat ds.length)] :=
  List.mapIdx_concat

@[simp] theorem length_stream (serial : UInt32) (ds : List Delivery) : (stream serial ds).length = ds.length :=
  List.length_mapIdx

theorem getElem_stream {serial : UInt32} {ds : List Delivery} {i : Nat} (hi : i < (stream serial ds).length) :
    (stream serial ds)[i] = (ds.get ⟨i, length_stream serial ds ▸ hi⟩).page serial (UInt32.ofNat i) :=
  List.getElem_mapIdx

/-- A page of the stream is one of the deliveries. -/
theorem exists_of_mem_stream {serial : UInt32} {ds : List Delivery} {page : Page} (h : page ∈ stream serial ds) :
    ∃ d ∈ ds, ∃ sequence, page = d.page serial sequence := by
  obtain ⟨i, hi, rfl⟩ := List.getElem_of_mem h
  exact ⟨_, List.getElem_mem _, _, getElem_stream hi⟩

/-- The pages are numbered from zero. -/
theorem stream_sequence (serial : UInt32) (ds : List Delivery) :
    (stream serial ds).map Page.sequence = (List.range ds.length).map UInt32.ofNat := by
  refine List.ext_getElem (by rw [List.length_map, length_stream, List.length_map, List.length_range]) ?_
  intro i hi hi'
  rw [List.length_map] at hi
  rw [List.getElem_map, getElem_stream hi, List.getElem_map, List.getElem_range]
  rfl

/-- What depends on the delivery alone is told by the deliveries. -/
theorem stream_map {β : Type*} {f : Page → β} {g : Delivery → β}
    (hf : ∀ (d : Delivery) (serial sequence : UInt32), f (d.page serial sequence) = g d) (serial : UInt32)
    (ds : List Delivery) : (stream serial ds).map f = ds.map g := by
  refine List.ext_getElem (by rw [List.length_map, length_stream, List.length_map]) fun i hi hi' => ?_
  simp only [stream, List.getElem_map, List.getElem_mapIdx, hf]

end Lib.Ogg
