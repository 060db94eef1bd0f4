/-
  Voice replies as Ogg Opus: WAV in, a stream of Ogg pages out (`sc_media_wav_to_ogg_opus`).

  1. **The input** — `parseWav` walks over the chunks of a RIFF file and takes 16-bit PCM of one to eight
     channels; `wavToMonoPcm` averages the channels of each frame, and `resampleTo48k` picks for every
     sample at 48 kHz the nearest one of the input.  `pcm48Of` is the three in a row.

  2. **The encoder** — libopus is not part of the repository.  `OpusEncoder` is what the code sees of it:
     whether it starts, the lookahead it reports, and a packet of 1 to 4000 bytes for the frames given so
     far, or a failure.

  3. **The writer** — `oggWritePage` appends a header whose checksum field is zero, then the packet, and
     computes the checksum over what it appended before it writes it into the buffer.  The buffer is
     bounded by `maxOutputBytes`, which is zero for no bound.

  4. **What a run writes** — `Written` is the writer's invariant: its buffer is the stream of what has been
     delivered so far, and its sequence number counts it.  One call of `oggWritePage` is one delivery more
     (`oggWritePage_written`), and the loop over the frames delivers the encoder's packets in order
     (`encodeFrames_run`).

  5. **The main result** — `mediaWavToOggOpus_wellFormed`: whenever there is output, the Ogg reader takes
     it apart into pages that make a well formed Opus stream of the samples.

  Allocations succeed: with one that fails the function returns no output at all.
-/
import Mathlib.Algebra.Ring.Int.Defs
import SmolClaw.Core.Status
import SmolClaw.Lib.Ogg
import Mathlib.Data.Int.Basic

namespace SmolClaw

open Lib.Ogg

/-! ## The input -/

/-- `wav_info` -/
structure WavInfo where
  format : Nat := 0
  channels : Nat := 0
  sampleRate : Nat := 0
  bitsPerSample : Nat := 0
  data : Bytes := []

/-- What `parse_wav` has found so far. -/
structure WavScan where
  info : WavInfo := {}
  haveFmt : Bool := false
  haveData : Bool := false

/-- `read_le16` -/
def readLe16 (bytes : Bytes) (offset : Nat) : Nat := field bytes offset 2

/-- `read_le32` -/
def readLe32 (bytes : Bytes) (offset : Nat) : Nat := field bytes offset 4

/-- One chunk of `parse_wav`: the format and the samples are kept, others are passed over. -/
def scanChunk (id : Bytes) (chunkSize : Nat) (data : Bytes) (scan : WavScan) : Res WavScan :=
  if id = str "fmt " then
    if chunkSize < 16 then Status.parse "sc.media.wav.malformed"
    else .ok { scan with
      info := { scan.info with
        format := readLe16 data 0, channels := readLe16 data 2, sampleRate := readLe32 data 4
        bitsPerSample := readLe16 data 14 }
      haveFmt := true }
  else if id = str "data" then
    .ok { scan with info := { scan.info with data := data.take chunkSize }, haveData := true }
  else .ok scan

/-- The loop of `parse_wav` over what stands from the offset on. -/
def scanChunks (rest : Bytes) (scan : WavScan) : Res WavScan :=
  if rest.length < 8 then .ok scan
  else
    let chunkSize := readLe32 rest 4
    let data := rest.drop 8
    let paddedSize := chunkSize + chunkSize % 2
    if data.length < chunkSize then Status.parse "sc.media.wav.malformed"
    else
      match scanChunk (rest.take 4) chunkSize data scan with
      | .error e => .error e
      | .ok scan =>
        if data.length < paddedSize then Status.parse "sc.media.wav.malformed"
        else scanChunks (data.drop paddedSize) scan
termination_by rest.length
decreasing_by simp only [List.length_drop]; omega

/-- The formats that are taken. -/
def WavInfo.Supported (info : WavInfo) : Prop :=
  ¬(info.format ≠ 1 ∨ info.bitsPerSample ≠ 16 ∨ info.channels = 0 ∨ 8 < info.channels ∨ info.sampleRate = 0)

instance (info : WavInfo) : Decidable info.Supported := inferInstanceAs (Decidable (¬_))

/-- `parse_wav` -/
def parseWav (wav : Bytes) : Res WavInfo :=
  if wav.length < 44 then Status.parse "sc.media.wav.malformed"
  else if wav.take 4 ≠ str "RIFF" ∨ (wav.drop 8).take 4 ≠ str "WAVE" then
    Status.parse "sc.media.wav.malformed"
  else
    match scanChunks (wav.drop 12) {} with
    | .error e => .error e
    | .ok scan =>
      if !scan.haveFmt || !scan.haveData || scan.info.data.isEmpty then Status.parse "sc.media.wav.malformed"
      else if ¬scan.info.Supported then Status.unsupported "sc.media.wav.unsupported_format"
      else .ok scan.info

/-- The channels of frame `i`, averaged. -/
def monoSample (info : WavInfo) (i : Nat) : Int16 :=
  let sum := ((List.range info.channels).map fun channel =>
    (Int16.ofNat (readLe16 info.data ((i * info.channels + channel) * 2))).toInt).sum
  Int16.ofInt (sum.tdiv info.channels)

/-- `wav_to_mono_pcm` -/
def wavToMonoPcm (info : WavInfo) : Res (List Int16) :=
  let frameBytes := info.channels * 2
  let frameCount := info.data.length / frameBytes
  if frameBytes = 0 then Status.noMemory
  else if info.data.length % frameBytes ≠ 0 then Status.parse "sc.media.wav.malformed"
  else if frameCount = 0 ∨ sizeMax / 2 < frameCount then
    Status.securityDenied "sc.media.opus.input_too_large"
  else .ok ((List.range frameCount).map (monoSample info))

/-- `opus_output_sample_rate` -/
def opusOutputSampleRate : Nat := 48000

/-- The input sample that stands nearest to output sample `i`. -/
def resampled (input : List Int16) (inputRate i : Nat) : Int16 :=
  let source := (i * inputRate + opusOutputSampleRate / 2) / opusOutputSampleRate
  input.getD (if input.length ≤ source then input.length - 1 else source) 0

/-- `resample_to_48k` -/
def resampleTo48k (input : List Int16) (inputRate : Nat) : Res (List Int16) :=
  let outputCount := (input.length * opusOutputSampleRate + inputRate - 1) / inputRate
  if input.isEmpty ∨ inputRate = 0 then Status.invalidArgument "sc.media.opus.invalid_argument"
  else if sizeMax / opusOutputSampleRate - inputRate < input.length then
    Status.securityDenied "sc.media.opus.input_too_large"
  else if outputCount = 0 ∨ sizeMax / 2 < outputCount then
    Status.securityDenied "sc.media.opus.input_too_large"
  else .ok ((List.range outputCount).map (resampled input inputRate))

/-- The samples at 48 kHz that a WAV file stands for. -/
def pcm48Of (wav : Bytes) : Res (List Int16) :=
  parseWav wav >>= fun info => wavToMonoPcm info >>= fun mono => resampleTo48k mono info.sampleRate

/-! ## The encoder -/

/-- `opus_frame_samples` -/
def opusFrameSamples : Nat := 960

/-- `opus_max_packet_bytes` -/
def opusMaxPacketBytes : Nat := 4000

/-- libopus as the code sees it.  A packet depends on all frames given so far, the last of which is the
    one to encode. -/
structure OpusEncoder where
  /-- `opus_encoder_init` succeeds. -/
  starts : Bool
  /-- `OPUS_GET_LOOKAHEAD`, when it succeeds. -/
  lookahead : Option Int
  /-- `opus_encode`; nothing for a count that is not positive. -/
  encode : List (List Int16) → Option Bytes
  encode_length : ∀ frames packet, encode frames = some packet →
    1 ≤ packet.length ∧ packet.length ≤ opusMaxPacketBytes

/-- The lookahead the code accepts. -/
def OpusEncoder.initialise (opus : OpusEncoder) : Res Nat :=
  match opus.starts, opus.lookahead with
  | true, some lookahead =>
    if lookahead < 0 ∨ 65535 < lookahead then Status.io "sc.media.opus.encoder_init_failed"
    else .ok lookahead.toNat
  | _, _ => Status.io "sc.media.opus.encoder_init_failed"

/-! ## The writer -/

/-- `ogg_writer` -/
structure OggWriter where
  bytes : Bytes
  maxOutputBytes : Nat
  serial : UInt32
  sequence : UInt32

/-- `ogg_serial_for_input` -/
def oggSerialForInput (wav : Bytes) : UInt32 :=
  let hash := wav.foldl (fun hash b => (hash ^^^ b.toUInt32) * 16777619) 2166136261
  if hash = 0 then 1 else hash

/-- `ogg_writer_init` -/
def OggWriter.init (wav : Bytes) (maxOutputBytes : Nat) : OggWriter :=
  ⟨[], maxOutputBytes, oggSerialForInput wav, 0⟩

/-- `append_checked` -/
def appendChecked (w : OggWriter) (input : Bytes) : Res OggWriter :=
  let bytes := w.bytes ++ input
  if sizeMax < bytes.length + 1 then Status.noMemory
  else if 0 < w.maxOutputBytes ∧ w.maxOutputBytes < bytes.length then
    Status.securityDenied "sc.media.opus.output_too_large"
  else .ok { w with bytes }

/-- One round of the loop of `ogg_crc_update`. -/
def oggCrcShift (crc : UInt32) : UInt32 :=
  if crc &&& 0x80000000 ≠ 0 then (crc <<< 1) ^^^ 0x04c11db7 else crc <<< 1

/-- `ogg_crc_update` -/
def oggCrcUpdate (crc : UInt32) (value : UInt8) : UInt32 := oggCrcShift^[8] (crc ^^^ (value.toUInt32 <<< 24))

/-- `ogg_crc` -/
def oggCrc (bytes : Bytes) : UInt32 := bytes.foldl oggCrcUpdate 0

/-- The lacing loop of `ogg_write_page`: `count` values for what remains. -/
def lacingValues : Nat → Nat → Bytes
  | 0, _ => []
  | count + 1, remaining =>
    let segment := if 255 ≤ remaining then 255 else remaining
    UInt8.ofNat segment :: lacingValues count (remaining - segment)

/-- The header of a page as `ogg_write_page` lays it down, without its checksum. -/
def pageHeader (w : OggWriter) (flags : UInt8) (granulePosition : UInt64) (lacingCount packetLen : Nat) : Bytes :=
  str "OggS" ++ [0, flags] ++ le 8 granulePosition.toNat ++ le 4 w.serial.toNat ++ le 4 w.sequence.toNat ++
    [0, 0, 0, 0] ++ [UInt8.ofNat lacingCount] ++ lacingValues lacingCount packetLen

/-- Bytes written over those at an offset. -/
def overwrite (bytes : Bytes) (offset : Nat) (field : Bytes) : Bytes :=
  bytes.take offset ++ field ++ bytes.drop (offset + field.length)

/-- The end of `ogg_write_page`: the checksum of what stands behind `pageStart` is written into it. -/
def sealPage (w : OggWriter) (pageStart : Nat) : OggWriter :=
  { w with
    bytes := overwrite w.bytes (pageStart + 22) (le 4 (oggCrc (w.bytes.drop pageStart)).toNat)
    sequence := w.sequence + 1 }

/-- `ogg_write_page` -/
def oggWritePage (w : OggWriter) (packet : Bytes) (flags : UInt8) (granulePosition : UInt64) : Res OggWriter :=
  let lacingCount := packet.length / 255 + 1
  if 255 < lacingCount then Status.securityDenied "sc.media.opus.packet_too_large"
  else
    appendChecked w (pageHeader w flags granulePosition lacingCount packet.length) >>= fun w' =>
      appendChecked w' packet >>= fun w'' => .ok (sealPage w'' w.bytes.length)

/-- The packet of `ogg_write_opus_head`: version 1, one channel, the samples to skip, the rate of the
    input, no gain and the mapping family 0. -/
def opusHead (preSkip : Nat) : Bytes :=
  str "OpusHead" ++ [1, 1] ++ le 2 preSkip ++ le 4 opusOutputSampleRate ++ [0, 0] ++ [0]

/-- The packet of `ogg_write_opus_tags`: the vendor and no comments. -/
def opusTags : Bytes := str "OpusTags" ++ le 4 8 ++ str "SmolClaw" ++ le 4 0

/-- `ogg_write_opus_headers` -/
def oggWriteOpusHeaders (w : OggWriter) (preSkip : Nat) : Res OggWriter :=
  oggWritePage w (opusHead preSkip) 2 0 >>= fun w => oggWritePage w opusTags 0 0

/-- The next frame: the samples there are, and silence behind the last. -/
def frameOf (rest : List Int16) : List Int16 :=
  rest.take opusFrameSamples ++ List.replicate (opusFrameSamples - rest.length) 0

/-- The loop over the frames.  `rest` are the samples from `offset` on, and `past` the frames the encoder
    has been given. -/
def encodeFrames (opus : OpusEncoder) (lookahead : Nat) (past : List (List Int16)) (offset : Nat)
    (rest : List Int16) (w : OggWriter) : Res OggWriter :=
  if rest = [] then .ok w
  else
    let available := if opusFrameSamples < rest.length then opusFrameSamples else rest.length
    let flags : UInt8 := if opusFrameSamples < rest.length then 0 else 4
    match opus.encode (past ++ [frameOf rest]) with
    | none => Status.io "sc.media.opus.encode_failed"
    | some packet =>
      match oggWritePage w packet flags (UInt64.ofNat (lookahead + offset + available)) with
      | .error e => .error e
      | .ok w =>
        encodeFrames opus lookahead (past ++ [frameOf rest]) (offset + opusFrameSamples)
          (rest.drop opusFrameSamples) w
termination_by rest.length
decreasing_by
  have hpos : 0 < rest.length := List.length_pos_iff.mpr ‹_›
  rw [List.length_drop, opusFrameSamples]
  omega

/-- `sc_media_wav_to_ogg_opus` -/
def mediaWavToOggOpus (opus : OpusEncoder) (wav : Bytes) (maxOutputBytes : Nat) : Res Bytes :=
  pcm48Of wav >>= fun pcm48 => opus.initialise >>= fun lookahead =>
    oggWriteOpusHeaders (.init wav maxOutputBytes) lookahead >>= fun w =>
      encodeFrames opus lookahead [] 0 pcm48 w >>= fun w => .ok w.bytes

/-! ## What a run writes -/

/-- The mask of the register's top bit. -/
theorem and_topBit (crc : UInt32) : crc &&& 0x80000000 ≠ 0 ↔ crc.toBitVec.msb = true := by
  have hmask : (crc &&& 0x80000000).toBitVec = if crc.toBitVec.msb then BitVec.twoPow 32 31 else 0#32 := by
    rw [UInt32.toBitVec_and, show (0x80000000 : UInt32).toBitVec = BitVec.twoPow 32 31 by decide,
      BitVec.and_twoPow, BitVec.msb_eq_getLsbD_last]
  rw [ne_eq, ← UInt32.toBitVec_inj, hmask]
  cases crc.toBitVec.msb <;> decide

theorem oggCrcShift_toBitVec (crc : UInt32) : (oggCrcShift crc).toBitVec = crcShift crc.toBitVec := by
  unfold oggCrcShift crcShift
  by_cases hmsb : crc.toBitVec.msb = true
  · rw [if_pos ((and_topBit crc).mpr hmsb), if_pos hmsb]
    rfl
  · rw [if_neg (mt (and_topBit crc).mp hmsb), if_neg hmsb]
    rfl

theorem oggCrcUpdate_toBitVec (crc : UInt32) (value : UInt8) :
    (oggCrcUpdate crc value).toBitVec = crcByte crc.toBitVec value := by
  have hshifts : ∀ (n : Nat) (crc : UInt32), (oggCrcShift^[n] crc).toBitVec = crcShift^[n] crc.toBitVec := by
    intro n
    induction n with
    | zero => intro crc; rfl
    | succ n ih =>
      intro crc
      rw [Function.iterate_succ_apply, Function.iterate_succ_apply, ih, oggCrcShift_toBitVec]
  rw [oggCrcUpdate, hshifts, crcByte]
  rfl

/-- **The program computes the Ogg checksum.** -/
theorem oggCrc_toBitVec (bytes : Bytes) : (oggCrc bytes).toBitVec = crc bytes := by
  have hfold : ∀ crc : UInt32,
      (bytes.foldl oggCrcUpdate crc).toBitVec = bytes.foldl crcByte crc.toBitVec := by
    induction bytes with
    | nil => intro crc; rfl
    | cons b bytes ih =>
      intro crc
      rw [List.foldl_cons, List.foldl_cons, ih, oggCrcUpdate_toBitVec]
  rw [oggCrc, hfold, crc_eq_foldl]
  rfl

/-- The lacing loop writes the table for one packet, and uses up what remains. -/
theorem lacingValues_eq (len : Nat) : lacingValues (len / 255 + 1) len = lace len := by
  induction len using Nat.strongRecOn with
  | ind len ih =>
    by_cases hlt : len < 255
    case pos =>
      rw [lace_of_lt hlt, Nat.div_eq_of_lt hlt, lacingValues, if_neg (by omega)]
      rfl
    case neg =>
      obtain ⟨m, rfl⟩ : ∃ m, len = m + 255 := ⟨len - 255, by omega⟩
      rw [lace_add, Nat.add_div_right m (by decide), lacingValues, if_pos (by omega), Nat.add_sub_cancel,
        ih m (by omega)]
      rfl

/-- The writer's invariant: the buffer is the stream of the deliveries so far, numbered from zero. -/
structure Written (serial : UInt32) (ds : List Delivery) (w : OggWriter) : Prop where
  bytes : w.bytes = (stream serial ds).flatMap Page.bytes
  serial : w.serial = serial
  sequence : w.sequence = UInt32.ofNat ds.length

theorem OggWriter.written_init (wav : Bytes) (maxOutputBytes : Nat) :
    Written (oggSerialForInput wav) [] (.init wav maxOutputBytes) := ⟨rfl, rfl, rfl⟩

theorem appendChecked_eq_ok {w w' : OggWriter} {input : Bytes} (h : appendChecked w input = .ok w') :
    w' = { w with bytes := w.bytes ++ input } := by
  unfold appendChecked at h
  dsimp only at h
  split at h
  next => exact absurd h nofun
  next =>
    split at h
    next => exact absurd h nofun
    next => exact (Except.ok.inj h).symm

/-- The header and the packet are the page without its checksum. -/
theorem pageHeader_eq (w : OggWriter) (d : Delivery) :
    pageHeader w d.flags d.granule (d.packet.length / 255 + 1) d.packet.length ++ d.packet =
      (d.blank w.serial w.sequence).bytes := by
  have hcount : UInt8.ofNat (d.packet.length / 255 + 1) =
      UInt8.ofNat (d.blank w.serial w.sequence).lacing.length :=
    congrArg UInt8.ofNat (length_lace d.packet.length).symm
  have hcapture : str "OggS" = capture := by decide
  have hzero : ([0, 0, 0, 0] : Bytes) = le 4 (d.blank w.serial w.sequence).checksum.toNat := by
    show _ = le 4 (0 : UInt32).toNat
    decide
  rw [pageHeader, lacingValues_eq, hcount, hcapture, hzero]
  rfl

/-- Bytes written over as many others. -/
theorem overwrite_append {a b c field : Bytes} {offset : Nat} (ha : a.length = offset)
    (hb : b.length = field.length) : overwrite (a ++ b ++ c) offset field = a ++ field ++ c := by
  have htake : (a ++ b ++ c).take offset = a := by rw [List.append_assoc, ← ha, List.take_left]
  have hdrop : (a ++ b ++ c).drop (offset + field.length) = c := by
    rw [← ha, ← hb, ← List.length_append, List.drop_left]
  rw [overwrite, htake, hdrop]

/-- **The checksum is written into the page it was computed over**, wherever the page stands. -/
theorem sealPage_bytes {w : OggWriter} {d : Delivery} {before : Bytes} {serial sequence : UInt32}
    (hw : w.bytes = before ++ (d.blank serial sequence).bytes) :
    (sealPage w before.length).bytes = before ++ (d.page serial sequence).bytes := by
  have hcrc : (oggCrc (w.bytes.drop before.length)).toNat = (crc (d.blank serial sequence).bytes).toNat := by
    rw [hw, List.drop_left, ← UInt32.toNat_toBitVec, oggCrc_toBitVec]
  have hfront : (before ++ (d.blank serial sequence).front).length = before.length + 22 := by
    rw [List.length_append, Page.length_front]
  have hblank : w.bytes = (before ++ (d.blank serial sequence).front) ++
      le 4 (d.blank serial sequence).checksum.toNat ++ (d.blank serial sequence).back := by
    rw [hw, Page.bytes_eq, List.append_assoc, List.append_assoc, List.append_assoc]
  rw [sealPage, hcrc, hblank, overwrite_append hfront (by rw [length_le, length_le]), d.page_bytes]
  simp only [List.append_assoc]

/-- **One call is one delivery more.** -/
theorem oggWritePage_written {w w' : OggWriter} {serial : UInt32} {ds : List Delivery} {packet : Bytes}
    {flags : UInt8} {granulePosition : UInt64} (hw : Written serial ds w)
    (h : oggWritePage w packet flags granulePosition = .ok w') :
    ∃ d : Delivery, d.packet = packet ∧ d.flags = flags ∧ d.granule = granulePosition ∧
      Written serial (ds ++ [d]) w' := by
  unfold oggWritePage at h
  dsimp only at h
  split at h
  next => exact absurd h nofun
  next hfits =>
    obtain ⟨w₁, h₁, h⟩ := Res.bind_eq_ok.mp h
    obtain ⟨w₂, h₂, h⟩ := Res.bind_eq_ok.mp h
    obtain rfl := appendChecked_eq_ok h₁
    obtain rfl := appendChecked_eq_ok h₂
    obtain rfl := Except.ok.inj h
    let d : Delivery := ⟨flags, granulePosition, packet, by omega⟩
    refine ⟨d, rfl, rfl, rfl, ?_, hw.serial, ?_⟩
    · have hpage := pageHeader_eq w d
      rw [stream_concat, List.flatMap_append, List.flatMap_singleton, ← hw.bytes, ← hw.serial, ← hw.sequence]
      refine sealPage_bytes ?_
      rw [← hpage, List.append_assoc]
    · rw [List.length_append, List.length_singleton, UInt32.ofNat_add, ← hw.sequence]
      rfl

/-! ## The loop over the frames -/

/-- The frames of 960 samples that the samples are cut into, the last of them filled up with silence. -/
def framesOf (samples : List Int16) : List (List Int16) :=
  if samples = [] then [] else frameOf samples :: framesOf (samples.drop opusFrameSamples)
termination_by samples.length
decreasing_by
  have hpos : 0 < samples.length := List.length_pos_iff.mpr ‹_›
  rw [List.length_drop, opusFrameSamples]
  omega

/-- What the encoder makes of frame after frame, when it has been given `past` before. -/
def OpusEncoder.packets (opus : OpusEncoder) (past : List (List Int16)) : List (List Int16) → List (Option Bytes)
  | [] => []
  | frame :: frames => opus.encode (past ++ [frame]) :: opus.packets (past ++ [frame]) frames

/-- What the loop delivers for the samples from an offset on: the encoder's packets in order, the end of
    the stream on the last, and granule positions that rise to the end of the samples. -/
structure AudioRun (opus : OpusEncoder) (lookahead : Nat) (past : List (List Int16)) (offset : Nat)
    (rest : List Int16) (audio : List Delivery) : Prop where
  packets : opus.packets past (framesOf rest) = audio.map fun d => some d.packet
  flags : ∀ (i : Nat) (hi : i < audio.length), audio[i].flags = if i + 1 = audio.length then 4 else 0
  above : ∀ d ∈ audio, lookahead + offset < d.granule.toNat
  rising : (audio.map fun d => d.granule.toNat).Pairwise (· < ·)
  last : rest ≠ [] → ∃ d, audio.getLast? = some d ∧ d.granule.toNat = lookahead + offset + rest.length

theorem audioRun_nil (opus : OpusEncoder) (lookahead : Nat) (past : List (List Int16)) (offset : Nat) :
    AudioRun opus lookahead past offset [] [] where
  packets := by rw [framesOf, if_pos rfl]; rfl
  flags _ hi := absurd hi (Nat.not_lt_zero _)
  above _ hd := absurd hd List.not_mem_nil
  rising := List.Pairwise.nil
  last h := absurd rfl h

/-- Nothing is delivered for no samples. -/
theorem AudioRun.eq_nil {opus : OpusEncoder} {lookahead : Nat} {past : List (List Int16)} {offset : Nat}
    {audio : List Delivery} (h : AudioRun opus lookahead past offset [] audio) : audio = [] := by
  have hpackets := h.packets
  rw [framesOf, if_pos rfl] at hpackets
  exact List.map_eq_nil_iff.mp hpackets.symm

/-- **One round of the loop**, in front of what the rounds behind it deliver. -/
theorem AudioRun.cons {opus : OpusEncoder} {lookahead : Nat} {past : List (List Int16)} {offset : Nat}
    {rest : List Int16} {audio : List Delivery} {d : Delivery} (hrest : rest ≠ [])
    (hpacket : opus.encode (past ++ [frameOf rest]) = some d.packet)
    (hflags : d.flags = if opusFrameSamples < rest.length then 0 else 4)
    (hgranule : d.granule.toNat = lookahead + offset +
      (if opusFrameSamples < rest.length then opusFrameSamples else rest.length))
    (h : AudioRun opus lookahead (past ++ [frameOf rest]) (offset + opusFrameSamples)
      (rest.drop opusFrameSamples) audio) :
    AudioRun opus lookahead past offset rest (d :: audio) := by
  have hpos : 0 < rest.length := List.length_pos_iff.mpr hrest
  have hpackets : opus.packets past (framesOf rest) = (d :: audio).map fun d => some d.packet := by
    rw [framesOf, if_neg hrest, OpusEncoder.packets, hpacket, h.packets]
    rfl
  by_cases hmore : opusFrameSamples < rest.length
  case pos =>
    rw [if_pos hmore] at hflags hgranule
    have hbehind : rest.drop opusFrameSamples ≠ [] := by
      rw [ne_eq, List.drop_eq_nil_iff]
      omega
    obtain ⟨e, hlast, hend⟩ := h.last hbehind
    have hne : audio ≠ [] := by
      rintro rfl
      exact absurd hlast nofun
    refine ⟨hpackets, ?_, ?_, ?_, fun _ => ⟨e, ?_, ?_⟩⟩
    · intro i hi
      cases i with
      | zero =>
        have hlen : 0 < audio.length := List.length_pos_iff.mpr hne
        rw [List.length_cons, if_neg (by omega)]
        exact hflags
      | succ i =>
        have hbound : i < audio.length := Nat.lt_of_succ_lt_succ hi
        have hflag := h.flags i hbound
        simp only [List.length_cons, List.getElem_cons_succ, Nat.add_right_cancel_iff]
        exact hflag
    · intro e he
      rcases List.mem_cons.mp he with rfl | he
      · rw [hgranule, opusFrameSamples]
        omega
      · have habove := h.above e he
        omega
    · rw [List.map_cons, List.pairwise_cons]
      refine ⟨?_, h.rising⟩
      intro g hg
      obtain ⟨e, he, rfl⟩ := List.mem_map.mp hg
      have habove := h.above e he
      omega
    · rw [List.getLast?_cons, hlast]
      rfl
    · rw [hend, List.length_drop]
      omega
  case neg =>
    rw [if_neg hmore] at hflags hgranule
    have hbehind : rest.drop opusFrameSamples = [] := List.drop_eq_nil_iff.mpr (Nat.le_of_not_lt hmore)
    rw [hbehind] at h
    obtain rfl := h.eq_nil
    refine ⟨hpackets, ?_, ?_, List.pairwise_singleton _ _, fun _ => ⟨d, rfl, hgranule⟩⟩
    · intro i hi
      obtain rfl : i = 0 := Nat.lt_one_iff.mp hi
      exact hflags
    · intro e he
      rw [List.mem_singleton.mp he, hgranule]
      omega

/-- **The loop delivers the encoder's packets**, frame after frame. -/
theorem encodeFrames_run {opus : OpusEncoder} {lookahead : Nat} {serial : UInt32} {rest : List Int16}
    {past : List (List Int16)} {offset : Nat} {w w' : OggWriter} {ds : List Delivery}
    (hsmall : rest ≠ [] → lookahead + offset + rest.length < 2 ^ 64) (hw : Written serial ds w)
    (h : encodeFrames opus lookahead past offset rest w = .ok w') :
    ∃ audio, AudioRun opus lookahead past offset rest audio ∧ Written serial (ds ++ audio) w' := by
  induction hlen : rest.length using Nat.strongRecOn generalizing rest past offset w ds with
  | ind n ih =>
    rw [encodeFrames] at h
    split at h
    next hnil =>
      subst hnil
      obtain rfl := Except.ok.inj h
      exact ⟨[], audioRun_nil opus lookahead past offset, by rwa [List.append_nil]⟩
    next hrest =>
      have hpos : 0 < rest.length := List.length_pos_iff.mpr hrest
      dsimp only at h
      split at h
      next => exact absurd h nofun
      next packet hpacket =>
        split at h
        next => exact absurd h nofun
        next w₁ hpage =>
          obtain ⟨d, hd, hflags, hgranule, hw₁⟩ := oggWritePage_written hw hpage
          have hshort : (rest.drop opusFrameSamples).length < n := by
            rw [List.length_drop, opusFrameSamples]
            omega
          have hfits : rest.drop opusFrameSamples ≠ [] →
              lookahead + (offset + opusFrameSamples) + (rest.drop opusFrameSamples).length < 2 ^ 64 := by
            intro hne
            have hmore : ¬rest.length ≤ opusFrameSamples := mt List.drop_eq_nil_iff.mpr hne
            have hbound := hsmall hrest
            rw [List.length_drop]
            omega
          obtain ⟨audio, hrun, hwritten⟩ := ih _ hshort hfits hw₁ h rfl
          have hposition : d.granule.toNat = lookahead + offset +
              (if opusFrameSamples < rest.length then opusFrameSamples else rest.length) := by
            have hbound := hsmall hrest
            rw [hgranule, UInt64.toNat_ofNat']
            refine Nat.mod_eq_of_lt ?_
            split <;> omega
          refine ⟨d :: audio, hrun.cons hrest (hd ▸ hpacket) hflags hposition, ?_⟩
          rwa [List.append_assoc] at hwritten

/-! ## The stream -/

/-- There are samples, and few enough of them for a position of 64 bits. -/
theorem resampleTo48k_eq_ok {input samples : List Int16} {inputRate : Nat}
    (h : resampleTo48k input inputRate = .ok samples) : samples ≠ [] ∧ samples.length ≤ sizeMax / 2 := by
  unfold resampleTo48k at h
  dsimp only at h
  split at h
  next => exact absurd h nofun
  next =>
    split at h
    next => exact absurd h nofun
    next =>
      split at h
      next => exact absurd h nofun
      next hcount =>
        obtain ⟨hpos, hle⟩ := not_or.mp hcount
        rw [← Except.ok.inj h, ← List.length_pos_iff, List.length_map, List.length_range]
        exact ⟨Nat.pos_of_ne_zero hpos, Nat.le_of_not_lt hle⟩

theorem pcm48Of_eq_ok {wav : Bytes} {pcm48 : List Int16} (h : pcm48Of wav = .ok pcm48) :
    pcm48 ≠ [] ∧ pcm48.length ≤ sizeMax / 2 := by
  obtain ⟨info, -, h⟩ := Res.bind_eq_ok.mp h
  obtain ⟨mono, -, h⟩ := Res.bind_eq_ok.mp h
  exact resampleTo48k_eq_ok h

/-- The lookahead fits the 16 bits of the header. -/
theorem OpusEncoder.initialise_le {opus : OpusEncoder} {lookahead : Nat}
    (h : opus.initialise = .ok lookahead) : lookahead ≤ 65535 := by
  unfold OpusEncoder.initialise at h
  split at h
  next =>
    split at h
    next => exact absurd h nofun
    next hrange =>
      rw [← Except.ok.inj h]
      omega
  next => exact absurd h nofun

/-- **A well formed Ogg Opus stream**: the two headers and the encoded packets, each on a page of its
    own. -/
structure WellFormedStream (preSkip sampleCount : Nat) (encoded : List Bytes) (pages : List Page) : Prop where
  /-- Every page holds one whole packet, and these are the packets in order. -/
  packets : pages.map Page.packets = (opusHead preSkip :: opusTags :: encoded).map fun packet => ([packet], [])
  fresh : ∀ page ∈ pages, ¬page.Continued
  /-- The field has 32 bits. -/
  sequence : pages.map Page.sequence = (List.range pages.length).map UInt32.ofNat
  serial : ∃ serial, ∀ page ∈ pages, page.serial = serial
  bos : ∀ (i : Nat) (hi : i < pages.length), pages[i].Bos ↔ i = 0
  eos : ∀ (i : Nat) (hi : i < pages.length), pages[i].Eos ↔ i + 1 = pages.length
  rising : ((pages.drop 2).map fun page => page.granule.toNat).Pairwise (· < ·)
  last : (pages.map fun page => page.granule.toNat).getLast? = some (preSkip + sampleCount)
  checksums : ∀ page ∈ pages, page.Sealed

/-- The flags of a page tell its place. -/
theorem flags_of_place {opus : OpusEncoder} {lookahead offset : Nat} {past : List (List Int16)}
    {rest : List Int16} {head tags : Delivery} {audio : List Delivery} (hhead : head.flags = 2)
    (htags : tags.flags = 0) (hrun : AudioRun opus lookahead past offset rest audio) (hne : audio ≠ [])
    (i : Nat) (hi : i < (head :: tags :: audio).length) :
    (head :: tags :: audio)[i].flags =
      if i = 0 then 2 else if i + 1 = (head :: tags :: audio).length then 4 else 0 := by
  have hlen : 0 < audio.length := List.length_pos_iff.mpr hne
  match i with
  | 0 => exact hhead
  | 1 =>
    rw [if_neg Nat.one_ne_zero, if_neg (by simp only [List.length_cons]; omega)]
    exact htags
  | i + 2 =>
    have hflag := hrun.flags i (by simp only [List.length_cons] at hi; omega)
    have hend : i + 2 + 1 = (head :: tags :: audio).length ↔ i + 1 = audio.length := by
      rw [List.length_cons, List.length_cons]
      omega
    simp only [if_neg (Nat.succ_ne_zero _), hend]
    exact hflag

/-- What is delivered for two headers and a run of audio is a well formed stream. -/
theorem stream_wellFormed {opus : OpusEncoder} {preSkip : Nat} {serial : UInt32} {samples : List Int16}
    {head tags : Delivery} {audio : List Delivery} (hhead : head.packet = opusHead preSkip)
    (htags : tags.packet = opusTags) (hheadFlags : head.flags = 2) (htagsFlags : tags.flags = 0)
    (hrun : AudioRun opus preSkip [] 0 samples audio) (hne : samples ≠ []) :
    WellFormedStream preSkip samples.length (audio.map Delivery.packet)
      (stream serial (head :: tags :: audio)) := by
  obtain ⟨d, hlast, hend⟩ := hrun.last hne
  have haudio : audio ≠ [] := by
    rintro rfl
    exact absurd hlast nofun
  have hplace := flags_of_place hheadFlags htagsFlags hrun haudio
  have hgranules : ((stream serial (head :: tags :: audio)).map fun page => page.granule.toNat) =
      (head :: tags :: audio).map fun d => d.granule.toNat := stream_map (fun _ _ _ => rfl) _ _
  have hflags : ∀ (i : Nat) (hi : i < (stream serial (head :: tags :: audio)).length),
      (stream serial (head :: tags :: audio))[i].flags =
        if i = 0 then 2 else if i + 1 = (stream serial (head :: tags :: audio)).length then 4 else 0 := by
    intro i hi
    rw [getElem_stream hi]
    simp only [length_stream] at hi ⊢
    exact hplace i hi
  refine
    { packets := ?packets, fresh := ?fresh, sequence := ?sequence, serial := ⟨serial, ?serial⟩, bos := ?bos
      eos := ?eos, rising := ?rising, last := ?last, checksums := ?checksums }
  case packets =>
    rw [stream_map Delivery.page_packets, List.map_cons, List.map_cons, hhead, htags, List.map_cons,
      List.map_cons, List.map_map]
    rfl
  case fresh =>
    intro page hpage
    obtain ⟨i, hi, rfl⟩ := List.getElem_of_mem hpage
    rw [Page.Continued, hflags i hi]
    split_ifs <;> decide
  case sequence => rw [stream_sequence, length_stream]
  case serial =>
    intro page hpage
    obtain ⟨d, -, sequence, rfl⟩ := exists_of_mem_stream hpage
    rfl
  case bos =>
    intro i hi
    rw [Page.Bos, hflags i hi]
    split_ifs with hzero
    · exact iff_of_true (by decide) hzero
    · exact iff_of_false (by decide) hzero
    · exact iff_of_false (by decide) hzero
  case eos =>
    intro i hi
    rw [Page.Eos, hflags i hi]
    split_ifs with hzero hend
    · refine iff_of_false (by decide) ?_
      rw [hzero, length_stream, List.length_cons, List.length_cons]
      omega
    · exact iff_of_true (by decide) hend
    · exact iff_of_false (by decide) hend
  case rising =>
    rw [List.map_drop, hgranules]
    exact hrun.rising
  case last =>
    have hlast : (head :: tags :: audio).getLast? = some d := by
      rw [List.getLast?_cons, List.getLast?_cons, hlast]
      rfl
    rw [hgranules, List.getLast?_map, hlast, Option.map_some, hend, Nat.add_zero]
  case checksums =>
    intro page hpage
    obtain ⟨d, -, sequence, rfl⟩ := exists_of_mem_stream hpage
    exact d.page_sealed serial sequence

/-- **Whenever there is output, it is a well formed stream of the samples**: the Ogg reader takes it apart
    into the two headers and what the encoder made of the frames. -/
theorem mediaWavToOggOpus_wellFormed {opus : OpusEncoder} {wav out : Bytes} {maxOutputBytes : Nat}
    (h : mediaWavToOggOpus opus wav maxOutputBytes = .ok out) :
    ∃ (pcm48 : List Int16) (preSkip : Nat) (encoded : List Bytes) (pages : List Page),
      pcm48Of wav = .ok pcm48 ∧ opus.initialise = .ok preSkip ∧
      opus.packets [] (framesOf pcm48) = encoded.map some ∧ readPages out = some pages ∧
      WellFormedStream preSkip pcm48.length encoded pages := by
  obtain ⟨pcm48, hpcm, h⟩ := Res.bind_eq_ok.mp h
  obtain ⟨preSkip, hskip, h⟩ := Res.bind_eq_ok.mp h
  obtain ⟨w, hheaders, h⟩ := Res.bind_eq_ok.mp h
  obtain ⟨w', hframes, h⟩ := Res.bind_eq_ok.mp h
  obtain ⟨w₁, hheadPage, htagsPage⟩ := Res.bind_eq_ok.mp hheaders
  obtain ⟨head, hhead, hheadFlags, -, hw₁⟩ := oggWritePage_written (OggWriter.written_init wav _) hheadPage
  obtain ⟨tags, htags, htagsFlags, -, hw⟩ := oggWritePage_written hw₁ htagsPage
  obtain ⟨hne, hlen⟩ := pcm48Of_eq_ok hpcm
  have hsmall : pcm48 ≠ [] → preSkip + 0 + pcm48.length < 2 ^ 64 := by
    intro _
    have hle := opus.initialise_le hskip
    rw [sizeMax] at hlen
    omega
  obtain ⟨audio, hrun, hw'⟩ := encodeFrames_run hsmall hw hframes
  refine ⟨pcm48, preSkip, audio.map Delivery.packet, stream (oggSerialForInput wav) (head :: tags :: audio), hpcm,
    hskip, ?_, ?_, stream_wellFormed hhead htags hheadFlags htagsFlags hrun hne⟩
  · rw [hrun.packets, List.map_map]
    rfl
  · rw [← Except.ok.inj h, hw'.bytes]
    exact readPages_flatMap _

/-- An encoder whose packets are of 255 bytes, which takes two lacing values. -/
def evenEncoder : OpusEncoder where
  starts := true
  lookahead := some 312
  encode frames := some (List.replicate 255 (UInt8.ofNat frames.length))
  encode_length frames packet h := by
    rw [← Option.some.inj h, List.length_replicate]
    decide

/-- 161 samples at 8 kHz, which are 966 at 48 kHz: a frame, and a second one with six samples. -/
def shortWav : Bytes :=
  str "RIFF" ++ le 4 358 ++ str "WAVE" ++ str "fmt " ++ le 4 16 ++ le 2 1 ++ le 2 1 ++ le 4 8000 ++ le 4 16000 ++
    le 2 2 ++ le 2 16 ++ str "data" ++ le 4 322 ++ List.replicate 322 16

theorem mediaWavToOggOpus_wellFormed_short :
    ∃ out, mediaWavToOggOpus evenEncoder shortWav 0 = .ok out ∧
      ∃ (pcm48 : List Int16) (preSkip : Nat) (encoded : List Bytes) (pages : List Page),
        pcm48Of shortWav = .ok pcm48 ∧ evenEncoder.initialise = .ok preSkip ∧
        evenEncoder.packets [] (framesOf pcm48) = encoded.map some ∧ readPages out = some pages ∧
        WellFormedStream preSkip pcm48.length encoded pages := by
  have hok : (mediaWavToOggOpus evenEncoder shortWav 0).toOption.isSome = true := by decide +kernel
  match hout : mediaWavToOggOpus evenEncoder shortWav 0 with
  | .ok out => exact ⟨out, rfl, mediaWavToOggOpus_wellFormed hout⟩
  | .error e =>
    rw [hout] at hok
    cases hok

end SmolClaw
