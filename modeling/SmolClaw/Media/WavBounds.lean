/-
  WAV ingestion, address by address (`parse_wav`, `wav_to_mono_pcm` and `resample_to_48k`,
  `src/media/ogg_opus_encoder.c`).

  1. **Program** — the three functions with their offsets.  There is no result at all (`none`) where a read
     leaves the input, a size wraps, or a sum or a sample leaves its type, and none for a walk that does not
     end.

  2. **Meaning** — there always is a result, and it is that of the functions over lists: of `parseWav`
     (`parseWavAt_agrees`), of `wavToMonoPcm` (`monoAt_eq`) and of `resampleTo48k` (`resampleAt_eq`).  The
     walk keeps its offset and the last `data` chunk inside the input (`WavSpan.Inside`), whatever the sizes
     and the order of the chunks.

  3. **Result** — `wavIngestion_safe`.  That no product of the resampler wraps rests on one inequality: the
     last output sample starts before the input ends (`source_bound`).
-/
import SmolClaw.Media.OggOpus

namespace SmolClaw

open Lib.Ogg

/-! ## Program -/

/-- An input.  No object reaches into the last bytes of the address space, in which the locals of the
    function that reads it lie as well. -/
structure WavBuffer where
  bytes : Bytes
  length_lt : bytes.length + 8 ≤ sizeMax

/-- A computed `size_t` that has not wrapped. -/
def sizeT (n : Nat) : Option Nat := if n ≤ sizeMax then some n else none

/-- Bytes at an address. -/
def readAt (wav : Bytes) (offset width : Nat) : Option Bytes :=
  if offset + width ≤ wav.length then some ((wav.drop offset).take width) else none

/-- `read_le16` -/
def le16At (wav : Bytes) (offset : Nat) : Option Nat := (readAt wav offset 2).map ofLe

/-- `read_le32` -/
def le32At (wav : Bytes) (offset : Nat) : Option Nat := (readAt wav offset 4).map ofLe

/-- `wav_info`, with the samples where they stand in the input. -/
structure WavSpan where
  format : Nat := 0
  channels : Nat := 0
  sampleRate : Nat := 0
  bitsPerSample : Nat := 0
  dataOffset : Nat := 0
  dataLen : Nat := 0

/-- What `parse_wav` has found so far. -/
structure SpanScan where
  span : WavSpan := {}
  haveFmt : Bool := false
  haveData : Bool := false

/-- The body of the loop of `parse_wav`, for a chunk whose size is checked. -/
def chunkAt (wav : Bytes) (offset chunkSize : Nat) (scan : SpanScan) : Option (Res SpanScan) := do
  let id ← readAt wav offset 4
  if id = str "fmt " then
    if chunkSize < 16 then some (Status.parse "sc.media.wav.malformed")
    else do
      let format ← le16At wav (offset + 8)
      let channels ← le16At wav (offset + 8 + 2)
      let sampleRate ← le32At wav (offset + 8 + 4)
      let bitsPerSample ← le16At wav (offset + 8 + 14)
      some (.ok { scan with
        span := { scan.span with
          format := format, channels := channels, sampleRate := sampleRate, bitsPerSample := bitsPerSample }
        haveFmt := true })
  else if id = str "data" then
    some (.ok { scan with
      span := { scan.span with dataOffset := offset + 8, dataLen := chunkSize }
      haveData := true })
  else some (.ok scan)

/-- The loop of `parse_wav` from an offset on, for so many turns at most. -/
def scanAt (wav : Bytes) : Nat → Nat → SpanScan → Option (Res SpanScan)
  | 0, _, _ => none
  | turns + 1, offset, scan => do
      let dataOffset ← sizeT (offset + 8)
      if dataOffset ≤ wav.length then do
        let chunkSize ← le32At wav (offset + 4)
        let paddedSize ← sizeT (chunkSize + chunkSize % 2)
        if wav.length < dataOffset ∨ wav.length - dataOffset < chunkSize then
          some (Status.parse "sc.media.wav.malformed")
        else do
          let found ← chunkAt wav offset chunkSize scan
          match found with
          | .error e => some (.error e)
          | .ok scan =>
              if wav.length - dataOffset < paddedSize then some (Status.parse "sc.media.wav.malformed")
              else do
                let next ← sizeT (dataOffset + paddedSize)
                scanAt wav turns next scan
      else some (.ok scan)

/-- The formats that are taken. -/
def WavSpan.Supported (span : WavSpan) : Prop :=
  ¬(span.format ≠ 1 ∨ span.bitsPerSample ≠ 16 ∨ span.channels = 0 ∨ 8 < span.channels ∨ span.sampleRate = 0)

instance (span : WavSpan) : Decidable span.Supported := inferInstanceAs (Decidable (¬_))

/-- `parse_wav`, for so many turns of its loop at most. -/
def parseWavAt (wav : Bytes) (turns : Nat) : Option (Res WavSpan) :=
  if wav.length < 44 then some (Status.parse "sc.media.wav.malformed")
  else do
    let riff ← readAt wav 0 4
    let wave ← readAt wav 8 4
    if riff ≠ str "RIFF" ∨ wave ≠ str "WAVE" then some (Status.parse "sc.media.wav.malformed")
    else do
      let found ← scanAt wav turns 12 {}
      match found with
      | .error e => some (.error e)
      | .ok scan =>
          if !scan.haveFmt || !scan.haveData || scan.span.dataLen == 0 then
            some (Status.parse "sc.media.wav.malformed")
          else if ¬scan.span.Supported then some (Status.unsupported "sc.media.wav.unsupported_format")
          else some (.ok scan.span)

/-- An `int32_t` that has not overflowed. -/
def int32At (n : Int) : Option Int := if -2 ^ 31 ≤ n ∧ n < 2 ^ 31 then some n else none

/-- An `int16_t` that holds the value. -/
def int16At (n : Int) : Option Int16 := if -2 ^ 15 ≤ n ∧ n < 2 ^ 15 then some (Int16.ofInt n) else none

/-- One channel of a frame, added to the sum. -/
def addChannelAt (wav : Bytes) (span : WavSpan) (i : Nat) (sum : Int) (channel : Nat) : Option Int := do
  let index ← sizeT ((i * span.channels + channel) * 2)
  let raw ← le16At wav (span.dataOffset + index)
  int32At (sum + (Int16.ofNat raw).toInt)

/-- The body of the loop of `wav_to_mono_pcm`. -/
def monoSampleAt (wav : Bytes) (span : WavSpan) (i : Nat) : Option Int16 := do
  let sum ← (List.range span.channels).foldlM (addChannelAt wav span i) 0
  int16At (sum.tdiv span.channels)

/-- `wav_to_mono_pcm` -/
def monoAt (wav : Bytes) (span : WavSpan) : Option (Res (List Int16)) :=
  let frameBytes := span.channels * 2
  if sizeMax < frameBytes ∨ frameBytes = 0 then some Status.noMemory
  else if span.dataLen % frameBytes ≠ 0 then some (Status.parse "sc.media.wav.malformed")
  else if span.dataLen / frameBytes = 0 ∨ sizeMax / 2 < span.dataLen / frameBytes then
    some (Status.securityDenied "sc.media.opus.input_too_large")
  else do
    let _ ← sizeT (span.dataLen / frameBytes * 2)
    let samples ← (List.range (span.dataLen / frameBytes)).mapM (monoSampleAt wav span)
    some (.ok samples)

/-- The source of output sample `i`. -/
def sourceIndex (inputCount inputRate i : Nat) : Nat :=
  let source := (i * inputRate + opusOutputSampleRate / 2) / opusOutputSampleRate
  if inputCount ≤ source then inputCount - 1 else source

/-- The body of the loop of `resample_to_48k`. -/
def resampledAt (input : List Int16) (inputRate i : Nat) : Option Int16 := do
  let _ ← sizeT (i * inputRate + opusOutputSampleRate / 2)
  input[sourceIndex input.length inputRate i]?

/-- `resample_to_48k` -/
def resampleAt (input : List Int16) (inputRate : Nat) : Option (Res (List Int16)) :=
  if input.isEmpty ∨ inputRate = 0 then some (Status.invalidArgument "sc.media.opus.invalid_argument")
  else if sizeMax / opusOutputSampleRate < inputRate then none
  else if sizeMax / opusOutputSampleRate - inputRate < input.length then
    some (Status.securityDenied "sc.media.opus.input_too_large")
  else do
    let total ← sizeT (input.length * opusOutputSampleRate + inputRate)
    let outputCount := (total - 1) / inputRate
    if outputCount = 0 ∨ sizeMax / 2 < outputCount then
      some (Status.securityDenied "sc.media.opus.input_too_large")
    else do
      let _ ← sizeT (outputCount * 2)
      let samples ← (List.range outputCount).mapM (resampledAt input inputRate)
      some (.ok samples)

/-! ## Reads and sizes -/

variable {wav : Bytes}

theorem sizeT_of_le {n : Nat} (h : n ≤ sizeMax) : sizeT n = some n := if_pos h

/-- Reads inside the input, by their distance from a base. -/
theorem readAt_drop {base k width : Nat} (h : base + k + width ≤ wav.length) :
    readAt wav (base + k) width = some (((wav.drop base).drop k).take width) := by
  rw [readAt, if_pos h, List.drop_drop]

theorem le16At_drop {base k : Nat} (h : base + k + 2 ≤ wav.length) :
    le16At wav (base + k) = some (readLe16 (wav.drop base) k) := by
  rw [le16At, readAt_drop h]
  rfl

theorem le32At_drop {base k : Nat} (h : base + k + 4 ≤ wav.length) :
    le32At wav (base + k) = some (readLe32 (wav.drop base) k) := by
  rw [le32At, readAt_drop h]
  rfl

theorem ofLe_lt (bytes : Bytes) : ofLe bytes < 256 ^ bytes.length := by
  induction bytes with
  | nil => exact Nat.one_pos
  | cons b bytes ih =>
    have hb := b.toNat_lt
    rw [ofLe, List.length_cons, Nat.pow_succ]
    omega

theorem readLe32_lt (bytes : Bytes) (offset : Nat) : readLe32 bytes offset < 2 ^ 32 :=
  Nat.lt_of_lt_of_le (ofLe_lt _) (Nat.pow_le_pow_right (by decide) (List.length_take_le _ _))

/-! ## The walk over the chunks -/

/-- What the list model keeps. -/
def WavSpan.info (wav : Bytes) (span : WavSpan) : WavInfo where
  format := span.format
  channels := span.channels
  sampleRate := span.sampleRate
  bitsPerSample := span.bitsPerSample
  data := (wav.drop span.dataOffset).take span.dataLen

def SpanScan.view (wav : Bytes) (scan : SpanScan) : WavScan where
  info := scan.span.info wav
  haveFmt := scan.haveFmt
  haveData := scan.haveData

/-- **The samples stand inside the input.** -/
structure WavSpan.Inside (wav : Bytes) (span : WavSpan) : Prop where
  data : span.dataOffset + span.dataLen ≤ wav.length
  dataLen : span.dataLen < 2 ^ 32
  sampleRate : span.sampleRate < 2 ^ 32

/-- A result by addresses, and the same result over lists. -/
inductive Agrees (wav : Bytes) : Option (Res SpanScan) → Res WavScan → Prop
  | error (e : ScError) : Agrees wav (some (.error e)) (.error e)
  | ok {scan : SpanScan} (inside : scan.span.Inside wav) : Agrees wav (some (.ok scan)) (.ok (scan.view wav))

/-- **One chunk.** -/
theorem chunkAt_agrees {offset chunkSize : Nat} {scan : SpanScan}
    (hfits : offset + 8 + chunkSize ≤ wav.length) (hsize : chunkSize < 2 ^ 32)
    (hinside : scan.span.Inside wav) :
    Agrees wav (chunkAt wav offset chunkSize scan)
      (scanChunk ((wav.drop offset).take 4) chunkSize ((wav.drop offset).drop 8) (scan.view wav)) := by
  have hid : readAt wav offset 4 = some ((wav.drop offset).take 4) := readAt_drop (k := 0) (by omega)
  rw [chunkAt, scanChunk, hid, List.drop_drop]
  show Agrees wav (if _ then _ else _) _
  by_cases hfmt : (wav.drop offset).take 4 = str "fmt "
  · rw [if_pos hfmt, if_pos hfmt]
    by_cases hshort : chunkSize < 16
    · rw [if_pos hshort, if_pos hshort]
      exact Agrees.error _
    · have hformat : le16At wav (offset + 8) = some (readLe16 (wav.drop (offset + 8)) 0) :=
        le16At_drop (k := 0) (by omega)
      rw [if_neg hshort, if_neg hshort, hformat, le16At_drop (by omega), le32At_drop (by omega),
        le16At_drop (by omega)]
      exact Agrees.ok ⟨hinside.data, hinside.dataLen, readLe32_lt _ _⟩
  · rw [if_neg hfmt, if_neg hfmt]
    by_cases hdata : (wav.drop offset).take 4 = str "data"
    · rw [if_pos hdata, if_pos hdata]
      exact Agrees.ok ⟨hfits, hsize, hinside.sampleRate⟩
    · rw [if_neg hdata, if_neg hdata]
      exact Agrees.ok hinside

/-- **The walk** stays inside the input and comes to its end: every turn takes it eight bytes on. -/
theorem scanAt_agrees (hlen : wav.length + 8 ≤ sizeMax) : ∀ turns offset (scan : SpanScan),
    offset ≤ wav.length → wav.length - offset < turns → scan.span.Inside wav →
    Agrees wav (scanAt wav turns offset scan) (scanChunks (wav.drop offset) (scan.view wav)) := by
  intro turns
  induction turns with
  | zero => intro offset scan _ hturns; omega
  | succ turns ih =>
    intro offset scan hoffset hturns hinside
    have hrest : (wav.drop offset).length = wav.length - offset := List.length_drop
    have hdata : ((wav.drop offset).drop 8).length = wav.length - (offset + 8) := by
      rw [List.drop_drop, List.length_drop]
    rw [scanAt, sizeT_of_le (by omega), scanChunks, hrest]
    simp only [Option.bind_eq_bind, Option.bind_some, hdata]
    by_cases hheader : offset + 8 ≤ wav.length
    · have hsize := readLe32_lt (wav.drop offset) 4
      rw [if_pos hheader, if_neg (by omega), le32At_drop (by omega)]
      generalize readLe32 (wav.drop offset) 4 = chunkSize at hsize ⊢
      rw [Option.bind_some, sizeT_of_le (show chunkSize + chunkSize % 2 ≤ sizeMax by unfold sizeMax; omega),
        Option.bind_some]
      by_cases hshort : wav.length - (offset + 8) < chunkSize
      · rw [if_pos (Or.inr hshort), if_pos hshort]
        exact Agrees.error _
      rw [if_neg (not_or.mpr ⟨by omega, hshort⟩), if_neg hshort]
      have hchunk : Agrees wav (chunkAt wav offset chunkSize scan) _ :=
        chunkAt_agrees (by omega) hsize hinside
      generalize chunkAt wav offset chunkSize scan = found at hchunk ⊢
      generalize scanChunk ((wav.drop offset).take 4) chunkSize ((wav.drop offset).drop 8) (scan.view wav) =
        expected at hchunk ⊢
      cases hchunk with
      | error e => exact Agrees.error e
      | ok hnext =>
        rw [Option.bind_some]
        dsimp only
        by_cases hpadded : wav.length - (offset + 8) < chunkSize + chunkSize % 2
        · rw [if_pos hpadded, if_pos hpadded]
          exact Agrees.error _
        · rw [if_neg hpadded, if_neg hpadded, sizeT_of_le (by omega), Option.bind_some, List.drop_drop,
            List.drop_drop, ← Nat.add_assoc offset 8]
          exact ih _ _ (by omega) (by omega) hnext
    · rw [if_neg hheader, if_pos (by omega)]
      exact Agrees.ok hinside

/-- **`parse_wav`** is the function over lists, and what it finds stands inside the input. -/
theorem parseWavAt_agrees (hlen : wav.length + 8 ≤ sizeMax) {turns : Nat} (hturns : wav.length < turns) :
    ∃ result, parseWavAt wav turns = some result ∧ result.map (WavSpan.info wav) = parseWav wav ∧
      ∀ span, result = .ok span → span.Inside wav ∧ span.Supported := by
  unfold parseWavAt parseWav
  by_cases hshort : wav.length < 44
  · rw [if_pos hshort, if_pos hshort]
    exact ⟨_, rfl, rfl, fun span hspan => by cases hspan⟩
  have hriff : readAt wav 0 4 = some (wav.take 4) := readAt_drop (show 0 + 0 + 4 ≤ wav.length by omega)
  have hwave : readAt wav 8 4 = some ((wav.drop 8).take 4) :=
    readAt_drop (show 8 + 0 + 4 ≤ wav.length by omega)
  rw [if_neg hshort, if_neg hshort, hriff, hwave]
  simp only [Option.bind_eq_bind, Option.bind_some]
  by_cases hword : wav.take 4 ≠ str "RIFF" ∨ (wav.drop 8).take 4 ≠ str "WAVE"
  · rw [if_pos hword, if_pos hword]
    exact ⟨_, rfl, rfl, fun span hspan => by cases hspan⟩
  rw [if_neg hword, if_neg hword]
  have hscan := scanAt_agrees hlen turns 12 {} (by omega) (by omega)
    ⟨Nat.zero_le _, by decide, by decide⟩
  have hview : SpanScan.view wav {} = {} := by
    rw [SpanScan.view, WavSpan.info, List.take_zero]
  rw [hview] at hscan
  generalize scanAt wav turns 12 {} = found at hscan ⊢
  generalize scanChunks (wav.drop 12) {} = expected at hscan ⊢
  cases hscan with
  | error e => exact ⟨_, rfl, rfl, fun span hspan => by cases hspan⟩
  | @ok scan hinside =>
    have hempty : (scan.view wav).info.data.isEmpty = (scan.span.dataLen == 0) := by
      have hlength : (scan.view wav).info.data.length = scan.span.dataLen := by
        show ((wav.drop scan.span.dataOffset).take scan.span.dataLen).length = _
        rw [List.length_take, List.length_drop]
        have hdata := hinside.data
        omega
      rw [Bool.eq_iff_iff, List.isEmpty_iff_length_eq_zero, hlength, beq_iff_eq]
    have hfmt : (scan.view wav).haveFmt = scan.haveFmt := rfl
    have hdata : (scan.view wav).haveData = scan.haveData := rfl
    have hformats : (scan.view wav).info.Supported ↔ scan.span.Supported := Iff.rfl
    rw [Option.bind_some]
    dsimp only
    rw [hempty, hfmt, hdata]
    by_cases hmissing : (!scan.haveFmt || !scan.haveData || scan.span.dataLen == 0) = true
    · rw [if_pos hmissing, if_pos hmissing]
      exact ⟨_, rfl, rfl, fun span hspan => by cases hspan⟩
    rw [if_neg hmissing, if_neg hmissing]
    by_cases hsupported : scan.span.Supported
    · rw [if_neg (not_not.mpr hsupported), if_neg (not_not.mpr (hformats.mpr hsupported))]
      refine ⟨_, rfl, rfl, fun span hspan => ?_⟩
      cases hspan
      exact ⟨hinside, hsupported⟩
    · rw [if_pos hsupported, if_pos (mt hformats.mp hsupported)]
      exact ⟨_, rfl, rfl, fun span hspan => by cases hspan⟩

/-! ## Mono -/

/-- A loop whose body always has a result. -/
theorem mapM_some {α β : Type} {f : α → Option β} {g : α → β} {l : List α} (h : ∀ x ∈ l, f x = some (g x)) :
    l.mapM f = some (l.map g) := by
  induction l with
  | nil => rfl
  | cons x l ih =>
    rw [List.forall_mem_cons] at h
    rw [List.mapM_cons, h.1, ih h.2]
    rfl

variable {span : WavSpan}

theorem info_data_length (hinside : span.Inside wav) : (span.info wav).data.length = span.dataLen := by
  have hdata := hinside.data
  show ((wav.drop span.dataOffset).take span.dataLen).length = _
  rw [List.length_take, List.length_drop]
  omega

/-- A sample that stands in the `data` chunk. -/
theorem le16At_data (hinside : span.Inside wav) {index : Nat} (hindex : index + 2 ≤ span.dataLen) :
    le16At wav (span.dataOffset + index) = some (readLe16 (span.info wav).data index) := by
  have hdata := hinside.data
  rw [le16At_drop (by omega)]
  show some (ofLe _) = some (ofLe ((((wav.drop span.dataOffset).take span.dataLen).drop index).take 2))
  rw [List.drop_take, List.take_take, Nat.min_eq_left (by omega)]

/-- The part of the sum of a frame that the first channels make. -/
def channelSum (info : WavInfo) (i channels : Nat) : Int :=
  ((List.range channels).map fun channel =>
    (Int16.ofNat (readLe16 info.data ((i * info.channels + channel) * 2))).toInt).sum

/-- **The loop over the channels**: its sum is bounded by their number. -/
theorem addChannels (hinside : span.Inside wav) (hchannels : span.channels ≤ 8) {i : Nat}
    (hframe : (i + 1) * span.channels * 2 ≤ span.dataLen) : ∀ channels ≤ span.channels,
    (List.range channels).foldlM (addChannelAt wav span i) 0 = some (channelSum (span.info wav) i channels) ∧
    -32768 * (channels : Int) ≤ channelSum (span.info wav) i channels ∧
    channelSum (span.info wav) i channels ≤ 32767 * (channels : Int) := by
  intro channels
  induction channels with
  | zero => exact fun _ => ⟨rfl, Int.le_refl 0, Int.le_refl 0⟩
  | succ channel ih =>
    intro hchannel
    obtain ⟨hfold, hlow, hhigh⟩ := ih (by omega)
    have hsucc : channelSum (span.info wav) i (channel + 1) = channelSum (span.info wav) i channel +
        (Int16.ofNat (readLe16 (span.info wav).data ((i * span.channels + channel) * 2))).toInt := by
      rw [channelSum, List.range_succ, List.map_append, List.sum_append, List.map_singleton,
        List.sum_singleton]
      rfl
    have hindex : (i * span.channels + channel) * 2 + 2 ≤ span.dataLen := by
      rw [Nat.add_mul, Nat.one_mul] at hframe
      omega
    have hsmall := hinside.dataLen
    rw [hsucc, List.range_succ, List.foldlM_append, hfold]
    simp only [Option.bind_eq_bind, Option.bind_some, List.foldlM_cons, List.foldlM_nil]
    rw [addChannelAt, sizeT_of_le (by unfold sizeMax; omega)]
    simp only [Option.bind_eq_bind, Option.bind_some]
    rw [le16At_data hinside hindex, Option.bind_some]
    generalize Int16.ofNat (readLe16 (span.info wav).data ((i * span.channels + channel) * 2)) = sample
    have hsampleLow := sample.le_toInt
    have hsampleHigh := sample.toInt_lt
    have hint32 : int32At (channelSum (span.info wav) i channel + sample.toInt) =
        some (channelSum (span.info wav) i channel + sample.toInt) := if_pos (by omega)
    rw [hint32]
    exact ⟨rfl, by omega, by omega⟩

/-- The average of a frame is a sample. -/
theorem monoSampleAt_eq (hinside : span.Inside wav) (hpos : 0 < span.channels) (hchannels : span.channels ≤ 8)
    {i : Nat} (hframe : (i + 1) * span.channels * 2 ≤ span.dataLen) :
    monoSampleAt wav span i = some (monoSample (span.info wav) i) := by
  obtain ⟨hfold, hlow, hhigh⟩ := addChannels hinside hchannels hframe span.channels (Nat.le_refl _)
  have hcount : (0 : Int) < span.channels := by omega
  have hleast := Int.tdiv_le_tdiv hcount hlow
  have hmost := Int.tdiv_le_tdiv hcount hhigh
  rw [Int.mul_tdiv_cancel _ (by omega)] at hleast hmost
  rw [monoSampleAt, hfold]
  exact if_pos ⟨by omega, by omega⟩

/-- **`wav_to_mono_pcm`** is the function over lists. -/
theorem monoAt_eq (hinside : span.Inside wav) (hsupported : span.Supported) :
    monoAt wav span = some (wavToMonoPcm (span.info wav)) := by
  have hpos : 0 < span.channels ∧ span.channels ≤ 8 := by
    unfold WavSpan.Supported at hsupported
    omega
  have hlength := info_data_length hinside
  have hsmall := hinside.dataLen
  unfold monoAt wavToMonoPcm
  dsimp only
  rw [hlength]
  show _ = some (if span.channels * 2 = 0 then _ else _)
  rw [if_neg (show ¬(sizeMax < span.channels * 2 ∨ span.channels * 2 = 0) by unfold sizeMax; omega),
    if_neg (show ¬span.channels * 2 = 0 by omega)]
  show _ = some (if span.dataLen % (span.channels * 2) ≠ 0 then _ else if
    span.dataLen / (span.channels * 2) = 0 ∨ sizeMax / 2 < span.dataLen / (span.channels * 2) then _ else _)
  by_cases hodd : span.dataLen % (span.channels * 2) ≠ 0
  · rw [if_pos hodd, if_pos hodd]
  rw [if_neg hodd, if_neg hodd]
  by_cases hcount : span.dataLen / (span.channels * 2) = 0 ∨ sizeMax / 2 < span.dataLen / (span.channels * 2)
  · rw [if_pos hcount, if_pos hcount]
  rw [if_neg hcount, if_neg hcount]
  have hmap : (List.range (span.dataLen / (span.channels * 2))).mapM (monoSampleAt wav span) =
      some ((List.range (span.dataLen / (span.channels * 2))).map (monoSample (span.info wav))) := by
    refine mapM_some fun i hi => monoSampleAt_eq hinside hpos.1 hpos.2 ?_
    rw [Nat.mul_assoc]
    exact Nat.le_trans (Nat.mul_le_mul_right _ (List.mem_range.mp hi)) (Nat.div_mul_le_self _ _)
  rw [sizeT_of_le (by omega), hmap]
  rfl

/-! ## 48 kHz -/

/-- **The last output sample starts before the input ends.** -/
theorem source_bound {n rate i : Nat} (hrate : 0 < rate)
    (hi : i < (n * opusOutputSampleRate + rate - 1) / rate) : i * rate < n * opusOutputSampleRate := by
  have hnext : (i + 1) * rate ≤ n * opusOutputSampleRate + rate - 1 :=
    Nat.le_trans (Nat.mul_le_mul_right _ hi) (Nat.div_mul_le_self _ _)
  rw [Nat.succ_mul] at hnext
  omega

theorem sourceIndex_lt {n : Nat} (hn : 0 < n) (rate i : Nat) : sourceIndex n rate i < n := by
  unfold sourceIndex
  dsimp only
  split
  · omega
  · omega

theorem sourceIndex_mono (n rate : Nat) {i j : Nat} (h : i ≤ j) :
    sourceIndex n rate i ≤ sourceIndex n rate j := by
  have hstep : (i * rate + opusOutputSampleRate / 2) / opusOutputSampleRate ≤
      (j * rate + opusOutputSampleRate / 2) / opusOutputSampleRate :=
    Nat.div_le_div_right (Nat.add_le_add_right (Nat.mul_le_mul_right _ h) _)
  unfold sourceIndex
  dsimp only
  split <;> split <;> omega

/-- An output sample is the sample of its source. -/
theorem resampled_source {input : List Int16} (hinput : 0 < input.length) (rate i : Nat) :
    input[sourceIndex input.length rate i]? = some (resampled input rate i) := by
  have hsource := sourceIndex_lt hinput rate i
  show _ = some (input.getD (sourceIndex input.length rate i) 0)
  rw [List.getD_eq_getElem?_getD, List.getElem?_eq_getElem hsource]
  rfl

/-- **`resample_to_48k`** is the function over lists. -/
theorem resampleAt_eq (input : List Int16) {rate : Nat} (hrate : rate < 2 ^ 32) :
    resampleAt input rate = some (resampleTo48k input rate) := by
  unfold resampleAt resampleTo48k
  dsimp only
  by_cases hempty : input.isEmpty ∨ rate = 0
  · rw [if_pos hempty, if_pos hempty]
  have hinput : 0 < input.length := by
    rw [List.length_pos_iff, ← List.isEmpty_eq_false_iff, Bool.eq_false_iff]
    exact fun h => hempty (Or.inl h)
  have hpos : 0 < rate := Nat.pos_of_ne_zero fun h => hempty (Or.inr h)
  have hrange : ¬sizeMax / opusOutputSampleRate < rate := by
    unfold sizeMax opusOutputSampleRate
    omega
  rw [if_neg hempty, if_neg hempty, if_neg hrange]
  by_cases hlarge : sizeMax / opusOutputSampleRate - rate < input.length
  · rw [if_pos hlarge, if_pos hlarge]
  have htotal : input.length * opusOutputSampleRate + rate * opusOutputSampleRate ≤ sizeMax := by
    unfold sizeMax opusOutputSampleRate at *
    omega
  rw [if_neg hlarge, if_neg hlarge, sizeT_of_le (by unfold opusOutputSampleRate at *; omega)]
  simp only [Option.bind_eq_bind, Option.bind_some]
  by_cases hcount : (input.length * opusOutputSampleRate + rate - 1) / rate = 0 ∨
      sizeMax / 2 < (input.length * opusOutputSampleRate + rate - 1) / rate
  · rw [if_pos hcount, if_pos hcount]
  have hmap : (List.range ((input.length * opusOutputSampleRate + rate - 1) / rate)).mapM
      (resampledAt input rate) = some ((List.range ((input.length * opusOutputSampleRate + rate - 1) /
        rate)).map (resampled input rate)) := by
    refine mapM_some fun i hi => ?_
    have hbound := source_bound hpos (List.mem_range.mp hi)
    have hsize : i * rate + opusOutputSampleRate / 2 ≤ sizeMax := by
      unfold opusOutputSampleRate at *
      omega
    rw [resampledAt, sizeT_of_le hsize]
    exact resampled_source hinput rate i
  rw [if_neg hcount, if_neg hcount, sizeT_of_le (by omega), Option.bind_some, hmap, Option.bind_some]

/-! ## The result -/

/-- **Resampled to 48 kHz**: as many samples as the frames last, each one of the frames, in their order. -/
structure IsResampled (mono out : List Int16) (rate : Nat) : Prop where
  count : mono.length * 48000 ≤ out.length * rate ∧ ∀ k, mono.length * 48000 ≤ k * rate → out.length ≤ k
  source : ∃ source : Nat → Nat, (∀ i j, i ≤ j → source i ≤ source j) ∧
    ∀ i < out.length, source i < mono.length ∧ out[i]? = mono[source i]?

theorem isResampled {mono out : List Int16} {rate : Nat} (h : resampleTo48k mono rate = .ok out) :
    IsResampled mono out rate := by
  unfold resampleTo48k at h
  dsimp only at h
  split at h
  · cases h
  next hempty =>
  split at h
  · cases h
  split at h
  · cases h
  cases h
  have hmono : 0 < mono.length := by
    rw [List.length_pos_iff, ← List.isEmpty_eq_false_iff, Bool.eq_false_iff]
    exact fun h => hempty (Or.inl h)
  have hpos : 0 < rate := Nat.pos_of_ne_zero fun h => hempty (Or.inr h)
  have hlength : ((List.range ((mono.length * opusOutputSampleRate + rate - 1) / rate)).map
      (resampled mono rate)).length = (mono.length * opusOutputSampleRate + rate - 1) / rate := by
    rw [List.length_map, List.length_range]
  refine ⟨?_, sourceIndex mono.length rate, fun i j => sourceIndex_mono _ _, ?_⟩
  · rw [hlength]
    refine ⟨?_, fun k hk => ?_⟩
    · have hdiv := Nat.div_add_mod (mono.length * opusOutputSampleRate + rate - 1) rate
      have hmod := Nat.mod_lt (mono.length * opusOutputSampleRate + rate - 1) hpos
      rw [Nat.mul_comm _ rate]
      unfold opusOutputSampleRate at *
      omega
    · by_contra hless
      exact Nat.not_lt.mpr hk (source_bound hpos (Nat.not_le.mp hless))
  · intro i hi
    rw [hlength] at hi
    refine ⟨sourceIndex_lt hmono rate i, ?_⟩
    rw [List.getElem?_map, List.getElem?_range hi, resampled_source hmono rate i]
    rfl

/-- **WAV ingestion is in bounds and free of overflow**: each stage has a result, whatever the bytes are, and
    what comes out is the input at 48 kHz. -/
theorem wavIngestion_safe (wav : WavBuffer) :
    ∃ parsed, parseWavAt wav.bytes (wav.bytes.length + 1) = some parsed ∧
      ∀ span, parsed = .ok span → ∃ mixed, monoAt wav.bytes span = some mixed ∧
        ∀ mono, mixed = .ok mono → ∃ result, resampleAt mono span.sampleRate = some result ∧
          ∀ out, result = .ok out → IsResampled mono out span.sampleRate := by
  obtain ⟨parsed, hparsed, -, hfound⟩ := parseWavAt_agrees wav.length_lt (Nat.lt_succ_self wav.bytes.length)
  refine ⟨parsed, hparsed, fun span hspan => ?_⟩
  obtain ⟨hinside, hsupported⟩ := hfound span hspan
  refine ⟨_, monoAt_eq hinside hsupported, fun mono _ => ?_⟩
  exact ⟨_, resampleAt_eq mono hinside.sampleRate, fun out => isResampled⟩

def shortBuffer : WavBuffer := ⟨shortWav, by decide +kernel⟩

/-- A short input goes through all three. -/
theorem wavIngestion_short : ∃ span mono out,
    parseWavAt shortWav (shortWav.length + 1) = some (.ok span) ∧ monoAt shortWav span = some (.ok mono) ∧
      resampleAt mono span.sampleRate = some (.ok out) ∧ IsResampled mono out span.sampleRate := by
  have hall : ((parseWavAt shortWav (shortWav.length + 1)).any fun parsed => parsed.toOption.any fun span =>
      (monoAt shortWav span).any fun mixed => mixed.toOption.any fun mono =>
        (resampleAt mono span.sampleRate).any Except.isOk) = true := by decide +kernel
  obtain ⟨parsed, hparsed, hspan⟩ := wavIngestion_safe shortBuffer
  have hparsed : parseWavAt shortWav (shortWav.length + 1) = some parsed := hparsed
  rw [hparsed, Option.any_some] at hall
  cases parsed with
  | error e => cases hall
  | ok span =>
  obtain ⟨mixed, hmixed, hmono⟩ := hspan span rfl
  have hmixed : monoAt shortWav span = some mixed := hmixed
  rw [Except.toOption, Option.any_some, hmixed, Option.any_some] at hall
  cases mixed with
  | error e => cases hall
  | ok mono =>
  obtain ⟨result, hresult, hout⟩ := hmono mono rfl
  rw [Except.toOption, Option.any_some, hresult, Option.any_some] at hall
  cases result with
  | error e => cases hall
  | ok out => exact ⟨span, mono, out, hparsed, hmixed, hresult, hout out rfl⟩

end SmolClaw
