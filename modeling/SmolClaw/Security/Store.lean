/-
  The files the audit chain and the receipt chain are kept in (`src/security/store.c`).

  1. **Program** — a header line, and a line for each record: its fields with `|` between them, numbers
     printed, texts escaped.  Loading splits every line into exactly that many fields and ends with
     the verification of the chain.  The session key of the receipts has a file of its own.

  2. **What is a parameter** — the file system: saving says what the files hold afterwards, loading is
     given what opening and reading them returns.

  3. **Result** — `storeRoundTrip`: every chain that appending builds is read back as it was, whatever
     bytes its texts are made of, and verifies again.
-/
import SmolClaw.Lib.Lines
import SmolClaw.Lib.Percent
import SmolClaw.Lib.Separated
import SmolClaw.Core.Text
import SmolClaw.Core.WholeNumber
import SmolClaw.Security.Receipts

namespace SmolClaw.Security

open Lib.Run Lib.Chain Lib.Lines Lib.Percent Lib.Separated

/-! ## The fields of a line -/

/-- What `write_escaped` does not write as it is; DEL and the bytes above it stand as they are. -/
def storeSpecial (c : UInt8) : Bool := c == chr '|' || c == chr '%' || c < 0x20

/-- `write_escaped` -/
def writeEscaped (value : Bytes) : Bytes := escape (chr '%') storeSpecial hexUpperDigits value

/-- `hex_value` -/
def hexValue (c : UInt8) : Option UInt8 :=
  if chr '0' ≤ c ∧ c ≤ chr '9' then some (c - chr '0')
  else if chr 'a' ≤ c ∧ c ≤ chr 'f' then some (c - chr 'a' + 10)
  else if chr 'A' ≤ c ∧ c ≤ chr 'F' then some (c - chr 'A' + 10)
  else none

/-- The byte two digits stand for: `(hi << 4) | lo`. -/
def hexPair (high low : UInt8) : Option UInt8 :=
  match hexValue high, hexValue low with
  | some high, some low => some (high <<< 4 ||| low)
  | _, _ => none

/-- `decode_escaped` -/
def decodeEscaped (value : Bytes) : Res Bytes :=
  match unescape (chr '%') hexPair value with
  | some text => .ok text
  | none => Status.parse "sc.security.store.escape_invalid"

/-- `decode_escaped` into an `sc_string`: its length is a `size_t`. -/
def decodeSized (value : Bytes) : Res SizedBytes := do
  let text ← decodeEscaped value
  if h : text.length < 2 ^ 64 then .ok ⟨text, h⟩ else Status.noMemory

/-- `split_fields`: `count` fields, the last of them up to the end of the line. -/
def splitFields (line : Bytes) : Nat → Option (List Bytes)
  | 0 => none
  | count + 1 =>
      match line.dropWhile (· ≠ chr '|'), count with
      | [], 0 => some [line.takeWhile (· ≠ chr '|')]
      | [], _ + 1 => none
      | _ :: _, 0 => none
      | _ :: rest, count + 1 => (splitFields rest (count + 1)).map (line.takeWhile (· ≠ chr '|') :: ·)

/-- Fields as a line holds them. -/
def writeFields (fields : List Bytes) : Bytes := [chr '|'].intercalate fields

/-- `%016llx` -/
def hex16 (value : UInt64) : Bytes := bin2hex (u64Bytes value).reverse

/-- One character of `parse_u64_hex`. -/
def hexStep (value : UInt64) (c : UInt8) : Option UInt64 :=
  (hexValue c).map fun nibble => value <<< 4 ||| nibble.toUInt64

/-- `parse_u64_hex` -/
def parseU64Hex (text : Bytes) : Option UInt64 :=
  if text = [] then none
  else text.foldlM hexStep 0

/-- The digits of `parse_i64`, collected in an `int64_t`.  C does not define a sum that leaves its range;
    there is none here. -/
def parseDigits : Nat → Bytes → Option Nat
  | value, [] => some value
  | value, c :: rest =>
      if isDigit c ∧ 10 * value + (c.toNat - 48) < 2 ^ 63 then
        parseDigits (10 * value + (c.toNat - 48)) rest
      else none

/-- `parse_i64` -/
def parseI64 (text : Bytes) : Option Int64 :=
  match text with
  | [] => none
  | c :: rest =>
      if c = chr '-' then
        if rest = [] then none else (parseDigits 0 rest).map fun value : Nat => Int64.ofInt (-(value : Int))
      else (parseDigits 0 text).map fun value : Nat => Int64.ofInt (value : Int)

example : decodeEscaped (writeEscaped [124, 37, 10, 0, 127, 200]) = .ok [124, 37, 10, 0, 127, 200] := by
  decide

/-! ## Every field is read back -/

/-- A field that may stand in a line. -/
def Clean (field : Bytes) : Prop := chr '|' ∉ field ∧ chr '\n' ∉ field

/-- The digits of a byte are neither separators nor the mark, and name the byte. -/
theorem hexPair_digits (c : UInt8) :
    hexPair (hexUpperDigits c).1 (hexUpperDigits c).2 = some c ∧
      (∀ x ∈ [chr '|', chr '\n'], x ≠ (hexUpperDigits c).1 ∧ x ≠ (hexUpperDigits c).2) := by
  revert c
  apply byte_forall
  decide +kernel

theorem decodeEscaped_writeEscaped (value : Bytes) : decodeEscaped (writeEscaped value) = .ok value := by
  have hback : unescape (chr '%') hexPair (escape (chr '%') storeSpecial hexUpperDigits value) = some value :=
    unescape_escape (fun c _ => (hexPair_digits c).1) (by decide) value
  rw [decodeEscaped, writeEscaped, hback]

theorem decodeSized_writeEscaped (value : SizedBytes) : decodeSized (writeEscaped value.bytes) = .ok value := by
  rw [decodeSized, decodeEscaped_writeEscaped]
  exact dif_pos value.fits

theorem clean_writeEscaped (value : Bytes) : Clean (writeEscaped value) := by
  constructor
  · refine not_mem_escape (by decide) (fun c _ => ⟨by decide, ?_⟩) value
    exact (hexPair_digits c).2 _ (by decide)
  · refine not_mem_escape (by decide) (fun c _ => ⟨by decide, ?_⟩) value
    exact (hexPair_digits c).2 _ (by decide)

/-- A field made of bytes that are no separators. -/
theorem clean_of_forall {field : Bytes} {p : UInt8 → Bool} (hp : p (chr '|') = false ∧ p (chr '\n') = false)
    (h : ∀ c ∈ field, p c = true) : Clean field := by
  constructor
  · intro hmem
    exact absurd (h _ hmem) (by rw [hp.1]; exact Bool.false_ne_true)
  · intro hmem
    exact absurd (h _ hmem) (by rw [hp.2]; exact Bool.false_ne_true)

theorem clean_decimalInt (n : Int) : Clean (decimalInt n) := by
  refine clean_of_forall (p := fun c => isDigit c || c == chr '-') (by decide) ?_
  intro c hc
  rw [decimalInt] at hc
  split at hc
  · rcases List.mem_cons.mp hc with rfl | hc
    · decide
    · rw [decimal_isDigit _ c hc, Bool.true_or]
  · rw [decimal_isDigit _ c hc, Bool.true_or]

theorem clean_hex16 (v : UInt64) : Clean (hex16 v) := by
  refine clean_of_forall (p := isUuidByte) (by decide) ?_
  intro c hc
  obtain ⟨b, -, hb⟩ := List.mem_flatMap.mp hc
  exact isUuidByte_hexByte b c hb

/-- What the loop of `parse_i64` collects. -/
theorem parseDigits_eq (digits : Bytes) :
    ∀ {value : Nat}, (∀ c ∈ digits, isDigit c = true) →
      digits.foldl (fun n c => 10 * n + (c.toNat - 48)) value < 2 ^ 63 →
      parseDigits value digits = some (digits.foldl (fun n c => 10 * n + (c.toNat - 48)) value) ∧
        value ≤ digits.foldl (fun n c => 10 * n + (c.toNat - 48)) value := by
  induction digits with
  | nil => intro value _ _; exact ⟨rfl, Nat.le_refl value⟩
  | cons c digits ih =>
    intro value hdigits hlt
    rw [List.foldl_cons] at hlt ⊢
    obtain ⟨hrest, hle⟩ := ih (fun d hd => hdigits d (List.mem_cons_of_mem c hd)) hlt
    refine ⟨?_, by omega⟩
    rw [parseDigits, if_pos ⟨hdigits c List.mem_cons_self, by omega⟩, hrest]

theorem parseDigits_decimal {n : Nat} (h : n < 2 ^ 63) : parseDigits 0 (decimal n) = some n := by
  have hvalue : (decimal n).foldl (fun n c => 10 * n + (c.toNat - 48)) 0 = n := decimalValue_decimal n
  rw [(parseDigits_eq (decimal n) (decimal_isDigit n) (by rw [hvalue]; exact h)).1, hvalue]

/-- Every time but the least is read back; its digits alone leave the range. -/
theorem parseI64_decimalInt {t : Int64} (h : t ≠ Int64.minValue) :
    parseI64 (decimalInt t.toInt) = some t := by
  have hmin : Int64.minValue.toInt = -2 ^ 63 := by decide
  have hlow : -2 ^ 63 ≤ t.toInt := t.le_toInt
  have hhigh : t.toInt < 2 ^ 63 := t.toInt_lt
  have hne : t.toInt ≠ -2 ^ 63 := fun heq => h (Int64.toInt_inj.mp (by rw [heq, hmin]))
  have hnat : t.toInt.natAbs < 2 ^ 63 := by omega
  rw [decimalInt]
  split
  · rename_i hneg
    show (if decimal t.toInt.natAbs = [] then none else _) = _
    rw [if_neg (decimal_ne_nil _), parseDigits_decimal hnat]
    have habs : -(t.toInt.natAbs : Int) = t.toInt := by omega
    rw [Option.map_some, habs, Int64.ofInt_toInt]
  · rename_i hpos
    obtain ⟨c, rest, hcons⟩ := List.exists_cons_of_ne_nil (decimal_ne_nil t.toInt.natAbs)
    have hc : c ≠ chr '-' := by
      rintro rfl
      exact absurd (decimal_isDigit t.toInt.natAbs (chr '-') (by rw [hcons]; exact List.mem_cons_self))
        (by decide)
    have hparse := parseDigits_decimal hnat
    have habs : (t.toInt.natAbs : Int) = t.toInt := by omega
    rw [hcons] at hparse ⊢
    show (if c = chr '-' then _ else _) = _
    rw [if_neg hc, hparse, Option.map_some, habs, Int64.ofInt_toInt]

/-- A digit appended: what does not fit is shifted out. -/
theorem nibble_wraps (value : UInt64) {nibble : UInt8} (hn : nibble.toNat < 16) :
    (value <<< 4 ||| nibble.toUInt64).toNat = (16 * value.toNat + nibble.toNat) % 2 ^ 64 := by
  have hshift : (value <<< 4).toNat = 2 ^ 4 * (value.toNat % 2 ^ 60) := by
    rw [UInt64.toNat_shiftLeft, Nat.shiftLeft_eq]
    show value.toNat * 2 ^ 4 % 2 ^ 64 = _
    omega
  rw [UInt64.toNat_or, hshift, UInt8.toNat_toUInt64, ← Nat.two_pow_add_eq_or_of_lt hn]
  omega

/-- A digit appended to a value that leaves room for it. -/
theorem nibble_toNat {value : UInt64} {nibble : UInt8} (hv : value.toNat < 2 ^ 60)
    (hn : nibble.toNat < 16) :
    (value <<< 4 ||| nibble.toUInt64).toNat = 16 * value.toNat + nibble.toNat := by
  rw [nibble_wraps value hn]
  omega

/-- The two digits of a byte have the values of its halves. -/
theorem hexByte_values (b : UInt8) :
    ∃ high low : UInt8, hexValue (hexDigit (b >>> 4)) = some high ∧
      hexValue (hexDigit (b &&& 15)) = some low ∧ high.toNat < 16 ∧ low.toNat < 16 ∧
        16 * high.toNat + low.toNat = b.toNat := by
  have hboth : ∀ b : UInt8, hexValue (hexDigit (b >>> 4)) = some (b >>> 4) ∧
      hexValue (hexDigit (b &&& 15)) = some (b &&& 15) ∧ (b >>> 4).toNat < 16 ∧
        (b &&& 15).toNat < 16 ∧ 16 * (b >>> 4).toNat + (b &&& 15).toNat = b.toNat := by
    apply byte_forall
    decide +kernel
  exact ⟨b >>> 4, b &&& 15, hboth b⟩

/-- From the digits above the lowest `n` bytes, the lowest `n` bytes complete the word. -/
theorem hexStep_bytes (v : UInt64) :
    ∀ (n : Nat) (value : UInt64), n ≤ 8 → value.toNat = v.toNat / 256 ^ n →
      (bin2hex (((List.range n).map fun i => (v >>> UInt64.ofNat (i * 8)).toUInt8).reverse)).foldlM
        hexStep value = some v := by
  intro n
  induction n with
  | zero =>
    intro value _ hvalue
    rw [Nat.pow_zero, Nat.div_one] at hvalue
    rw [UInt64.toNat_inj.mp hvalue]
    rfl
  | succ n ih =>
    intro value hn hvalue
    have hn64 : n * 8 % 2 ^ 64 % 64 = n * 8 := by omega
    have hpow : 2 ^ (n * 8) = 256 ^ n := by rw [Nat.mul_comm, Nat.pow_mul]
    have hbyte : ((v >>> UInt64.ofNat (n * 8)).toUInt8).toNat = v.toNat / 256 ^ n % 256 := by
      rw [UInt64.toNat_toUInt8, UInt64.toNat_shiftRight, UInt64.toNat_ofNat', hn64,
        Nat.shiftRight_eq_div_pow, hpow]
    have hroom : value.toNat < 2 ^ 56 := by
      rw [hvalue]
      calc v.toNat / 256 ^ (n + 1) ≤ v.toNat / 256 ^ 1 := Nat.div_le_div_left (Nat.pow_le_pow_right (by omega) (by omega)) (by omega)
        _ < 2 ^ 56 := by have := v.toNat_lt; omega
    obtain ⟨high, low, hhigh, hlow, hhigh16, hlow16, hsum⟩ :=
      hexByte_values (v >>> UInt64.ofNat (n * 8)).toUInt8
    have hfirst := nibble_toNat (by omega : value.toNat < 2 ^ 60) hhigh16
    have hsecond := nibble_toNat (by omega : (value <<< 4 ||| high.toUInt64).toNat < 2 ^ 60) hlow16
    rw [List.range_succ, List.map_append, List.reverse_append, List.map_singleton,
      List.reverse_singleton, List.singleton_append, bin2hex, List.flatMap_cons, hexByte, ← bin2hex]
    show (hexStep value _).bind (fun value' => (hexStep value' _).bind fun value'' =>
      List.foldlM hexStep value'' _) = _
    rw [hexStep, hhigh, Option.map_some, Option.bind_some, hexStep, hlow, Option.map_some,
      Option.bind_some]
    refine ih _ (by omega) ?_
    have hdiv : v.toNat / 256 ^ (n + 1) = v.toNat / 256 ^ n / 256 := by
      rw [Nat.pow_succ, Nat.div_div_eq_div_mul]
    omega

theorem parseU64Hex_hex16 (v : UInt64) : parseU64Hex (hex16 v) = some v := by
  have hlen : (hex16 v).length = 16 := by
    rw [hex16, bin2hex_length, List.length_reverse, u64Bytes_length]
  have hne : hex16 v ≠ [] := by
    intro h
    rw [h] at hlen
    exact nomatch hlen
  have hzero : v.toNat / 256 ^ 8 = 0 := Nat.div_eq_of_lt v.toNat_lt
  rw [parseU64Hex, if_neg hne]
  exact hexStep_bytes v 8 0 (Nat.le_refl 8) hzero.symm

/-! ## Every line is taken apart again -/

theorem writeFields_cons (field next : Bytes) (fields : List Bytes) :
    writeFields (field :: next :: fields) = field ++ chr '|' :: writeFields (next :: fields) := by
  simp [writeFields, List.intercalate]

theorem takeWhile_field {field : Bytes} (h : chr '|' ∉ field) (rest : Bytes) :
    (field ++ rest).dropWhile (· ≠ chr '|') = rest.dropWhile (· ≠ chr '|') ∧
      (field ++ rest).takeWhile (· ≠ chr '|') = field ++ rest.takeWhile (· ≠ chr '|') := by
  have hall : ∀ c ∈ field, decide (c ≠ chr '|') = true := by
    intro c hc
    exact decide_eq_true fun heq => h (heq ▸ hc)
  exact ⟨List.dropWhile_append_of_pos hall, List.takeWhile_append_of_pos hall⟩

theorem splitFields_last {field : Bytes} (h : chr '|' ∉ field) : splitFields field 1 = some [field] := by
  obtain ⟨hdrop, htake⟩ := takeWhile_field h []
  rw [List.append_nil] at hdrop htake
  rw [splitFields.eq_def]
  simp only [hdrop, htake, List.dropWhile_nil, List.takeWhile_nil, List.append_nil]

theorem splitFields_cons {field : Bytes} (h : chr '|' ∉ field) (rest : Bytes) (count : Nat) :
    splitFields (field ++ chr '|' :: rest) (count + 2) =
      (splitFields rest (count + 1)).map (field :: ·) := by
  obtain ⟨hdrop, htake⟩ := takeWhile_field h (chr '|' :: rest)
  have hstop : (chr '|' :: rest).dropWhile (· ≠ chr '|') = chr '|' :: rest := by simp
  have hempty : (chr '|' :: rest).takeWhile (· ≠ chr '|') = [] := by simp
  rw [splitFields.eq_def]
  simp only [hdrop, htake, hstop, hempty, List.append_nil]

/-- **Fields without a separator** are the ones the line is split into. -/
theorem splitFields_writeFields {field : Bytes} :
    ∀ {fields : List Bytes}, (∀ f ∈ field :: fields, Clean f) →
      splitFields (writeFields (field :: fields)) (fields.length + 1) = some (field :: fields) := by
  intro fields
  induction fields generalizing field with
  | nil =>
    intro hclean
    have hline : writeFields [field] = field := by simp [writeFields, List.intercalate]
    rw [hline]
    exact splitFields_last (hclean field List.mem_cons_self).1
  | cons next fields ih =>
    intro hclean
    rw [writeFields_cons, List.length_cons, splitFields_cons (hclean field List.mem_cons_self).1,
      ih fun f hf => hclean f (List.mem_cons_of_mem field hf)]
    rfl

/-- A line of clean fields has no line break. -/
theorem writeFields_no_break {fields : List Bytes} (h : ∀ f ∈ fields, Clean f) :
    chr '\n' ∉ writeFields fields :=
  not_mem_intercalate (by decide) fun f hf => (h f hf).2

/-! ## The audit chain -/

/-- What `write_audit_record` writes in front of its line break. -/
def auditRecordLine (r : AuditRecord) : Bytes :=
  writeFields [decimalInt r.timestamp.toInt, hex16 r.previousHash, hex16 r.hash,
    writeEscaped r.eventType, writeEscaped r.summary]

/-- The file of a chain: the header and the lines of its records. -/
def auditStoreText (chain : AuditChain) : Bytes :=
  (str "sc-audit-store-v1" :: chain.map auditRecordLine).flatMap (· ++ [chr '\n'])

/-- `sc_audit_chain_save_file`: what the file holds. -/
def auditChainSaveFile (chain : AuditChain) : Res Bytes :=
  if !auditChainVerify chain then Status.securityDenied "sc.audit.store.tamper_detected"
  else .ok (auditStoreText chain)

/-- `load_audit_record` -/
def loadAuditRecord (chain : AuditChain) (line : Bytes) : Res AuditChain :=
  match splitFields line 5 with
  | some [timestamp, previousHash, hash, eventType, summary] =>
      match parseI64 timestamp, parseU64Hex previousHash, parseU64Hex hash with
      | some timestamp, some previousHash, some hash => do
          let eventType ← decodeEscaped eventType
          let summary ← decodeEscaped summary
          .ok (chain ++ [{
            eventType := eventType
            summary := summary
            timestamp := timestamp
            previousHash := previousHash
            hash := hash }])
      | _, _, _ => Status.parse "sc.audit.store.record_invalid"
  | _ => Status.parse "sc.audit.store.record_invalid"

/-- `sc_audit_chain_load_file`, from what opening and reading the file give. -/
def auditChainLoadFile (file : Res Bytes) : Res AuditChain := do
  let body ← file
  match lines (chr '\n') body with
  | [] => Status.parse "sc.audit.store.header_invalid"
  | header :: records =>
      if header ≠ str "sc-audit-store-v1" then Status.parse "sc.audit.store.header_invalid"
      else do
        let chain ← runOk loadAuditRecord [] records
        if !auditChainVerify chain then Status.securityDenied "sc.audit.store.tamper_detected"
        else .ok chain

/-! ## The receipt chain -/

/-- What `write_receipt` writes in front of its line break. -/
def receiptLine (r : ToolReceipt) : Bytes :=
  writeFields [decimalInt r.startedAt.toInt, decimalInt r.endedAt.toInt,
    (if r.success then str "1" else str "0"), hex16 r.previousHash, hex16 r.hash,
    writeEscaped r.toolName.bytes, writeEscaped r.argsSummary.bytes,
    writeEscaped r.outputSummary.bytes, writeEscaped r.policyDecision.bytes,
    writeEscaped r.failureReason.bytes, writeEscaped r.outcome.bytes, writeEscaped r.token]

/-- The two files of a receipt chain. -/
structure ReceiptFiles where
  key : Bytes
  store : Bytes

section
variable (hmac : Digest → Bytes → Digest)

/-- `sc_receipt_chain_save_file`: what the two files hold. -/
def receiptChainSaveFile (chain : ReceiptChain) : Res ReceiptFiles :=
  if !chain.keyInitialized then Status.invalidArgument "sc.receipt.store.invalid_argument"
  else if !receiptChainVerify hmac chain then
    Status.securityDenied "sc.receipt.store.tamper_detected"
  else
    .ok {
      key := chain.sessionKey.toList
      store := (str "sc-receipt-store-v2" :: chain.receipts.map receiptLine).flatMap
        (· ++ [chr '\n']) }

/-- `load_receipt` -/
def loadReceipt (chain : ReceiptChain) (line : Bytes) : Res ReceiptChain :=
  match splitFields line 12 with
  | some [started, ended, success, previousHash, hash, toolName, args, output, decision, reason,
      outcome, token] =>
      match parseI64 started, parseI64 ended, parseU64Hex previousHash, parseU64Hex hash with
      | some started, some ended, some previousHash, some hash =>
          if success ≠ str "0" ∧ success ≠ str "1" then Status.parse "sc.receipt.store.record_invalid"
          else do
            let toolName ← decodeSized toolName
            let args ← decodeSized args
            let output ← decodeSized output
            let decision ← decodeSized decision
            let reason ← decodeSized reason
            let outcome ← decodeSized outcome
            let token ← decodeEscaped token
            .ok { chain with receipts := chain.receipts ++ [{
              toolName := toolName
              argsSummary := args
              outputSummary := output
              token := token
              startedAt := started
              endedAt := ended
              success := success == str "1"
              previousHash := previousHash
              hash := hash
              policyDecision := decision
              failureReason := reason
              outcome := outcome }] }
      | _, _, _, _ => Status.parse "sc.receipt.store.record_invalid"
  | _ => Status.parse "sc.receipt.store.record_invalid"

/-- `load_receipt_key`: the file has to have the size of a key. -/
def loadReceiptKey (file : Res Bytes) : Res Digest := do
  let key ← file
  if h : key.length = 32 then .ok ⟨key.toArray, by simpa using h⟩
  else Status.securityDenied "sc.receipt.store.key_invalid"

/-- `sc_receipt_chain_load_file`, from what opening and reading the two files give. -/
def receiptChainLoadFile (file key : Res Bytes) : Res ReceiptChain := do
  let body ← file
  match lines (chr '\n') body with
  | [] => Status.parse "sc.receipt.store.header_invalid"
  | header :: records =>
      if header ≠ str "sc-receipt-store-v2" then Status.parse "sc.receipt.store.header_invalid"
      else do
        let sessionKey ← loadReceiptKey key
        let chain ← runOk loadReceipt
          { receipts := [], sessionKey := sessionKey, keyInitialized := true } records
        if !receiptChainVerify hmac chain then
          Status.securityDenied "sc.receipt.store.tamper_detected"
        else .ok chain

end

/-! ## Round trip -/

theorem auditRecordFields_clean (r : AuditRecord) :
    ∀ f ∈ [decimalInt r.timestamp.toInt, hex16 r.previousHash, hex16 r.hash,
      writeEscaped r.eventType, writeEscaped r.summary], Clean f := by
  simp only [List.forall_mem_cons, List.not_mem_nil, false_implies, implies_true, and_true]
  exact ⟨clean_decimalInt _, clean_hex16 _, clean_hex16 _, clean_writeEscaped _, clean_writeEscaped _⟩

/-- **A record's line** adds the record. -/
theorem loadAuditRecord_line {r : AuditRecord} (h : r.timestamp ≠ Int64.minValue) (chain : AuditChain) :
    loadAuditRecord chain (auditRecordLine r) = .ok (chain ++ [r]) := by
  have hsplit := splitFields_writeFields (auditRecordFields_clean r)
  rw [loadAuditRecord, auditRecordLine]
  simp only [List.length_cons, List.length_nil] at hsplit
  simp only [hsplit, parseI64_decimalInt h, parseU64Hex_hex16, decodeEscaped_writeEscaped]
  rfl

theorem receiptFields_clean (r : ToolReceipt) :
    ∀ f ∈ [decimalInt r.startedAt.toInt, decimalInt r.endedAt.toInt,
      (if r.success then str "1" else str "0"), hex16 r.previousHash, hex16 r.hash,
      writeEscaped r.toolName.bytes, writeEscaped r.argsSummary.bytes,
      writeEscaped r.outputSummary.bytes, writeEscaped r.policyDecision.bytes,
      writeEscaped r.failureReason.bytes, writeEscaped r.outcome.bytes, writeEscaped r.token], Clean f := by
  have hsuccess : Clean (if r.success then str "1" else str "0") := by
    unfold Clean
    cases r.success <;> decide
  simp only [List.forall_mem_cons, List.not_mem_nil, false_implies, implies_true, and_true]
  exact ⟨clean_decimalInt _, clean_decimalInt _, hsuccess, clean_hex16 _, clean_hex16 _,
    clean_writeEscaped _, clean_writeEscaped _, clean_writeEscaped _, clean_writeEscaped _,
    clean_writeEscaped _, clean_writeEscaped _, clean_writeEscaped _⟩

/-- **A receipt's line** adds the receipt. -/
theorem loadReceipt_line {r : ToolReceipt} (hstart : r.startedAt ≠ Int64.minValue)
    (hend : r.endedAt ≠ Int64.minValue) (chain : ReceiptChain) :
    loadReceipt chain (receiptLine r) = .ok { chain with receipts := chain.receipts ++ [r] } := by
  have hsplit := splitFields_writeFields (receiptFields_clean r)
  have hkind : ¬ ((if r.success then str "1" else str "0") ≠ str "0" ∧
      (if r.success then str "1" else str "0") ≠ str "1") := by
    cases r.success <;> decide
  have hsuccess : ((if r.success then str "1" else str "0") == str "1") = r.success := by
    cases r.success <;> decide
  rw [loadReceipt, receiptLine]
  simp only [List.length_cons, List.length_nil] at hsplit
  simp only [hsplit, parseI64_decimalInt hstart, parseI64_decimalInt hend, parseU64Hex_hex16, if_neg hkind,
    decodeSized_writeEscaped, decodeEscaped_writeEscaped, hsuccess]
  rfl

/-- What is written line by line, behind a header. -/
theorem lines_store (header : Bytes) (hheader : chr '\n' ∉ header) {α : Type} (line : α → Bytes)
    (hline : ∀ a, chr '\n' ∉ line a) (records : List α) :
    lines (chr '\n') ((header :: records.map line).flatMap (· ++ [chr '\n'])) =
      header :: records.map line := by
  refine lines_render ?_
  intro l hl
  rcases List.mem_cons.mp hl with rfl | hl
  · exact hheader
  · obtain ⟨a, -, rfl⟩ := List.mem_map.mp hl
    exact hline a

/-- The chain with one more record. -/
def addRecord (chain : AuditChain) (r : AuditRecord) : AuditChain := chain ++ [r]

theorem run_addRecord (records chain : AuditChain) : run addRecord chain records = chain ++ records := by
  induction records generalizing chain with
  | nil => rw [List.append_nil]; rfl
  | cons r records ih =>
    show run addRecord (chain ++ [r]) records = _
    rw [ih, List.append_assoc, List.singleton_append]

/-- **The file of an audit chain** that verifies is read back. -/
theorem auditChainLoadFile_text {chain : AuditChain} (hverify : auditChainVerify chain = true)
    (htime : ∀ r ∈ chain, r.timestamp ≠ Int64.minValue) :
    auditChainLoadFile (.ok (auditStoreText chain)) = .ok chain := by
  have hlines := lines_store (str "sc-audit-store-v1") (by decide) auditRecordLine
    (fun r => writeFields_no_break (auditRecordFields_clean r)) chain
  have hload : runOk loadAuditRecord [] (chain.map auditRecordLine) = .ok chain := by
    have hstep : ∀ r ∈ chain, ∀ c, loadAuditRecord c (auditRecordLine r) = .ok (addRecord c r) :=
      fun r hr c => loadAuditRecord_line (htime r hr) c
    rw [runOk_map hstep, run_addRecord, List.nil_append]
  refine Res.bind_eq_ok.mpr ⟨_, rfl, ?_⟩
  rw [auditStoreText, hlines]
  simp only [ne_eq, not_true_eq_false, if_false]
  refine Res.bind_eq_ok.mpr ⟨chain, hload, ?_⟩
  rw [hverify]
  rfl

/-- The chain with one more receipt. -/
def addReceipt (chain : ReceiptChain) (r : ToolReceipt) : ReceiptChain :=
  { chain with receipts := chain.receipts ++ [r] }

theorem run_addReceipt (records : List ToolReceipt) (chain : ReceiptChain) :
    run addReceipt chain records = { chain with receipts := chain.receipts ++ records } := by
  induction records generalizing chain with
  | nil => rw [List.append_nil]; rfl
  | cons r records ih =>
    show run addReceipt (addReceipt chain r) records = _
    rw [ih, addReceipt, List.append_assoc, List.singleton_append]

/-- **The files of a receipt chain** that verifies and has its key are read back. -/
theorem receiptChainLoadFile_save {hmac : Digest → Bytes → Digest} {chain : ReceiptChain}
    (hkey : chain.keyInitialized = true) (hverify : receiptChainVerify hmac chain = true)
    (htime : ∀ r ∈ chain.receipts, r.startedAt ≠ Int64.minValue ∧ r.endedAt ≠ Int64.minValue) :
    ∃ files, receiptChainSaveFile hmac chain = .ok files ∧
      receiptChainLoadFile hmac (.ok files.store) (.ok files.key) = .ok chain := by
  refine ⟨_, by rw [receiptChainSaveFile, hkey, hverify]; rfl, ?_⟩
  have hlines := lines_store (str "sc-receipt-store-v2") (by decide) receiptLine
    (fun r => writeFields_no_break (receiptFields_clean r)) chain.receipts
  have hsize : chain.sessionKey.toList.length = 32 := by simp
  have hkeyfile : loadReceiptKey (.ok chain.sessionKey.toList) = .ok chain.sessionKey := by
    refine Res.bind_eq_ok.mpr ⟨_, rfl, ?_⟩
    rw [dif_pos hsize]
    congr 1
  have hempty : ({ receipts := [], sessionKey := chain.sessionKey, keyInitialized := true } :
      ReceiptChain) = { chain with receipts := [] } := by rw [← hkey]
  have hload : runOk loadReceipt { receipts := [], sessionKey := chain.sessionKey, keyInitialized := true }
      (chain.receipts.map receiptLine) = .ok chain := by
    have hstep : ∀ r ∈ chain.receipts, ∀ c, loadReceipt c (receiptLine r) = .ok (addReceipt c r) :=
      fun r hr c => loadReceipt_line (htime r hr).1 (htime r hr).2 c
    rw [hempty, runOk_map hstep, run_addReceipt]
    rfl
  refine Res.bind_eq_ok.mpr ⟨_, rfl, ?_⟩
  rw [hlines]
  simp only [ne_eq, not_true_eq_false, if_false]
  refine Res.bind_eq_ok.mpr ⟨_, hkeyfile, Res.bind_eq_ok.mpr ⟨chain, hload, ?_⟩⟩
  rw [hverify]
  rfl

/-! ## Every chain that appending builds -/

/-- The arguments of `sc_audit_chain_append`, and the time of the call. -/
structure AuditCall where
  eventType : Bytes
  summary : Bytes
  now : Int64

/-- A call of `sc_audit_chain_append`. -/
def auditAppend (chain : AuditChain) (call : AuditCall) : Res AuditChain :=
  auditChainAppend chain call.eventType call.summary call.now

/-- What the two files of a chain are there for. -/
def AuditRoundTrip (chain : AuditChain) : Prop :=
  ∃ file, auditChainSaveFile chain = .ok file ∧ auditChainLoadFile (.ok file) = .ok chain ∧
    auditChainVerify chain = true

/-- The same for receipts: a chain without a key is not saved, and every other one is. -/
def ReceiptRoundTrip (hmac : Digest → Bytes → Digest) (chain : ReceiptChain) : Prop :=
  (chain.keyInitialized = true → ∃ files, receiptChainSaveFile hmac chain = .ok files) ∧
    ∀ files, receiptChainSaveFile hmac chain = .ok files →
      receiptChainLoadFile hmac (.ok files.store) (.ok files.key) = .ok chain ∧
        receiptChainVerify hmac chain = true

theorem auditRoundTrip_of_built {calls : List AuditCall} {chain : AuditChain}
    (hnow : ∀ call ∈ calls, call.now ≠ Int64.minValue) (h : runOk auditAppend [] calls = .ok chain) :
    AuditRoundTrip chain := by
  have hbuilt : auditChainVerify chain = true ∧ ∀ r ∈ chain, r.timestamp ≠ Int64.minValue := by
    refine runOk_invariant_of_mem
      (I := fun c => auditChainVerify c = true ∧ ∀ r ∈ c, r.timestamp ≠ Int64.minValue) ?_ ?_ h
    · rintro call hcall c c' ⟨hverify, htime⟩ hstep
      refine ⟨auditChainAppend_verify hverify hstep, ?_⟩
      unfold auditAppend auditChainAppend at hstep
      split at hstep
      · exact absurd hstep (Status.invalidArgument_ne_ok _ _)
      · obtain rfl := Except.ok.inj hstep
        intro r hr
        rcases List.mem_append.mp hr with hr | hr
        · exact htime r hr
        · rw [List.mem_singleton.mp hr]
          exact hnow call hcall
    · exact ⟨rfl, fun r hr => absurd hr List.not_mem_nil⟩
  have hsave : auditChainSaveFile chain = .ok (auditStoreText chain) := by
    rw [auditChainSaveFile, hbuilt.1]
    rfl
  exact ⟨_, hsave, auditChainLoadFile_text hbuilt.1 hbuilt.2, hbuilt.1⟩

theorem receiptRoundTrip_of_built {hmac : Digest → Bytes → Digest} {random : Option Digest}
    {calls : List ReceiptCall} {chain : ReceiptChain}
    (hclock : ∀ call ∈ calls, call.clock ≠ .ok Int64.minValue)
    (h : runOk (receiptChainAppendEx hmac) (receiptChainInit random) calls = .ok chain) :
    ReceiptRoundTrip hmac chain := by
  have hverify : receiptChainVerify hmac chain = true := built_verifies h
  have htime : ∀ r ∈ chain.receipts, r.startedAt ≠ Int64.minValue ∧ r.endedAt ≠ Int64.minValue := by
    refine runOk_invariant_of_mem (I := fun c : ReceiptChain =>
      ∀ r ∈ c.receipts, r.startedAt ≠ Int64.minValue ∧ r.endedAt ≠ Int64.minValue) ?_ ?_ h
    · intro call hcall c c' htime hstep
      unfold receiptChainAppendEx at hstep
      split at hstep
      · exact absurd hstep (Status.invalidArgument_ne_ok _ _)
      · obtain ⟨now, hnow, hstep⟩ := Res.bind_eq_ok.mp hstep
        obtain ⟨token, -, hstep⟩ := Res.bind_eq_ok.mp hstep
        obtain rfl := Except.ok.inj hstep
        have hne : now ≠ Int64.minValue := fun heq => hclock call hcall (heq ▸ hnow)
        intro r hr
        rcases List.mem_append.mp hr with hr | hr
        · exact htime r hr
        · rw [List.mem_singleton.mp hr]
          exact ⟨hne, hne⟩
    · intro r hr
      cases random <;> exact absurd hr List.not_mem_nil
  refine ⟨fun hkey => ?_, fun files hsave => ?_⟩
  · obtain ⟨files, hsave, -⟩ := receiptChainLoadFile_save hkey hverify htime
    exact ⟨files, hsave⟩
  · have hkey : chain.keyInitialized = true := by
      by_contra hkey
      rw [receiptChainSaveFile, if_pos (by simpa using hkey)] at hsave
      exact absurd hsave (Status.invalidArgument_ne_ok _ _)
    obtain ⟨files', hsave', hload⟩ := receiptChainLoadFile_save hkey hverify htime
    obtain rfl := Except.ok.inj (hsave.symm.trans hsave')
    exact ⟨hload, hverify⟩

/-- **The stores round-trip**: what appending builds is what a later process loads. -/
theorem storeRoundTrip (hmac : Digest → Bytes → Digest) :
    (∀ (calls : List AuditCall) (chain : AuditChain),
      (∀ call ∈ calls, call.now ≠ Int64.minValue) → runOk auditAppend [] calls = .ok chain →
        AuditRoundTrip chain) ∧
    ∀ (random : Option Digest) (calls : List ReceiptCall) (chain : ReceiptChain),
      (∀ call ∈ calls, call.clock ≠ .ok Int64.minValue) →
        runOk (receiptChainAppendEx hmac) (receiptChainInit random) calls = .ok chain →
          ReceiptRoundTrip hmac chain :=
  ⟨fun _ _ hnow h => auditRoundTrip_of_built hnow h,
    fun _ _ _ hclock h => receiptRoundTrip_of_built hclock h⟩

/-- Two events with separators, marks, line ends and a NUL in their texts. -/
def specialEvents : List AuditCall :=
  [⟨str "tool|run", [chr '|', chr '%', chr '\n', 0, 127, 200], 1⟩, ⟨str "%7C", str "100%\n", -2⟩]

/-- A receipt with such texts. -/
def specialReceipt : ReceiptCall where
  toolName := ⟨str "shell|x", by decide⟩
  argsSummary := ⟨[chr '|', chr '%', chr '\n', 0], by decide⟩
  outputSummary := ⟨str "a\nb", by decide⟩
  success := false
  policyDecision := ⟨str "%41", by decide⟩
  failureReason := ⟨[], by decide⟩
  outcome := ⟨str "|", by decide⟩
  clock := .ok (-5)

theorem storeRoundTrip_special :
    (∃ chain, runOk auditAppend [] specialEvents = .ok chain ∧ AuditRoundTrip chain) ∧
    ∃ chain, runOk (receiptChainAppendEx fun key _ => key) (receiptChainInit (some (Vector.replicate 32 7)))
        [specialReceipt, specialReceipt] = .ok chain ∧ ReceiptRoundTrip (fun key _ => key) chain := by
  have haudit := (storeRoundTrip fun key _ => key).1 specialEvents _ (by decide) rfl
  have hreceipts := (storeRoundTrip fun key _ => key).2 (some (Vector.replicate 32 7))
    [specialReceipt, specialReceipt] _ (by decide) rfl
  exact ⟨⟨_, rfl, haudit⟩, ⟨_, rfl, hreceipts⟩⟩

end SmolClaw.Security
