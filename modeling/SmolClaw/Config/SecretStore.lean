/-
  The file secret store (`src/config/config_secret_store.c`).

  1. **Program** — a put changes the map in memory and then writes the whole map into a new file, one
     line for each path, which replaces the old file; opening the store reads the lines back through a
     buffer of 64 KiB.

  2. **Specification** — `Durable`: opening the file gives for every path the value of the last put
     that returned OK, and no other path.

  3. **Defect** — the path stands in its line as it is, so a tab, a line feed or a leading `#` breaks
     the line, and a line of more than 65535 bytes is read as two; a put whose flush fails stays in
     memory and is written by the next flush that succeeds.

  4. **Result** — `durable_run`: in every run in which no successful put meets one of these, the store
     is durable.

  The order in which the map's slots are written and the nonces are the environment's choice.
-/
import Mathlib.Data.List.DropRight
import Mathlib.Logic.Function.Basic
import SmolClaw.Core.Base64
import SmolClaw.Lib.Run
import SmolClaw.Lib.Table

namespace SmolClaw.Config

open Lib.Run Lib.Table

/-! ## The library -/

/-- `crypto_secretbox_NONCEBYTES` -/
def nonceBytes : Nat := 24
/-- `crypto_secretbox_MACBYTES` -/
def macBytes : Nat := 16

/-- A nonce, as `randombytes_buf` fills it. -/
abbrev Nonce := { bytes : Bytes // bytes.length = nonceBytes }

/-- What the store uses of libsodium, and what it relies on: decoding inverts encoding, opening
    inverts sealing under the same nonce and key, and the documented lengths and characters. -/
structure Sodium where
  bin2base64 : Bytes → Bytes
  base642bin : Bytes → Option Bytes
  secretboxEasy : Bytes → Nonce → Bytes → Bytes
  secretboxOpenEasy : Bytes → Bytes → Bytes → Option Bytes
  base642bin_bin2base64 : ∀ bin, base642bin (bin2base64 bin) = some bin
  bin2base64_length : ∀ bin, (bin2base64 bin).length = base64EncodedLen bin.length
  bin2base64_isBase64 : ∀ bin, ∀ c ∈ bin2base64 bin, isBase64 c = true
  open_easy : ∀ plain nonce key,
    secretboxOpenEasy (secretboxEasy plain nonce key) nonce.val key = some plain
  easy_length : ∀ plain nonce key, (secretboxEasy plain nonce key).length = macBytes + plain.length

/-! ## The store -/

/-- An entry of the map. -/
structure Secret where
  path : Bytes
  value : Bytes
  deriving DecidableEq, Repr

/-- `file_secret_store`: the map in memory, and the file on disk if there is one. -/
structure FileSecretStore where
  values : List Secret := []
  file : Option Bytes := none

/-- `file_store_set_plain` -/
def fileStoreSetPlain (values : List Secret) (path value : Bytes) : List Secret :=
  upsert Secret.path ⟨path, value⟩ values

/-- `%.*s` with the precision `(int)path.len`: a negative one is none. -/
def formatPath (path : Bytes) : Bytes :=
  let precision := path.length % 2 ^ 32
  (if precision < 2 ^ 31 then path.take precision else path).takeWhile (· != 0)

/-- The line `append_encrypted_record` writes, up to its line feed. -/
def encryptedRecord (sodium : Sodium) (key : Bytes) (nonce : Nonce) (secret : Secret) : Bytes :=
  formatPath secret.path ++ chr '\t' ::
    sodium.bin2base64 (nonce.val ++ sodium.secretboxEasy secret.value nonce key)

/-- The choices behind one flush that succeeds: the order of the map's slots and the nonces. -/
structure Flush where
  order : List Secret → List Secret
  order_perm : ∀ secrets, (order secrets).Perm secrets
  nonce : Bytes → Nonce

/-- The file `flush_secret_file` leaves. -/
def secretFileText (sodium : Sodium) (key : Bytes) (nonce : Bytes → Nonce) (secrets : List Secret) :
    Bytes :=
  str "SCSECRETS1\n" ++
    secrets.flatMap fun s => encryptedRecord sodium key (nonce s.path) s ++ [chr '\n']

/-- A call of `file_secret_put`, with what becomes of its flush: one of the file operations fails, or
    none does. -/
structure Put where
  path : Bytes
  value : Bytes
  flush : Except ScError Flush

/-- `file_secret_put` -/
def fileSecretPut (sodium : Sodium) (key : Bytes) (store : FileSecretStore) (put : Put) :
    FileSecretStore × Res Unit :=
  if put.path = [] then (store, Status.invalidArgument "sc.secret_store.file_invalid_argument")
  else
    let values := fileStoreSetPlain store.values put.path put.value
    match put.flush with
    | .error e => ({ store with values := values }, .error e)
    | .ok flush =>
        ({ values := values, file := some (secretFileText sodium key flush.nonce (flush.order values)) },
          .ok ())

/-- `file_secret_get` -/
def fileSecretGet (store : FileSecretStore) (path : Bytes) : Res Bytes :=
  match lookup Secret.path path store.values with
  | some secret => .ok secret.value
  | none => Status.invalidArgument "sc.secret_store.not_found"

/-! ## Opening -/

/-- The bytes `fgets` reads at most into the buffer of 65536. -/
def fgetsRoom : Nat := 65535

/-- The lines `fgets` delivers, from a line that has been read in part and still has some room. -/
def fgetsFrom : Nat → Bytes → Bytes → List Bytes
  | _, line, [] => if line = [] then [] else [line]
  | room, line, c :: rest =>
      if c = chr '\n' ∨ room ≤ 1 then (line ++ [c]) :: fgetsFrom fgetsRoom [] rest
      else fgetsFrom (room - 1) (line ++ [c]) rest

/-- The text of a line: up to a NUL, without the line ends behind it. -/
def lineText (line : Bytes) : Bytes :=
  (line.takeWhile (· != 0)).rdropWhile fun c => c == chr '\n' || c == chr '\r'

/-- `decrypt_secret_line` -/
def decryptSecretLine (sodium : Sodium) (key : Bytes) (values : List Secret) (path encoded : Bytes) :
    Res (List Secret) :=
  if encoded.length < nonceBytes + macBytes then Status.parse "sc.secret_store.invalid_record"
  else
    match sodium.base642bin encoded with
    | none => Status.parse "sc.secret_store.invalid_record"
    | some packed =>
        if packed.length < nonceBytes + macBytes then Status.parse "sc.secret_store.invalid_record"
        else
          match sodium.secretboxOpenEasy (packed.drop nonceBytes) (packed.take nonceBytes) key with
          | none => Status.securityDenied "sc.secret_store.decrypt_failed"
          | some plain => .ok (fileStoreSetPlain values path plain)

/-- One turn of the loop of `load_secret_file`, behind the header. -/
def loadLine (sodium : Sodium) (key : Bytes) (values : List Secret) (line : Bytes) :
    Res (List Secret) :=
  let text := lineText line
  if text = [] ∨ text.head? = some (chr '#') then .ok values
  else
    let path := text.takeWhile (· != chr '\t')
    let encoded := text.drop (path.length + 1)
    if chr '\t' ∉ text ∨ path = [] ∨ encoded = [] then Status.parse "sc.secret_store.invalid_record"
    else decryptSecretLine sodium key values path encoded

/-- `load_secret_file`: a missing file is an empty store; the header is skipped where it is the first
    line. -/
def loadSecretFile (sodium : Sodium) (key : Bytes) (file : Option Bytes) : Res (List Secret) :=
  match file with
  | none => .ok []
  | some bytes =>
      match fgetsFrom fgetsRoom [] bytes with
      | [] => .ok []
      | first :: lines =>
          if lineText first = str "SCSECRETS1" then lines.foldlM (loadLine sodium key) []
          else (first :: lines).foldlM (loadLine sodium key) []

/-- `sc_secret_store_file_new`, with the key that is there. -/
def openStore (sodium : Sodium) (key : Bytes) (file : Option Bytes) : Res FileSecretStore :=
  (loadSecretFile sodium key file).map fun values => ⟨values, file⟩

/-! ## The specification -/

/-- The store together with what its callers were told: the value of the last put of each path that
    returned OK. -/
structure Tracked where
  store : FileSecretStore := {}
  kept : Bytes → Option Bytes := fun _ => none

/-- A put as a step. -/
def putStep (sodium : Sodium) (key : Bytes) (t : Tracked) (put : Put) : Tracked :=
  match fileSecretPut sodium key t.store put with
  | (store, .ok ()) => ⟨store, Function.update t.kept put.path (some put.value)⟩
  | (store, .error _) => ⟨store, t.kept⟩

/-- **The store is a durable map**: reopening it succeeds and finds what its callers were told. -/
def Durable (sodium : Sodium) (key : Bytes) (t : Tracked) : Prop :=
  ∃ reopened, openStore sodium key t.store.file = .ok reopened ∧
    ∀ path, fileSecretGet reopened path =
      match t.kept path with
      | some value => .ok value
      | none => Status.invalidArgument "sc.secret_store.not_found"

/-- A path and a value whose line is read back: no tab, no line feed, no NUL, no `#` at the front, and
    short enough for the buffer. -/
structure OneRecord (path value : Bytes) : Prop where
  ne_nil : path ≠ []
  no_nul : 0 ∉ path
  no_lf : chr '\n' ∉ path
  no_tab : chr '\t' ∉ path
  no_hash : path.head? ≠ some (chr '#')
  short : path.length + 1 + base64EncodedLen (nonceBytes + macBytes + value.length) ≤ fgetsRoom

/-- A put that meets no defect: if it succeeds, its record is one line and no earlier put that failed
    is still pending in memory. -/
def Clean (t : Tracked) (put : Put) : Prop :=
  ∀ flush, put.flush = .ok flush → put.path ≠ [] →
    OneRecord put.path put.value ∧
      ∀ q, q ≠ put.path → (lookup Secret.path q t.store.values).map Secret.value = t.kept q

/-! ## Lines -/

/-- A line of the file comes through the buffer whole; only its line feed may come in a read of its
    own. -/
theorem fgetsFrom_line (rest : Bytes) :
    ∀ (s : Bytes) (room : Nat) (line : Bytes), chr '\n' ∉ s → s.length ≤ room → 0 < room →
      fgetsFrom room line (s ++ chr '\n' :: rest) =
        (line ++ s ++ [chr '\n']) :: fgetsFrom fgetsRoom [] rest ∨
      (s.length = room ∧ fgetsFrom room line (s ++ chr '\n' :: rest) =
        (line ++ s) :: [chr '\n'] :: fgetsFrom fgetsRoom [] rest) := by
  intro s
  induction s with
  | nil =>
    intro room line _ _ _
    left
    rw [List.append_nil, List.nil_append, fgetsFrom, if_pos (Or.inl rfl)]
  | cons c s ih =>
    intro room line hlf hlen hroom
    rw [List.mem_cons, not_or] at hlf
    obtain ⟨hc, hs⟩ := hlf
    rw [List.length_cons] at hlen
    rw [List.cons_append]
    by_cases hlast : room ≤ 1
    · -- the buffer is full behind `c`, and the line feed is all that is left of the line
      right
      obtain rfl : s = [] := List.length_eq_zero_iff.mp (by omega)
      refine ⟨by rw [List.length_singleton]; omega, ?_⟩
      rw [fgetsFrom, if_pos (Or.inr hlast), List.nil_append, fgetsFrom, if_pos (Or.inl rfl),
        List.nil_append]
    · have hrec : fgetsFrom room line (c :: (s ++ chr '\n' :: rest)) =
          fgetsFrom (room - 1) (line ++ [c]) (s ++ chr '\n' :: rest) := by
        rw [fgetsFrom, if_neg]
        rintro (h | h)
        · exact hc h.symm
        · exact hlast h
      rw [hrec]
      have happ : line ++ [c] ++ s = line ++ c :: s := by simp
      have hrest := ih (room - 1) (line ++ [c]) hs (by omega) (by omega)
      rw [happ] at hrest
      rw [List.length_cons]
      exact hrest.imp_right fun ⟨hfull, hread⟩ => ⟨by omega, hread⟩

/-- A text without a NUL that ends in no line end is the text of its line. -/
theorem lineText_eq {s : Bytes} {d : UInt8} (hnul : 0 ∉ s ++ [d])
    (hd : (d == chr '\n' || d == chr '\r') = false) :
    lineText (s ++ [d]) = s ++ [d] ∧ lineText (s ++ [d] ++ [chr '\n']) = s ++ [d] := by
  have htake : ∀ t : Bytes, 0 ∉ t → t.takeWhile (· != 0) = t := by
    intro t ht
    rw [List.takeWhile_eq_self_iff]
    intro c hc
    exact bne_iff_ne.mpr fun h => ht (h ▸ hc)
  have hstrip : (s ++ [d]).rdropWhile (fun c => c == chr '\n' || c == chr '\r') = s ++ [d] :=
    List.rdropWhile_concat_neg _ _ _ (by rw [hd]; exact Bool.false_ne_true)
  constructor
  · rw [lineText, htake _ hnul, hstrip]
  · rw [lineText, htake, List.rdropWhile_concat_pos _ _ _ (by decide), hstrip]
    rw [List.mem_append, not_or]
    exact ⟨hnul, by decide⟩

/-- A base64 character ends no line, starts no comment and separates nothing. -/
theorem isBase64_plain {c : UInt8} (h : isBase64 c = true) :
    c ≠ 0 ∧ c ≠ chr '\n' ∧ c ≠ chr '\r' ∧ c ≠ chr '\t' := by
  revert h
  apply byte_forall (p := fun c => isBase64 c = true →
    c ≠ 0 ∧ c ≠ chr '\n' ∧ c ≠ chr '\r' ∧ c ≠ chr '\t')
  decide +kernel

theorem formatPath_eq {path : Bytes} (hnul : 0 ∉ path) (hlen : path.length ≤ fgetsRoom) :
    formatPath path = path := by
  have hmod : path.length % 2 ^ 32 = path.length := Nat.mod_eq_of_lt (by unfold fgetsRoom at hlen; omega)
  rw [formatPath]
  simp only [hmod]
  rw [if_pos (by unfold fgetsRoom at hlen; omega), List.take_length, List.takeWhile_eq_self_iff]
  intro c hc
  exact bne_iff_ne.mpr fun h => hnul (h ▸ hc)

/-! ## Records -/

section Records

variable (sodium : Sodium) (key : Bytes)

/-- The encoded part of a record. -/
def encodedSecret (nonce : Nonce) (value : Bytes) : Bytes :=
  sodium.bin2base64 (nonce.val ++ sodium.secretboxEasy value nonce key)

theorem encodedSecret_length (nonce : Nonce) (value : Bytes) :
    (encodedSecret sodium key nonce value).length =
      base64EncodedLen (nonceBytes + macBytes + value.length) := by
  rw [encodedSecret, sodium.bin2base64_length, List.length_append, sodium.easy_length, nonce.property]
  congr 1
  omega

theorem le_base64EncodedLen (n : Nat) : n ≤ base64EncodedLen n := by
  unfold base64EncodedLen
  split <;> omega

theorem encryptedRecord_eq {nonce : Nonce} {s : Secret} (h : OneRecord s.path s.value) :
    encryptedRecord sodium key nonce s = s.path ++ chr '\t' :: encodedSecret sodium key nonce s.value := by
  have hshort := h.short
  rw [encryptedRecord, formatPath_eq h.no_nul (by omega)]
  rfl

/-- **A record read back** sets its path to its value. -/
theorem decryptSecretLine_encoded (values : List Secret) (path value : Bytes) (nonce : Nonce) :
    decryptSecretLine sodium key values path (encodedSecret sodium key nonce value) =
      .ok (fileStoreSetPlain values path value) := by
  have hlen := encodedSecret_length sodium key nonce value
  have hle := le_base64EncodedLen (nonceBytes + macBytes + value.length)
  have hpacked : (nonce.val ++ sodium.secretboxEasy value nonce key).length =
      nonceBytes + macBytes + value.length := by
    rw [List.length_append, sodium.easy_length, nonce.property]
    omega
  rw [decryptSecretLine, if_neg (by omega)]
  have hdecode : sodium.base642bin (encodedSecret sodium key nonce value) =
      some (nonce.val ++ sodium.secretboxEasy value nonce key) := sodium.base642bin_bin2base64 _
  simp only [hdecode]
  rw [if_neg (by omega), List.drop_append_of_le_length (by rw [nonce.property]),
    List.take_append_of_le_length (by rw [nonce.property])]
  have hdrop : nonce.val.drop nonceBytes = [] := List.drop_eq_nil_of_le (by rw [nonce.property])
  have htake : nonce.val.take nonceBytes = nonce.val := List.take_of_length_le (by rw [nonce.property])
  rw [hdrop, htake, List.nil_append]
  simp only [sodium.open_easy]

/-- What the loop makes of the text of a record. -/
theorem loadLine_text {values : List Secret} {nonce : Nonce} {s : Secret} {line : Bytes}
    (h : OneRecord s.path s.value)
    (hline : lineText line = s.path ++ chr '\t' :: encodedSecret sodium key nonce s.value) :
    loadLine sodium key values line = .ok (upsert Secret.path s values) := by
  have hpath : (s.path ++ chr '\t' :: encodedSecret sodium key nonce s.value).takeWhile
      (· != chr '\t') = s.path := by
    rw [List.takeWhile_append_of_pos, List.takeWhile_cons_of_neg (by decide), List.append_nil]
    intro c hc
    exact bne_iff_ne.mpr fun heq => h.no_tab (heq ▸ hc)
  have hencoded : (s.path ++ chr '\t' :: encodedSecret sodium key nonce s.value).drop
      (s.path.length + 1) = encodedSecret sodium key nonce s.value := by
    rw [List.drop_append, List.drop_eq_nil_of_le (by omega), Nat.add_sub_cancel_left, List.nil_append]
    rfl
  have hne : encodedSecret sodium key nonce s.value ≠ [] := by
    intro hnil
    have hlen := encodedSecret_length sodium key nonce s.value
    have hle := le_base64EncodedLen (nonceBytes + macBytes + s.value.length)
    rw [hnil, List.length_nil] at hlen
    have hpos : 0 < nonceBytes + macBytes := by decide
    omega
  obtain ⟨c, path, hc⟩ := List.exists_cons_of_ne_nil h.ne_nil
  have hhash : (s.path ++ chr '\t' :: encodedSecret sodium key nonce s.value).head? ≠
      some (chr '#') := by
    have hfirst := h.no_hash
    rw [hc] at hfirst ⊢
    exact hfirst
  rw [loadLine]
  simp only [hline, hpath, hencoded]
  rw [if_neg (by
    rintro (hnil | hh)
    · exact absurd hnil (by simp)
    · exact hhash hh), if_neg (by
    rintro (htab | hnil | hnil)
    · exact htab (by simp)
    · exact h.ne_nil hnil
    · exact hne hnil)]
  exact decryptSecretLine_encoded sodium key values s.path s.value nonce

/-- **One record of the file** is read as one put, whether or not its line feed fits the buffer. -/
theorem load_record {values : List Secret} {nonce : Nonce} {s : Secret} (rest : Bytes)
    (h : OneRecord s.path s.value) :
    (fgetsFrom fgetsRoom [] (encryptedRecord sodium key nonce s ++ chr '\n' :: rest)).foldlM
        (loadLine sodium key) values =
      (fgetsFrom fgetsRoom [] rest).foldlM (loadLine sodium key) (upsert Secret.path s values) := by
  rw [encryptedRecord_eq sodium key h]
  have hchars : ∀ c ∈ encodedSecret sodium key nonce s.value, isBase64 c = true :=
    sodium.bin2base64_isBase64 _
  have hlen := encodedSecret_length sodium key nonce s.value
  have hle := le_base64EncodedLen (nonceBytes + macBytes + s.value.length)
  have hpos : 0 < nonceBytes + macBytes := by decide
  -- the record ends in a base64 character
  obtain ⟨front, d, hfront⟩ : ∃ front d, encodedSecret sodium key nonce s.value = front ++ [d] := by
    have hne : encodedSecret sodium key nonce s.value ≠ [] := by
      intro hnil
      rw [hnil, List.length_nil] at hlen
      omega
    exact ⟨_, _, (List.dropLast_append_getLast hne).symm⟩
  have hd := isBase64_plain (hchars d (by rw [hfront]; simp))
  have hrecord : s.path ++ chr '\t' :: encodedSecret sodium key nonce s.value =
      (s.path ++ chr '\t' :: front) ++ [d] := by rw [hfront]; simp
  have hnul : 0 ∉ (s.path ++ chr '\t' :: front) ++ [d] := by
    rw [← hrecord, List.mem_append, List.mem_cons, not_or, not_or]
    exact ⟨h.no_nul, by decide, fun hc => (isBase64_plain (hchars 0 hc)).1 rfl⟩
  have hlf : chr '\n' ∉ s.path ++ chr '\t' :: encodedSecret sodium key nonce s.value := by
    rw [List.mem_append, List.mem_cons, not_or, not_or]
    exact ⟨h.no_lf, by decide, fun hc => (isBase64_plain (hchars _ hc)).2.1 rfl⟩
  have hroom : (s.path ++ chr '\t' :: encodedSecret sodium key nonce s.value).length ≤ fgetsRoom := by
    have hshort := h.short
    rw [List.length_append, List.length_cons]
    omega
  obtain ⟨hwhole, hended⟩ := lineText_eq hnul (by
    rw [Bool.or_eq_false_iff]
    exact ⟨beq_eq_false_iff_ne.mpr hd.2.1, beq_eq_false_iff_ne.mpr hd.2.2.1⟩)
  rw [← hrecord] at hwhole hended
  rcases fgetsFrom_line rest _ fgetsRoom [] hlf hroom (by decide) with hlines | ⟨-, hlines⟩
  · rw [hlines, List.nil_append, List.foldlM_cons, loadLine_text sodium key h hended]
    rfl
  · rw [hlines, List.nil_append, List.foldlM_cons, loadLine_text sodium key h hwhole]
    show ([chr '\n'] :: fgetsFrom fgetsRoom [] rest).foldlM (loadLine sodium key) _ = _
    -- the line feed left over is an empty line
    have hempty : loadLine sodium key (upsert Secret.path s values) [chr '\n'] =
        .ok (upsert Secret.path s values) := by
      have htext : lineText [chr '\n'] = [] := by decide
      rw [loadLine]
      simp only [htext]
      exact if_pos (Or.inl trivial)
    rw [List.foldlM_cons, hempty]
    rfl

theorem load_records {nonce : Bytes → Nonce} :
    ∀ (secrets values : List Secret), (∀ s ∈ secrets, OneRecord s.path s.value) →
      (fgetsFrom fgetsRoom [] (secrets.flatMap fun s =>
          encryptedRecord sodium key (nonce s.path) s ++ [chr '\n'])).foldlM
        (loadLine sodium key) values = .ok (load Secret.path values secrets) := by
  intro secrets
  induction secrets with
  | nil => intro values _; rfl
  | cons s secrets ih =>
    intro values h
    rw [List.flatMap_cons, List.append_assoc, List.singleton_append,
      load_record sodium key _ (h s List.mem_cons_self),
      ih _ fun u hu => h u (List.mem_cons_of_mem s hu)]
    rfl

/-- **A written file opens as the map that was written.** -/
theorem openStore_text {nonce : Bytes → Nonce} {secrets : List Secret} (hk : Keyed Secret.path secrets)
    (h : ∀ s ∈ secrets, OneRecord s.path s.value) :
    openStore sodium key (some (secretFileText sodium key nonce secrets)) =
      .ok ⟨secrets, some (secretFileText sodium key nonce secrets)⟩ := by
  have hheader : fgetsFrom fgetsRoom [] (secretFileText sodium key nonce secrets) =
      str "SCSECRETS1\n" :: fgetsFrom fgetsRoom [] (secrets.flatMap fun s =>
        encryptedRecord sodium key (nonce s.path) s ++ [chr '\n']) := by
    have hlf : chr '\n' ∉ str "SCSECRETS1" := by decide
    have hlen : (str "SCSECRETS1").length = 10 := by decide
    have hsplit : str "SCSECRETS1\n" = str "SCSECRETS1" ++ [chr '\n'] := by decide
    rw [secretFileText, hsplit, List.append_assoc, List.singleton_append]
    rcases fgetsFrom_line (secrets.flatMap fun s =>
        encryptedRecord sodium key (nonce s.path) s ++ [chr '\n']) (str "SCSECRETS1") fgetsRoom [] hlf
      (by rw [hlen]; decide) (by decide) with hlines | ⟨hfull, -⟩
    · rw [hlines, List.nil_append]
    · rw [hlen] at hfull
      exact absurd hfull (by decide)
  have htext : lineText (str "SCSECRETS1\n") = str "SCSECRETS1" := by decide
  have hload : loadSecretFile sodium key (some (secretFileText sodium key nonce secrets)) =
      .ok secrets := by
    rw [loadSecretFile]
    simp only [hheader]
    rw [if_pos htext, load_records sodium key secrets [] h, load_nil hk]
  rw [openStore, hload]
  rfl

end Records

/-! ## Runs -/

section Runs

variable (sodium : Sodium) (key : Bytes)

/-- The invariant: the map is a table, everything kept is one record, and the file holds what is kept. -/
structure KeptOnDisk (t : Tracked) : Prop where
  keyed : Keyed Secret.path t.store.values
  records : ∀ path value, t.kept path = some value → OneRecord path value
  file : (t.store.file = none ∧ ∀ path, t.kept path = none) ∨
    ∃ nonce secrets, t.store.file = some (secretFileText sodium key nonce secrets) ∧
      Keyed Secret.path secrets ∧
      ∀ path, (lookup Secret.path path secrets).map Secret.value = t.kept path

theorem KeptOnDisk.start : KeptOnDisk sodium key {} where
  keyed := Keyed.nil
  records _ _ h := nomatch h
  file := Or.inl ⟨rfl, fun _ => rfl⟩

/-- What is kept is what reopening finds. -/
theorem KeptOnDisk.durable {t : Tracked} (h : KeptOnDisk sodium key t) : Durable sodium key t := by
  rcases h.file with ⟨hfile, hkept⟩ | ⟨nonce, secrets, hfile, hkeyed, hlookup⟩
  · refine ⟨⟨[], none⟩, ?_, fun path => ?_⟩
    · rw [hfile]
      rfl
    · rw [hkept path]
      rfl
  · have hrecords : ∀ s ∈ secrets, OneRecord s.path s.value := by
      intro s hs
      refine h.records s.path s.value ?_
      rw [← hlookup, (lookup_eq_some hkeyed).mpr ⟨hs, rfl⟩]
      rfl
    refine ⟨_, by rw [hfile]; exact openStore_text sodium key hkeyed hrecords, fun path => ?_⟩
    rw [← hlookup path, fileSecretGet]
    cases lookup Secret.path path secrets <;> rfl

/-- A put that fails changes the map in memory at most. -/
theorem putStep_failed {t : Tracked} {put : Put} {e : ScError} (hflush : put.flush = .error e) :
    putStep sodium key t put = t ∨
      putStep sodium key t put =
        ⟨{ t.store with values := fileStoreSetPlain t.store.values put.path put.value }, t.kept⟩ := by
  unfold putStep fileSecretPut
  by_cases hpath : put.path = []
  · left
    rw [if_pos hpath]
    rfl
  · right
    rw [if_neg hpath, hflush]

/-- A put that succeeds writes the map it has in memory. -/
theorem putStep_ok {t : Tracked} {put : Put} {flush : Flush} (hflush : put.flush = .ok flush)
    (hpath : put.path ≠ []) :
    putStep sodium key t put =
      let values := fileStoreSetPlain t.store.values put.path put.value
      ⟨⟨values, some (secretFileText sodium key flush.nonce (flush.order values))⟩,
        Function.update t.kept put.path (some put.value)⟩ := by
  unfold putStep fileSecretPut
  rw [if_neg hpath, hflush]

/-- **One put** that meets no defect keeps the invariant. -/
theorem KeptOnDisk.put {t : Tracked} {put : Put} (h : KeptOnDisk sodium key t) (hclean : Clean t put) :
    KeptOnDisk sodium key (putStep sodium key t put) := by
  cases hflush : put.flush with
  | error e =>
    rcases putStep_failed sodium key (t := t) hflush with hstep | hstep
    · rwa [hstep]
    · rw [hstep]
      exact ⟨h.keyed.upsert _, h.records, h.file⟩
  | ok flush =>
    by_cases hpath : put.path = []
    · have hstep : putStep sodium key t put = t := by
        unfold putStep fileSecretPut
        rw [if_pos hpath]
        rfl
      rwa [hstep]
    · obtain ⟨hrecord, hpending⟩ := hclean flush hflush hpath
      have hkeyed : Keyed Secret.path (fileStoreSetPlain t.store.values put.path put.value) :=
        h.keyed.upsert _
      have hperm := flush.order_perm (fileStoreSetPlain t.store.values put.path put.value)
      rw [putStep_ok sodium key hflush hpath]
      refine ⟨hkeyed, ?_, Or.inr ⟨flush.nonce, _, rfl, hkeyed.perm hperm.symm, ?_⟩⟩
      · intro path value hkept
        have hkept : Function.update t.kept put.path (some put.value) path = some value := hkept
        by_cases hp : path = put.path
        · subst hp
          rw [Function.update_self] at hkept
          rwa [← Option.some.inj hkept]
        · rw [Function.update_of_ne hp] at hkept
          exact h.records path value hkept
      · intro path
        show (lookup Secret.path path _).map Secret.value = Function.update t.kept put.path _ path
        rw [lookup_perm hkeyed hperm.symm]
        by_cases hp : path = put.path
        · rw [hp, Function.update_self]
          have hself : lookup Secret.path put.path
              (upsert Secret.path ⟨put.path, put.value⟩ t.store.values) = some ⟨put.path, put.value⟩ :=
            @lookup_upsert_self _ _ _ Secret.path ⟨put.path, put.value⟩ t.store.values
          exact congrArg (Option.map Secret.value) hself
        · rw [Function.update_of_ne hp, ← hpending path hp]
          exact congrArg (Option.map Secret.value)
            (lookup_upsert_ne (x := (⟨put.path, put.value⟩ : Secret)) hp t.store.values)

/-- **In every run of puts that meet no defect, the store is a durable map** after every put. -/
theorem durable_run (puts : List Put) (h : EachStep (putStep sodium key) Clean {} puts) :
    ∀ done, done <+: puts → Durable sodium key (run (putStep sodium key) {} done) := by
  intro done hdone
  have hkept := run_invariant (fun _ _ hI hG => KeptOnDisk.put sodium key hI hG) done {}
    (KeptOnDisk.start sodium key) (h.of_initial hdone)
  exact hkept.durable

end Runs

/-! ## Two runs -/

/-- Base64 with a box that only carries the plain text: all the store relies on. -/
def plainBox : Sodium where
  bin2base64 := base64Encode
  base642bin := base64Decode
  secretboxEasy plain _ _ := List.replicate macBytes 0 ++ plain
  secretboxOpenEasy cipher _ _ := some (cipher.drop macBytes)
  base642bin_bin2base64 := base64Decode_encode
  bin2base64_length := base64Encode_length
  bin2base64_isBase64 := base64Encode_isBase64
  open_easy plain nonce key := by
    rw [List.drop_append_of_le_length (by rw [List.length_replicate]),
      List.drop_eq_nil_of_le (by rw [List.length_replicate]), List.nil_append]
  easy_length plain nonce key := by rw [List.length_append, List.length_replicate]

/-- A flush that writes the map in its own order, with a constant nonce. -/
def plainFlush : Flush where
  order := id
  order_perm := List.Perm.refl
  nonce _ := ⟨List.replicate nonceBytes 0, rfl⟩

/-- Puts of two secrets: one is overwritten in between, and the last put of each path fails or follows a failure. -/
def samplePuts : List Put :=
  [⟨str "api", str "k", .ok plainFlush⟩, ⟨str "bot", str "b", .ok plainFlush⟩,
    ⟨str "api", str "lost", .error ⟨.io, "sc.secret_store.rename_failed"⟩⟩,
    ⟨str "api", str "new", .ok plainFlush⟩,
    ⟨str "bot", str "lost", .error ⟨.io, "sc.secret_store.rename_failed"⟩⟩]

/-- After these puts the file has the last value of each path whose put returned OK. -/
theorem durable_run_sample : Durable plainBox [] (run (putStep plainBox []) {} samplePuts) ∧
    (run (putStep plainBox []) {} samplePuts).kept (str "api") = some (str "new") ∧
    (run (putStep plainBox []) {} samplePuts).kept (str "bot") = some (str "b") := by
  have hclean : EachStep (putStep plainBox []) Clean {} samplePuts := by
    refine ⟨fun _ _ _ => ⟨?_, fun _ _ => rfl⟩, fun _ _ _ => ⟨?_, ?_⟩, fun _ h => (nomatch h),
      fun _ _ _ => ⟨?_, ?_⟩, fun _ h => (nomatch h), trivial⟩
    · constructor <;> decide
    · constructor <;> decide
    · intro q _
      show (lookup Secret.path q [⟨str "api", str "k"⟩]).map Secret.value =
        Function.update (fun _ => none) (str "api") (some (str "k")) q
      by_cases hapi : q = str "api"
      · subst hapi
        rfl
      · simp [lookup, hapi, Ne.symm hapi]
    · constructor <;> decide
    · intro q hapi
      show (lookup Secret.path q [⟨str "api", str "lost"⟩, ⟨str "bot", str "b"⟩]).map Secret.value =
        Function.update (Function.update (fun _ => none) (str "api") (some (str "k"))) (str "bot") (some (str "b")) q
      have hapi : q ≠ str "api" := hapi
      by_cases hbot : q = str "bot"
      · subst hbot
        rfl
      · simp [lookup, hapi, Ne.symm hapi, hbot, Ne.symm hbot]
  exact ⟨durable_run plainBox [] _ hclean _ List.prefix_rfl, by decide, by decide⟩

/-- A put that failed is written by the next one, and reopening finds it. -/
theorem failed_put_persisted : ¬ ∀ puts : List Put,
    (∀ put ∈ puts, put.path ≠ [] ∧ 0 ∉ put.path) →
    Durable plainBox [] (run (putStep plainBox []) {} puts) := by
  intro h
  have hok : (str "a") ≠ [] ∧ (0 : UInt8) ∉ str "a" ∧ (str "b") ≠ [] ∧ (0 : UInt8) ∉ str "b" := by
    decide
  obtain ⟨reopened, hopen, hget⟩ := h [⟨str "a", str "1", .error ⟨.io, "sc.secret_store.rename_failed"⟩⟩,
      ⟨str "b", str "2", .ok plainFlush⟩] (by
    intro put hput
    simp only [List.mem_cons, List.not_mem_nil, or_false] at hput
    rcases hput with rfl | rfl
    · exact ⟨hok.1, hok.2.1⟩
    · exact ⟨hok.2.2.1, hok.2.2.2⟩)
  -- the file has both records, and both are read back
  have hrecords : ∀ s ∈ [(⟨str "a", str "1"⟩ : Secret), ⟨str "b", str "2"⟩], OneRecord s.path s.value := by
    intro s hs
    simp only [List.mem_cons, List.not_mem_nil, or_false] at hs
    rcases hs with rfl | rfl <;> constructor <;> decide
  have hboth := @openStore_text plainBox [] plainFlush.nonce _
    (show Keyed Secret.path [(⟨str "a", str "1"⟩ : Secret), ⟨str "b", str "2"⟩] by
      unfold Keyed
      decide) hrecords
  have hvalues : fileStoreSetPlain (fileStoreSetPlain [] (str "a") (str "1")) (str "b") (str "2") =
      [⟨str "a", str "1"⟩, ⟨str "b", str "2"⟩] := by decide
  have hrun : run (putStep plainBox []) {} [⟨str "a", str "1", .error ⟨.io, "sc.secret_store.rename_failed"⟩⟩,
      ⟨str "b", str "2", .ok plainFlush⟩] =
      ⟨⟨[⟨str "a", str "1"⟩, ⟨str "b", str "2"⟩], some (secretFileText plainBox [] plainFlush.nonce
        [⟨str "a", str "1"⟩, ⟨str "b", str "2"⟩])⟩,
        Function.update (fun _ => none) (str "b") (some (str "2"))⟩ := by
    rw [← hvalues]
    rw [run, List.foldl_cons, List.foldl_cons, List.foldl_nil, putStep_ok plainBox [] rfl hok.2.2.1]
    unfold putStep fileSecretPut
    rw [if_neg hok.1]
    rfl
  rw [hrun, hboth] at hopen
  obtain rfl := Except.ok.inj hopen
  have hread := hget (str "a")
  rw [hrun] at hread
  have hne : str "a" ≠ str "b" := by decide
  have hnone : Function.update (fun _ => none) (str "b") (some (str "2")) (str "a") = none := by
    rw [Function.update_of_ne hne]
  simp only [hnone] at hread
  exact absurd hread (by decide)

end SmolClaw.Config
