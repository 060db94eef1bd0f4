/-
  Lists in the configuration: the text a TOML array is stored as (`src/config/config_source.c`), and
  the two readers of such text, `load_list_prop` (`src/security/policy.c`) over the JSON parser and
  `parse_string_array` (`src/runtime/bootstrap.c`), which scans for quotes.

  1. **Writer** — a string is put between quotes; only the quote, the backslash and the line feed are
     escaped.

  2. **Readers** — JSON undoes the three escapes and refuses every other control byte; the scanner
     keeps an item as it stands between its quotes, escapes included.

  3. **Defect** — an element with a quote or a backslash comes back changed from the scanner, one with
     a control byte makes the JSON parser refuse the list.

  4. **Result** — `listOption_iff`: both readers give back what was written exactly when no element has
     such a byte and the array is no longer than the JSON parser allows.
-/
import SmolClaw.Config.MapLaw
import SmolClaw.Json.Text

namespace SmolClaw.Config

/-! ## The writer -/

/-- `toml_datum_t`, as the vendored TOML parser returns it. -/
inductive TomlDatum where
  | string (value : Bytes)
  | int64 (value : Int)
  | fp64 (value : Double)
  | boolean (value : Bool)
  | date (year month day : Int)
  | time (hour minute second : Int)
  | datetime (year month day hour minute second : Int)
  | array (elems : List TomlDatum)
  | table

/-- What `append_serialized_string` writes for a byte. -/
def tomlEscapeByte (ch : UInt8) : Bytes :=
  if ch = chr '"' ∨ ch = chr '\\' then [chr '\\', ch]
  else if ch = chr '\n' then [chr '\\', chr 'n']
  else [ch]

/-- `append_serialized_string` -/
def appendSerializedString (input : Bytes) : Bytes := quoted tomlEscapeByte input

/-- `%0*d` -/
def zeroPadded (width : Nat) (n : Int) : Bytes :=
  let digits := decimal n.natAbs
  let sign := if n < 0 then [chr '-'] else []
  sign ++ List.replicate (width - sign.length - digits.length) (chr '0') ++ digits

mutual

/-- `append_serialized_toml_datum` -/
def serializeTomlDatum : TomlDatum → Bytes
  | .string value => appendSerializedString value
  | .int64 value => decimalInt value
  | .fp64 value => formatGeneral17 value
  | .boolean value => stringFromBool value
  | .date year month day =>
      zeroPadded 4 year ++ chr '-' :: zeroPadded 2 month ++ chr '-' :: zeroPadded 2 day
  | .time hour minute second =>
      zeroPadded 2 hour ++ chr ':' :: zeroPadded 2 minute ++ chr ':' :: zeroPadded 2 second
  | .datetime year month day hour minute second =>
      zeroPadded 4 year ++ chr '-' :: zeroPadded 2 month ++ chr '-' :: zeroPadded 2 day ++
        chr 'T' :: zeroPadded 2 hour ++ chr ':' :: zeroPadded 2 minute ++ chr ':' :: zeroPadded 2 second
  | .array elems => arrayText (serializeTomlElems elems)
  | .table => []

/-- The elements of an array. -/
def serializeTomlElems : List TomlDatum → List Bytes
  | [] => []
  | elem :: elems => serializeTomlDatum elem :: serializeTomlElems elems

end

/-- `sc_toml_value_type` -/
inductive TomlType where
  | string
  | integer
  | bool
  | float
  | array
  | raw
  deriving DecidableEq, Repr

/-- `sc_toml_value`, the position apart. -/
structure TomlValue where
  type : TomlType
  stringValue : Bytes := []
  integerValue : Int := 0
  boolValue : Bool := false

/-- The value `add_vendored_toml_value` makes of a datum. -/
def addVendoredTomlValue : TomlDatum → Res TomlValue
  | .string value => .ok { type := .string, stringValue := value }
  | .int64 value => .ok { type := .integer, integerValue := value }
  | .boolean value => .ok { type := .bool, boolValue := value }
  | .fp64 value => .ok { type := .float, stringValue := formatGeneral17 value }
  | .array elems => .ok { type := .array, stringValue := serializeTomlDatum (.array elems) }
  | .table => Status.parse "sc.toml.unsupported_value"
  | datum => .ok { type := .raw, stringValue := serializeTomlDatum datum }

/-! ## Storing -/

/-- The type check of `sc_config_apply_toml_source`. -/
def typeMismatch (field : ConfigField) (value : TomlValue) : Bool :=
  match field.type with
  | .string => !(value.type == .string || value.type == .raw || value.type == .array)
  | .int => value.type != .integer
  | .bool => value.type != .bool

/-- The text a TOML value is handed on as. -/
def tomlText (value : TomlValue) : Bytes :=
  match value.type with
  | .integer => decimalInt value.integerValue
  | .bool => stringFromBool value.boolValue
  | _ => value.stringValue

/-- One turn of the loop of `sc_config_apply_toml_source`; `stored` is what the secret store answers. -/
def applyTomlEntry (c : ScConfig) (stored : Bytes → Res Unit) (kind : SourceKind) (sourcePath : Bytes)
    (key : Bytes) (value : TomlValue) : ScConfig × Res Unit :=
  let path := normalizePath key
  if (configFieldLookup path).any fun field => typeMismatch field value then
    (c, Status.parse "sc.config.invalid_type")
  else
    match setPropFromText c (stored path) path (tomlText value) kind with
    | (c, .error e) => (c, .error e)
    | (c, .ok ()) => (setSource c path kind sourcePath, .ok ())

/-- `sc_config_apply_toml_source`, over the entries of the source's map in the order of its slots. -/
def applyTomlSource (stored : Bytes → Res Unit) (kind : SourceKind) (sourcePath : Bytes) :
    ScConfig → List (Bytes × TomlValue) → ScConfig × Res Unit
  | c, [] => (c, .ok ())
  | c, (key, value) :: rest =>
      match applyTomlEntry c stored kind sourcePath key value with
      | (c, .error e) => (c, .error e)
      | (c, .ok ()) => applyTomlSource stored kind sourcePath c rest

/-! ## The readers -/

/-- `sc_security_list_add` -/
def securityListAdd (list : List Bytes) (value : Bytes) : Res (List Bytes) :=
  if value = [] then Status.invalidArgument "sc.security.invalid_argument" else .ok (list ++ [value])

/-- `load_list_prop`: the list of the policy after the items of the option are added. -/
def loadListProp (c : ScConfig) (path : Bytes) (list : List Bytes) : Res (List Bytes) :=
  match getProp c path with
  | .error _ => .ok list
  | .ok raw =>
      match jsonParseStatus raw with
      | .error e => .error e
      | .ok (.array items) =>
          items.foldlM (fun list item =>
            match Json.asStr (some item) with
            | some text => if text ≠ [] then securityListAdd list text else .ok list
            | none => .ok list) list
      | .ok _ => Status.parse "sc.security.auto_approve_invalid"

/-- The inner loop of `parse_string_array`: an item up to its closing quote, and what is left behind
    that quote; a backslash takes the next byte with it. -/
def scanItem : Bytes → Bytes × Bytes
  | [] => ([], [])
  | [c] => if c = chr '"' then ([], []) else ([c], [])
  | c :: d :: rest =>
      if c = chr '"' then ([], d :: rest)
      else if c = chr '\\' then (c :: d :: (scanItem rest).1, (scanItem rest).2)
      else (c :: (scanItem (d :: rest)).1, (scanItem (d :: rest)).2)

/-- The outer loop of `parse_string_array`: every turn eats at least a quote. -/
def scanItems : Nat → Bytes → List Bytes
  | 0, _ => []
  | turns + 1, input =>
      match input.dropWhile (· != chr '"') with
      | [] => []
      | _ :: rest => (scanItem rest).1 :: scanItems turns (scanItem rest).2

/-- `parse_string_array` -/
def parseStringArray (input : Bytes) : List Bytes := scanItems (input.length + 1) input

/-! ## What is stored -/

theorem normalizePath_eq {a b : Bytes} (h : normalizePath a = normalizePath b) (hne : a ≠ b) :
    normalizePath a = str "schema.version" := by
  by_cases ha : a = str "schema_version"
  · rw [normalizePath, if_pos ha]
  · by_cases hb : b = str "schema_version"
    · rw [h, normalizePath, if_pos hb]
    · rw [normalizePath, if_neg ha, normalizePath, if_neg hb] at h
      exact absurd h hne

/-- What a successful turn leaves: the path reads as the text of an array, other paths as before. -/
theorem applyTomlEntry_ok {c c' : ScConfig} {stored : Bytes → Res Unit} {kind : SourceKind}
    {sourcePath key : Bytes} {value : TomlValue}
    (h : applyTomlEntry c stored kind sourcePath key value = (c', .ok ())) :
    (value.type = .array → normalizePath key ≠ str "schema.version" ∧
      ∀ q, normalizePath q = normalizePath key → getProp c' q = .ok value.stringValue) ∧
      ∀ q, normalizePath q ≠ normalizePath key → getProp c' q = getProp c q := by
  unfold applyTomlEntry at h
  simp only at h
  split at h
  · exact nomatch (Prod.mk.inj h).2
  · rename_i hmatch
    have houtcome := setPropFromText_outcome c (stored (normalizePath key)) (normalizePath key)
      (tomlText value) kind
    rw [normalizePath_idem] at houtcome
    split at h
    · exact nomatch (Prod.mk.inj h).2
    · rename_i c₁ hset
      rw [hset] at houtcome
      cases houtcome with
      | written _ hstored hflag hwritten =>
        obtain ⟨rfl, -⟩ := Prod.mk.inj h
        -- the second source text of the entry is no part of what is read
        have hread : ∀ q, getProp (setSource c₁ (normalizePath key) kind sourcePath) q = getProp c₁ q := by
          intro q
          unfold getProp
          cases typedProp (normalizePath q) with
          | none => rfl
          | some t => exact congrArg Except.ok (readTyped_congr c₁ _ _ _ t)
        refine ⟨fun harray => ?_, fun q hq => (hread q).trans (hwritten.getProp_ne hq)⟩
        have htext : tomlText value = value.stringValue := by rw [tomlText, harray]
        have hstring : ∀ t, typedProp (normalizePath key) = some t → t.type = .string := by
          intro t ht
          obtain ⟨f, hf, htype, -⟩ := t.lookup_path
          rw [typedProp_eq_some.mp ht, hf, Option.any_some, typeMismatch, htype, harray] at hmatch
          cases htt : t.type with
          | string => rfl
          | int => rw [htt] at hmatch; exact absurd rfl hmatch
          | bool => rw [htt] at hmatch; exact absurd rfl hmatch
        refine ⟨fun hversion => ?_, fun q hq => ?_⟩
        · have hint := hstring .schemaVersion (typedProp_eq_some.mpr hversion)
          exact nomatch hint
        · rw [hread, ← htext]
          cases ht : typedProp (normalizePath key) with
          | none => exact hwritten.getProp_text hq ht
          | some t =>
            obtain ⟨i, b, -, -, hwrote⟩ := hwritten.typed t ht
            rw [getProp_typed hq ht, hwrote, typedText, hstring t ht]

theorem applyTomlSource_cons {stored : Bytes → Res Unit} {kind : SourceKind} {sourcePath : Bytes}
    {c c' : ScConfig} {key : Bytes} {value : TomlValue} {rest : List (Bytes × TomlValue)}
    (h : applyTomlSource stored kind sourcePath c ((key, value) :: rest) = (c', .ok ())) :
    ∃ c₁, applyTomlEntry c stored kind sourcePath key value = (c₁, .ok ()) ∧
      applyTomlSource stored kind sourcePath c₁ rest = (c', .ok ()) := by
  rw [applyTomlSource] at h
  split at h
  · exact nomatch (Prod.mk.inj h).2
  · exact ⟨_, ‹_›, h⟩

/-- Entries for other paths leave a path alone. -/
theorem applyTomlSource_frame {stored : Bytes → Res Unit} {kind : SourceKind} {sourcePath q : Bytes} :
    ∀ (source : List (Bytes × TomlValue)) (c c' : ScConfig),
      applyTomlSource stored kind sourcePath c source = (c', .ok ()) →
      (∀ e ∈ source, normalizePath q ≠ normalizePath e.1) → getProp c' q = getProp c q := by
  intro source
  induction source with
  | nil =>
    intro c c' h _
    rw [(Prod.mk.inj h).1]
  | cons entry rest ih =>
    intro c c' h hne
    obtain ⟨c₁, hentry, hrest⟩ := applyTomlSource_cons h
    rw [ih c₁ c' hrest fun e he => hne e (List.mem_cons_of_mem entry he)]
    exact (applyTomlEntry_ok hentry).2 q (hne entry List.mem_cons_self)

/-- **A stored array reads back as its text.** -/
theorem applyTomlSource_reads {stored : Bytes → Res Unit} {kind : SourceKind} {sourcePath key : Bytes}
    {value : TomlValue} (harray : value.type = .array) :
    ∀ (source : List (Bytes × TomlValue)) (c c' : ScConfig), (source.map Prod.fst).Nodup →
      (key, value) ∈ source → applyTomlSource stored kind sourcePath c source = (c', .ok ()) →
      getProp c' key = .ok value.stringValue := by
  intro source
  induction source with
  | nil => intro c c' _ hmem; exact absurd hmem List.not_mem_nil
  | cons entry rest ih =>
    intro c c' hnodup hmem h
    obtain ⟨hfresh, hnodup⟩ := List.nodup_cons.mp hnodup
    obtain ⟨c₁, hentry, hrest⟩ := applyTomlSource_cons h
    rcases List.mem_cons.mp hmem with rfl | hmem
    · obtain ⟨hversion, hread⟩ := (applyTomlEntry_ok hentry).1 harray
      rw [applyTomlSource_frame rest c₁ c' hrest, hread key rfl]
      -- two keys of the map meet in one path only at the version, which is no array
      intro e he heq
      refine hversion (normalizePath_eq heq ?_)
      rintro rfl
      exact hfresh (List.mem_map.mpr ⟨e, he, rfl⟩)
    · exact ih c₁ c' hnodup hmem hrest

/-! ## The scanner -/

/-- A byte both readers return as it was written. -/
def isPlainListByte (b : UInt8) : Bool := b != chr '"' && b != chr '\\' && 0x20 ≤ b

/-- The scanner passes over what the writer writes for a byte. -/
theorem scanItem_escaped (b : UInt8) (t : Bytes) (ht : t ≠ []) :
    scanItem (tomlEscapeByte b ++ t) = (tomlEscapeByte b ++ (scanItem t).1, (scanItem t).2) := by
  obtain ⟨d, rest, rfl⟩ := List.exists_cons_of_ne_nil ht
  unfold tomlEscapeByte
  split
  · show scanItem (chr '\\' :: b :: (d :: rest)) = _
    rw [scanItem, if_neg (by decide), if_pos rfl]
    rfl
  · rename_i hspecial
    split
    · show scanItem (chr '\\' :: chr 'n' :: (d :: rest)) = _
      rw [scanItem, if_neg (by decide), if_pos rfl]
      rfl
    · show scanItem (b :: d :: rest) = _
      rw [scanItem, if_neg fun h => hspecial (Or.inl h), if_neg fun h => hspecial (Or.inr h)]
      rfl

theorem scanItem_text (rest : Bytes) :
    ∀ (x : Bytes), scanItem (x.flatMap tomlEscapeByte ++ chr '"' :: rest) =
      (x.flatMap tomlEscapeByte, rest) := by
  intro x
  induction x with
  | nil => cases rest <;> rfl
  | cons b x ih =>
    rw [List.flatMap_cons, List.append_assoc, scanItem_escaped b _ (by simp), ih]

/-- The scanner finds the items between their quotes, whatever other bytes stand around them. -/
theorem scanItems_text :
    ∀ (xs : List Bytes) (turns : Nat) (front : Bytes), xs.length < turns →
      (∀ c ∈ front, c ≠ chr '"') →
      scanItems turns (front ++ (commaSeparated (xs.map appendSerializedString) ++ [chr ']'])) =
        xs.map fun x => x.flatMap tomlEscapeByte := by
  intro xs
  induction xs with
  | nil =>
    intro turns front hturns hfront
    obtain ⟨left, rfl⟩ : ∃ left, turns = left + 1 := ⟨turns - 1, by rw [List.length_nil] at hturns; omega⟩
    have hdrop : (front ++ (commaSeparated (([] : List Bytes).map appendSerializedString) ++
        [chr ']'])).dropWhile (· != chr '"') = [] := by
      rw [List.dropWhile_eq_nil_iff]
      intro c hc
      rcases List.mem_append.mp hc with hc | hc
      · exact bne_iff_ne.mpr (hfront c hc)
      · rw [List.mem_singleton.mp hc]
        decide
    rw [scanItems, hdrop]
    rfl
  | cons x xs ih =>
    intro turns front hturns hfront
    rw [List.length_cons] at hturns
    obtain ⟨left, rfl⟩ : ∃ left, turns = left + 1 := ⟨turns - 1, by omega⟩
    -- behind the item stand a comma and the other items, or the bracket
    obtain ⟨sep, hsep, happ⟩ : ∃ sep : Bytes, (∀ c ∈ sep, c ≠ chr '"') ∧
        commaSeparated ((x :: xs).map appendSerializedString) ++ [chr ']'] =
          chr '"' :: (x.flatMap tomlEscapeByte ++ chr '"' ::
            (sep ++ (commaSeparated (xs.map appendSerializedString) ++ [chr ']']))) := by
      cases xs with
      | nil => exact ⟨[], by simp, by simp [commaSeparated, appendSerializedString, quoted]⟩
      | cons y ys =>
        exact ⟨[chr ','], List.forall_mem_singleton.mpr (by decide),
          by simp [commaSeparated, appendSerializedString, quoted]⟩
    have hdrop : (front ++ chr '"' :: (x.flatMap tomlEscapeByte ++ chr '"' ::
        (sep ++ (commaSeparated (xs.map appendSerializedString) ++ [chr ']'])))).dropWhile
          (· != chr '"') = chr '"' :: (x.flatMap tomlEscapeByte ++ chr '"' ::
        (sep ++ (commaSeparated (xs.map appendSerializedString) ++ [chr ']']))) := by
      rw [List.dropWhile_append_of_pos fun c hc => bne_iff_ne.mpr (hfront c hc),
        List.dropWhile_cons_of_neg (by decide)]
    rw [happ, scanItems, hdrop]
    simp only [scanItem_text, List.map_cons]
    rw [ih left sep (by omega) hsep]

/-- What a stored array is written as. -/
theorem serialize_strings (xs : List Bytes) :
    serializeTomlDatum (.array (xs.map .string)) = arrayText (xs.map appendSerializedString) := by
  have helems : serializeTomlElems (xs.map .string) = xs.map appendSerializedString := by
    induction xs with
    | nil => rfl
    | cons x xs ih => rw [List.map_cons, serializeTomlElems, ih, serializeTomlDatum, List.map_cons]
  rw [serializeTomlDatum, helems]

/-- **The scanner returns the escaped elements.** -/
theorem parseStringArray_serialized (xs : List Bytes) :
    parseStringArray (serializeTomlDatum (.array (xs.map .string))) =
      xs.map fun x => x.flatMap tomlEscapeByte := by
  have hlen : xs.length ≤ (commaSeparated (xs.map appendSerializedString)).length := by
    have hquoted : ∀ t ∈ xs.map appendSerializedString, t ≠ [] := by
      intro t ht
      obtain ⟨x, -, rfl⟩ := List.mem_map.mp ht
      exact List.cons_ne_nil _ _
    have h := length_le_commaSeparated hquoted
    rwa [List.length_map] at h
  rw [serialize_strings, parseStringArray]
  exact scanItems_text xs _ [chr '['] (by
    rw [arrayText, List.length_cons, List.length_append]
    omega) (List.forall_mem_singleton.mpr (by decide))

/-- Escaping changes a text exactly when it has a byte to escape. -/
theorem escaped_eq_self_iff (x : Bytes) :
    x.flatMap tomlEscapeByte = x ↔ ∀ b ∈ x, tomlEscapeByte b = [b] := by
  have hshape : ∀ b, tomlEscapeByte b = [b] ∨ ∃ c, tomlEscapeByte b = [chr '\\', c] := by
    intro b
    unfold tomlEscapeByte
    split
    · exact Or.inr ⟨b, rfl⟩
    · split
      · exact Or.inr ⟨chr 'n', rfl⟩
      · exact Or.inl rfl
  have hlong : ∀ y : Bytes, y.length ≤ (y.flatMap tomlEscapeByte).length := by
    intro y
    induction y with
    | nil => exact Nat.le_refl 0
    | cons b y ih =>
      rw [List.flatMap_cons, List.length_append, List.length_cons]
      rcases hshape b with h | ⟨c, h⟩ <;> rw [h] <;> simp only [List.length_cons, List.length_nil] <;> omega
  induction x with
  | nil => exact ⟨fun _ _ h => absurd h List.not_mem_nil, fun _ => rfl⟩
  | cons b x ih =>
    rw [List.flatMap_cons, List.forall_mem_cons]
    rcases hshape b with h | ⟨c, h⟩
    · rw [h, List.singleton_append, List.cons_inj_right]
      exact ⟨fun hx => ⟨rfl, ih.mp hx⟩, fun hx => ih.mpr hx.2⟩
    · -- an escape makes the text longer
      rw [h]
      constructor
      · intro heq
        have hl := congrArg List.length heq
        have hx := hlong x
        simp only [List.length_append, List.length_cons, List.length_nil] at hl
        omega
      · rintro ⟨hb, -⟩
        exact absurd (congrArg List.length hb) (by simp)

/-! ## The JSON reader -/

/-- A control byte in a string stops the string loop. -/
theorem parseStringLoop_control (rest : Bytes) :
    ∀ (x : Bytes) (turns : Nat) (builder : Bytes), (∀ b ∈ x, b ≠ chr '"' ∧ b ≠ chr '\\') →
      (∃ b ∈ x, b < 0x20) → ∃ e, parseStringLoop turns builder (x ++ rest) = .error e := by
  intro x
  induction x with
  | nil => intro _ _ _ ⟨b, hb, _⟩; exact absurd hb List.not_mem_nil
  | cons b x ih =>
    intro turns builder hplain hcontrol
    cases turns with
    | zero => exact ⟨_, rfl⟩
    | succ turns =>
      obtain ⟨hquote, hslash⟩ := hplain b List.mem_cons_self
      rw [List.cons_append, parseStringLoop.eq_def]
      by_cases hb : b < 0x20
      · exact ⟨_, (if_neg hquote).trans (if_pos hb)⟩
      · have hrest : ∃ d ∈ x, d < 0x20 := by
          obtain ⟨d, hd, hlow⟩ := hcontrol
          rcases List.mem_cons.mp hd with rfl | hd
          · exact absurd hlow hb
          · exact ⟨d, hd, hlow⟩
        obtain ⟨e, he⟩ := ih turns (builder ++ [b]) (fun d hd => hplain d (List.mem_cons_of_mem b hd)) hrest
        exact ⟨e, (if_neg hquote).trans ((if_neg hb).trans ((if_neg hslash).trans he))⟩

/-- An element the writer left as it was is read back, or refused for a control byte. -/
theorem element_cases {x : Bytes} (hx : ∀ b ∈ x, tomlEscapeByte b = [b]) :
    ((∀ b ∈ x, isPlainListByte b = true) ∧
      ReadsTo (parseValue jsonMaxDepth) (appendSerializedString x) (.string x)) ∨
    ((∃ b ∈ x, isPlainListByte b = false) ∧
      FailsOn (parseValue jsonMaxDepth) (appendSerializedString x)) := by
  have hbyte : ∀ b, tomlEscapeByte b = [b] → b ≠ chr '"' ∧ b ≠ chr '\\' ∧
      (isPlainListByte b = true ↔ ¬ b < 0x20) := by
    apply byte_forall
    decide +kernel
  by_cases hcontrol : ∃ b ∈ x, b < 0x20
  · refine Or.inr ⟨?_, ⟨chr '"', _, rfl, by decide, by decide⟩, ?_⟩
    · obtain ⟨b, hb, hlow⟩ := hcontrol
      refine ⟨b, hb, Bool.eq_false_iff.mpr fun hplain => ?_⟩
      exact (hbyte b (hx b hb)).2.2.mp hplain hlow
    · intro c rest _
      have hflat : x.flatMap tomlEscapeByte = x := (escaped_eq_self_iff x).mpr hx
      have happ : appendSerializedString x ++ c :: rest = chr '"' :: (x ++ (chr '"' :: c :: rest)) := by
        simp [appendSerializedString, quoted, hflat]
      obtain ⟨e, he⟩ := parseStringLoop_control (chr '"' :: c :: rest) x
        ((x ++ (chr '"' :: c :: rest)).length + 1) []
        (fun b hb => ⟨(hbyte b (hx b hb)).1, (hbyte b (hx b hb)).2.1⟩) hcontrol
      have hstring : parseString (chr '"' :: (x ++ (chr '"' :: c :: rest))) = .error e := by
        rw [parseString, consume_self]
        exact he
      refine ⟨e, ?_⟩
      show parseValue (63 + 1) (appendSerializedString x ++ c :: rest) = _
      rw [happ, parseValue, skipWs_cons (by decide)]
      refine (if_neg (by decide)).trans ((if_neg (by decide)).trans ((if_pos rfl).trans ?_))
      simp only [hstring]
  · refine Or.inl ⟨fun b hb => ?_, ReadsTo.quoted (fun b hb => ?_) 63⟩
    · exact (hbyte b (hx b hb)).2.2.mpr fun hlow => hcontrol ⟨b, hb, hlow⟩
    · obtain ⟨hquote, hslash, -⟩ := hbyte b (hx b hb)
      exact EscapesTo.plain (hx b hb) hquote (fun hlow => hcontrol ⟨b, hb, hlow⟩) hslash

/-- The items of a parsed list of non-empty strings are added one by one. -/
theorem addItems_strings : ∀ (xs list : List Bytes), (∀ x ∈ xs, x ≠ []) →
    (xs.map Json.string).foldlM (fun (list : List Bytes) item =>
      match Json.asStr (some item) with
      | some text => if text ≠ [] then securityListAdd list text else .ok list
      | none => .ok list) list = (.ok (list ++ xs) : Res (List Bytes)) := by
  intro xs
  induction xs with
  | nil => intro list _; rw [List.append_nil]; rfl
  | cons x xs ih =>
    intro list hxs
    have hx := hxs x List.mem_cons_self
    have hadd : securityListAdd list x = .ok (list ++ [x]) := if_neg hx
    rw [List.map_cons, List.foldlM_cons]
    show (if x ≠ [] then securityListAdd list x else .ok list) >>= _ = _
    rw [if_pos hx, hadd]
    show List.foldlM _ (list ++ [x]) (xs.map Json.string) = _
    rw [ih (list ++ [x]) fun y hy => hxs y (List.mem_cons_of_mem x hy), List.append_assoc]
    rfl

/-- **The stored text is read back by JSON** exactly when every byte is plain and the array fits, given
    that the writer escaped nothing. -/
theorem loadListProp_serialized {c : ScConfig} {path : Bytes} {xs : List Bytes}
    (hraw : getProp c path = .ok (serializeTomlDatum (.array (xs.map .string))))
    (hxs : ∀ x ∈ xs, x ≠ [] ∧ strIsValidUtf8 x = true)
    (hself : ∀ x ∈ xs, ∀ b ∈ x, tomlEscapeByte b = [b]) (list : List Bytes) :
    loadListProp c path list = .ok (list ++ xs) ↔
      (∀ x ∈ xs, ∀ b ∈ x, isPlainListByte b = true) ∧ xs.length ≤ jsonMaxArrayItems := by
  rw [serialize_strings] at hraw
  constructor
  · intro h
    by_contra hbad
    have hitems : ∀ t ∈ xs.map appendSerializedString, (∃ v, ReadsTo (parseValue jsonMaxDepth) t v) ∨
        FailsOn (parseValue jsonMaxDepth) t := by
      intro t ht
      obtain ⟨x, hx, rfl⟩ := List.mem_map.mp ht
      rcases element_cases (hself x hx) with ⟨-, hreads⟩ | ⟨-, hfails⟩
      · exact Or.inl ⟨_, hreads⟩
      · exact Or.inr hfails
    have hfault : (∃ t ∈ xs.map appendSerializedString, FailsOn (parseValue jsonMaxDepth) t) ∨
        jsonMaxArrayItems < (xs.map appendSerializedString).length := by
      by_contra hnone
      obtain ⟨hnone, hlen⟩ := not_or.mp hnone
      refine hbad ⟨fun x hx => ?_, by rw [List.length_map] at hlen; omega⟩
      rcases element_cases (hself x hx) with ⟨hplain, -⟩ | ⟨-, hfails⟩
      · exact hplain
      · exact absurd ⟨_, List.mem_map_of_mem hx, hfails⟩ hnone
    obtain ⟨e, he⟩ := jsonParse_array_error hitems hfault
    simp only [loadListProp, hraw, jsonParseStatus, he] at h
    cases h
  · rintro ⟨hplain, hlen⟩
    have hreads : ∀ t ∈ xs.map fun x => (appendSerializedString x, Json.string x),
        ReadsTo (parseValue jsonMaxDepth) t.1 t.2 := by
      intro t ht
      obtain ⟨x, hx, rfl⟩ := List.mem_map.mp ht
      rcases element_cases (hself x hx) with ⟨-, hreads⟩ | ⟨⟨b, hb, hodd⟩, -⟩
      · exact hreads
      · rw [hplain x hx b hb] at hodd
        cases hodd
    have hutf8 : strIsValidUtf8 (arrayText (xs.map appendSerializedString)) = true := by
      apply utf8_arrayText
      intro t ht
      obtain ⟨x, hx, rfl⟩ := List.mem_map.mp ht
      have hflat : x.flatMap tomlEscapeByte = x := (escaped_eq_self_iff x).mpr (hself x hx)
      rw [appendSerializedString, quoted, hflat, utf8_one _ (by decide)]
      exact utf8_append_of (hxs x hx).2 (by decide)
    have hfst : (xs.map fun x => (appendSerializedString x, Json.string x)).map Prod.fst =
        xs.map appendSerializedString := by rw [List.map_map]; rfl
    have hsnd : (xs.map fun x => (appendSerializedString x, Json.string x)).map Prod.snd =
        xs.map Json.string := by rw [List.map_map]; rfl
    have hparse := jsonParse_array hreads (by rw [List.length_map]; exact hlen) (by rw [hfst]; exact hutf8)
    rw [hfst, hsnd] at hparse
    simp only [loadListProp, hraw, jsonParseStatus, hparse]
    exact addItems_strings xs list fun x hx => (hxs x hx).1

/-! ## Both readers -/

/-- What the TOML source keeps of an array of strings. -/
def stringArray (xs : List Bytes) : TomlValue where
  type := .array
  stringValue := serializeTomlDatum (.array (xs.map .string))

theorem addVendoredTomlValue_strings (xs : List Bytes) :
    addVendoredTomlValue (.array (xs.map .string)) = .ok (stringArray xs) := rfl

/-- **A list option means what was written exactly when every byte of it is plain** and the array has
    no more items than the JSON parser reads: then, and only then, the policy gains the elements one by
    one and the scanner yields them. -/
theorem listOption_iff {c c' : ScConfig} {stored : Bytes → Res Unit} {kind : SourceKind}
    {sourcePath path : Bytes} {source : List (Bytes × TomlValue)} {xs : List Bytes}
    (hkeys : (source.map Prod.fst).Nodup) (hentry : (path, stringArray xs) ∈ source)
    (hxs : ∀ x ∈ xs, x ≠ [] ∧ strIsValidUtf8 x = true)
    (hstored : applyTomlSource stored kind sourcePath c source = (c', .ok ())) :
    ((∀ list, loadListProp c' path list = .ok (list ++ xs)) ∧
        (getProp c' path).map parseStringArray = .ok xs) ↔
      (∀ x ∈ xs, ∀ b ∈ x, isPlainListByte b = true) ∧ xs.length ≤ jsonMaxArrayItems := by
  have hraw : getProp c' path = .ok (serializeTomlDatum (.array (xs.map .string))) :=
    applyTomlSource_reads rfl source c c' hkeys hentry hstored
  have hscan : (getProp c' path).map parseStringArray = .ok (xs.map fun x => x.flatMap tomlEscapeByte) := by
    rw [hraw]
    exact congrArg Except.ok (parseStringArray_serialized xs)
  have hself : (xs.map fun x => x.flatMap tomlEscapeByte) = xs ↔
      ∀ x ∈ xs, ∀ b ∈ x, tomlEscapeByte b = [b] := by
    have hmap : (xs.map fun x => x.flatMap tomlEscapeByte) = xs.map id ↔
        ∀ x ∈ xs, x.flatMap tomlEscapeByte = id x := List.map_inj_left
    rw [List.map_id] at hmap
    exact hmap.trans (forall₂_congr fun x _ => escaped_eq_self_iff x)
  rw [hscan]
  constructor
  · rintro ⟨hload, hscanned⟩
    exact (loadListProp_serialized hraw hxs (hself.mp (Except.ok.inj hscanned)) []).mp (hload [])
  · rintro ⟨hplain, hlen⟩
    have hbyte : ∀ b, isPlainListByte b = true → tomlEscapeByte b = [b] := by
      apply byte_forall
      decide +kernel
    have hsame : ∀ x ∈ xs, ∀ b ∈ x, tomlEscapeByte b = [b] :=
      fun x hx b hb => hbyte b (hplain x hx b hb)
    exact ⟨fun list => (loadListProp_serialized hraw hxs hsame list).mpr ⟨hplain, hlen⟩,
      congrArg Except.ok (hself.mpr hsame)⟩

/-- A configuration file with one list option in it, taken into an empty configuration. -/
def askConfig (xs : List Bytes) : ScConfig × Res Unit :=
  applyTomlSource (fun _ => .ok ()) .explicitFile (str "smolclaw.toml") {}
    [(str "autonomy.always_ask", stringArray xs)]

/-- The file is taken, whatever the strings are. -/
theorem askConfig_ok (xs : List Bytes) : (askConfig xs).2 = .ok () := rfl

/-- Plain elements go through. -/
theorem listOption_plain :
    ((∀ list, loadListProp (askConfig [str "shell", str "git"]).1 (str "autonomy.always_ask") list =
        .ok (list ++ [str "shell", str "git"])) ∧
      (getProp (askConfig [str "shell", str "git"]).1 (str "autonomy.always_ask")).map
        parseStringArray = .ok [str "shell", str "git"]) ↔
      (∀ x ∈ [str "shell", str "git"], ∀ b ∈ x, isPlainListByte b = true) ∧
        [str "shell", str "git"].length ≤ jsonMaxArrayItems := by
  have hkeys : ([(str "autonomy.always_ask", stringArray [str "shell", str "git"])].map Prod.fst).Nodup :=
    List.nodup_singleton _
  exact listOption_iff hkeys List.mem_cons_self (by decide)
    (Prod.ext rfl (askConfig_ok [str "shell", str "git"]))

/-- A path with a backslash comes back with two from the scanner. -/
theorem backslash_doubled : ¬ ∀ (xs : List Bytes) (c c' : ScConfig) (stored : Bytes → Res Unit)
    (kind : SourceKind) (sourcePath path : Bytes) (source : List (Bytes × TomlValue)),
    (source.map Prod.fst).Nodup → (path, stringArray xs) ∈ source →
    (∀ x ∈ xs, x ≠ [] ∧ strIsValidUtf8 x = true) →
    applyTomlSource stored kind sourcePath c source = (c', .ok ()) →
    (∀ list, loadListProp c' path list = .ok (list ++ xs)) ∧
      (getProp c' path).map parseStringArray = .ok xs := by
  intro h
  have hkeys : ([(str "autonomy.always_ask", stringArray [str "C:\\tools"])].map Prod.fst).Nodup :=
    List.nodup_singleton _
  have hstored : applyTomlSource (fun _ => .ok ()) .explicitFile (str "smolclaw.toml") {}
      [(str "autonomy.always_ask", stringArray [str "C:\\tools"])] =
      ((askConfig [str "C:\\tools"]).1, .ok ()) := Prod.ext rfl (askConfig_ok _)
  obtain ⟨-, hyields⟩ := h _ _ _ _ _ _ _ _ hkeys List.mem_cons_self (by decide +kernel) hstored
  rw [applyTomlSource_reads rfl _ _ _ hkeys List.mem_cons_self hstored] at hyields
  have hscan : parseStringArray (stringArray [str "C:\\tools"]).stringValue = [str "C:\\\\tools"] := by
    rw [stringArray, parseStringArray_serialized]
    decide
  rw [Except.map, hscan] at hyields
  exact absurd (Except.ok.inj hyields) (by decide)

end SmolClaw.Config
