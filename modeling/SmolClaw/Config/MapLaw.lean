/-
  The configuration is a map from paths to values, up to four defects.

  1. **Specification** — `MapLaw`: after a successful call the path denotes the value given and its
     source names the kind of the call, every other path reads as before; a failed call changes
     nothing that can be read and no MCP server.

  2. **Integers** — `integerText` is the number a text spells.  `int_from_text` agrees with it inside
     64 bits, clamps outside, and reads a text with a NUL in it up to the NUL.

  3. **Defect** — an integer is narrowed (to 32 bits for the version), a refusing secret store leaves
     the typed key changed, and a malformed flag of an MCP server leaves the string map and the table
     of servers changed.

  4. **Result** — `mapLaw_iff`: in every run, each call obeys the law exactly when each call is
     `Faithful`, that is none of these.  `reads_last_write`: such a run is a map.
-/
import Mathlib.Data.FinEnum
import SmolClaw.Config.Store

namespace SmolClaw.Config

open SmolClaw.Net (isSpace strtol10 atNul)
open Lib.Run

/-! ## Integers as text -/

/-- The integer a text spells: blanks, a sign, digits, and nothing behind them. -/
def integerText (text : Bytes) : Option Int :=
  let scanned := scanSign (text.dropWhile isSpace)
  if scanned.2 ≠ [] ∧ ∀ c ∈ scanned.2, isDigit c = true then
    some (if scanned.1 then -(decimalValue scanned.2 : Int) else decimalValue scanned.2)
  else none

/-- Printed integers spell themselves. -/
theorem integerText_decimalInt (n : Int) : integerText (decimalInt n) = some n := by
  rw [integerText]
  simp only [Net.scanSign_decimalInt]
  rw [if_pos ⟨decimal_ne_nil _, decimal_isDigit n.natAbs⟩, decimalValue_decimal]
  by_cases hneg : n < 0
  · rw [decide_eq_true hneg, if_pos rfl]
    congr 1
    omega
  · rw [decide_eq_false hneg, if_neg Bool.false_ne_true]
    congr 1
    omega

/-- `strtoll` reads the integer a text spells, clamped to 64 bits. -/
theorem intFromText_of_integer {value : Bytes} {i n : Int} (hi : intFromText value = .ok i)
    (hn : integerText value = some n) :
    -2 ^ 63 ≤ i ∧ i < 2 ^ 63 ∧ (-2 ^ 63 ≤ n ∧ n < 2 ^ 63 → i = n) := by
  rw [integerText] at hn
  split at hn
  · rename_i hcond
    obtain ⟨hne, hdigits⟩ := hcond
    have htake : (scanSign (value.dropWhile isSpace)).2.takeWhile isDigit =
        (scanSign (value.dropWhile isSpace)).2 := List.takeWhile_eq_self_iff.mpr hdigits
    unfold intFromText at hi
    split at hi
    · exact absurd hi (by simp)
    · have hstrtol : strtol10 value = some
          (if (scanSign (value.dropWhile isSpace)).1
            then max (-(decimalValue (scanSign (value.dropWhile isSpace)).2 : Int)) (-2 ^ 63)
            else min (decimalValue (scanSign (value.dropWhile isSpace)).2 : Int) (2 ^ 63 - 1),
            (scanSign (value.dropWhile isSpace)).2.dropWhile isDigit) := by
        simp only [strtol10, htake, if_neg hne]
      rw [hstrtol] at hi
      simp only at hi
      split at hi
      · have hi := Except.ok.inj hi
        have hn := Option.some.inj hn
        rw [← hi, ← hn]
        cases (scanSign (value.dropWhile isSpace)).1
        · simp only [Bool.false_eq_true, if_false]
          refine ⟨?_, ?_, ?_⟩ <;> omega
        · simp only [if_true]
          refine ⟨?_, ?_, ?_⟩ <;> omega
      · exact absurd hi (by simp)
  · exact nomatch hn

/-! ## The law -/

/-- One call of `sc_config_apply_override` or, with the kind `runtime`, of `sc_config_set_prop`;
    `stored` is what the secret store answers when it is asked. -/
structure Call where
  kind : SourceKind
  path : Bytes
  value : Bytes
  stored : Res Unit

/-- The configuration and the status a call leaves. -/
def answer (c : ScConfig) (call : Call) : ScConfig × Res Unit :=
  applyOverride c call.stored call.kind call.path call.value

/-- A call as a step of the configuration. -/
def step (c : ScConfig) (call : Call) : ScConfig := (answer c call).1

/-- `text`, read from `path`, denotes the value given: the same text, or the same integer where the
    field is an integer of its own. -/
def Denotes (path text value : Bytes) : Prop :=
  text = value ∨ ((typedProp (normalizePath path)).map TypedProp.type = some .int ∧
    ∃ n, integerText text = some n ∧ integerText value = some n)

/-- A source text is the kind, or starts with the kind and a colon. -/
def NamesKind (source : Bytes) (kind : SourceKind) : Prop :=
  source = sourceKindName kind ∨ sourceKindName kind ++ [chr ':'] <+: source

/-- **The configuration behaves as a map** in a call that leaves `after`. -/
structure MapLaw (c : ScConfig) (call : Call) (after : ScConfig × Res Unit) : Prop where
  denotes : after.2 = .ok () →
    ∃ text, getProp after.1 call.path = .ok text ∧ Denotes call.path text call.value
  names : after.2 = .ok () →
    ∃ source, getPropSource after.1 call.path = .ok source ∧ NamesKind source call.kind
  others : ∀ q, normalizePath q ≠ normalizePath call.path →
    getProp after.1 q = getProp c q ∧ getPropSource after.1 q = getPropSource c q
  failed : after.2 ≠ .ok () →
    (∀ q, getProp after.1 q = getProp c q ∧ getPropSource after.1 q = getPropSource c q) ∧
      after.1.mcpServers = c.mcpServers

/-- The value is an integer that fits the field. -/
def IntegerFits (t : TypedProp) (value : Bytes) : Prop :=
  ∃ n, integerText value = some n ∧
    if t = .schemaVersion then 0 ≤ n ∧ n < 2 ^ 32 else -2 ^ 63 ≤ n ∧ n < 2 ^ 63

/-- The call meets none of the defects. -/
structure Faithful (c : ScConfig) (call : Call) : Prop where
  /-- An accepted integer fits its field. -/
  integer : ∀ t, typedProp (normalizePath call.path) = some t → t.type = .int →
    (∃ i, intFromText call.value = .ok i) → IntegerFits t call.value
  /-- When the secret store refuses a typed key, the key was that text already. -/
  key : Refused c call.stored (normalizePath call.path) →
    ∀ t, typedProp (normalizePath call.path) = some t → readTyped c t = call.value
  /-- When a flag of an MCP server is malformed, the same text was stored before and the server was
      there. -/
  flag : configFieldLookup (normalizePath call.path) = none →
    ¬ Refused c call.stored (normalizePath call.path) → ∀ index,
    BadFlag (normalizePath call.path) call.value index →
    c.values (normalizePath call.path) = some call.value ∧ index < c.mcpServers.length

/-! ## One call -/

theorem answer_outcome (c : ScConfig) (call : Call) :
    Outcome c call.stored (normalizePath call.path) call.value call.kind (answer c call) := by
  have h := setPropFromText_outcome c call.stored (normalizePath call.path) call.value call.kind
  rwa [normalizePath_idem] at h

/-- Typed integers and booleans never go to the secret store. -/
theorem not_refused_of_typed {c : ScConfig} {stored : Res Unit} {path : Bytes} {t : TypedProp}
    (ht : typedProp path = some t) (hne : t.type ≠ .string) : ¬ Refused c stored path := by
  rintro ⟨-, hsecret, -⟩
  obtain ⟨f, hf, -, hplain⟩ := t.lookup_path
  rw [isSecret, typedProp_eq_some.mp ht, hf] at hsecret
  have hfalse := hplain hne
  simp only [Option.map_some, Option.getD_some] at hsecret
  rw [hsecret] at hfalse
  cases hfalse

/-- A failed call that changes nothing obeys the law. -/
theorem MapLaw.unchanged (c : ScConfig) (call : Call) (e : ScError) : MapLaw c call (c, .error e) where
  denotes h := nomatch h
  names h := nomatch h
  others _ _ := ⟨rfl, rfl⟩
  failed _ := ⟨fun _ => ⟨rfl, rfl⟩, rfl⟩

/-- A typed integer reads back as an integer text spells exactly when that integer fits. -/
theorem typedInt_iff {t : TypedProp} {value : Bytes} {i : Int} {b : Bool} (ht : t.type = .int)
    (hi : intFromText value = .ok i) :
    (typedText value i b t = value ∨
      ∃ n, integerText (typedText value i b t) = some n ∧ integerText value = some n) ↔
      IntegerFits t value := by
  have htext : typedText value i b t =
      decimalInt (if t = .schemaVersion then (UInt32.ofInt i).toNat else i) := by
    rw [typedText, ht]
  have hnarrow : ((UInt32.ofInt i).toNat : Int) = i % 2 ^ 32 := by
    rw [UInt32.ofInt, UInt32.toNat_ofNat']
    omega
  rw [htext]
  generalize hw : (if t = .schemaVersion then ((UInt32.ofInt i).toNat : Int) else i) = w
  have hspell : (decimalInt w = value ∨
      ∃ n, integerText (decimalInt w) = some n ∧ integerText value = some n) ↔
      integerText value = some w := by
    constructor
    · rintro (rfl | ⟨n, hn, hv⟩)
      · exact integerText_decimalInt w
      · rw [integerText_decimalInt] at hn
        rw [hv, hn]
    · intro h
      exact Or.inr ⟨w, integerText_decimalInt w, h⟩
  rw [hspell]
  constructor
  · intro h
    refine ⟨w, h, ?_⟩
    obtain ⟨hlow, hhigh, hsame⟩ := intFromText_of_integer hi h
    by_cases hversion : t = .schemaVersion
    · rw [if_pos hversion] at hw ⊢
      omega
    · rw [if_neg hversion] at hw ⊢
      omega
  · rintro ⟨n, hn, hfits⟩
    obtain ⟨hlow, hhigh, hsame⟩ := intFromText_of_integer hi hn
    rw [hn]
    congr 1
    by_cases hversion : t = .schemaVersion
    · rw [if_pos hversion] at hw hfits
      omega
    · rw [if_neg hversion] at hw hfits
      omega

/-- Where the table of fields decides, a path reads as its typed field or as the stored text. -/
theorem getProp_typed {c : ScConfig} {q path : Bytes} {t : TypedProp} (hq : normalizePath q = path)
    (ht : typedProp path = some t) : getProp c q = .ok (readTyped c t) := by
  rw [getProp, hq, ht]

theorem getProp_untyped {c : ScConfig} {q path : Bytes} (hq : normalizePath q = path)
    (ht : typedProp path = none) :
    getProp c q = (c.values path).elim (Status.invalidArgument "sc.config.unknown_field") .ok := by
  rw [getProp, hq, ht]
  simp only
  cases c.values path <;> rfl

/-- Configurations with the same typed fields, values and sources read the same. -/
theorem reads_congr {c d : ScConfig} (htyped : ∀ t, readTyped c t = readTyped d t)
    (hvalues : c.values = d.values) (hsources : c.sources = d.sources) (q : Bytes) :
    getProp c q = getProp d q ∧ getPropSource c q = getPropSource d q := by
  constructor
  · cases ht : typedProp (normalizePath q) with
    | none => rw [getProp_untyped rfl ht, getProp_untyped rfl ht, hvalues]
    | some t => rw [getProp_typed rfl ht, getProp_typed rfl ht, htyped t]
  · rw [getPropSource, hsources]
    rfl

/-- A refused typed key: the law holds when the key was that text already. -/
theorem refusedTyped_iff {c : ScConfig} {call : Call} {e : ScError} {t : TypedProp} {i : Int} {b : Bool}
    (ht : typedProp (normalizePath call.path) = some t) (hstring : t.type = .string) :
    MapLaw c call (writeTyped c call.value i b t, .error e) ↔ readTyped c t = call.value := by
  obtain ⟨hvalues, hsources, -, hservers⟩ := writeTyped_frame c call.value i b t
  have hread : readTyped (writeTyped c call.value i b t) t = call.value := by
    rw [readTyped_writeTyped, if_pos rfl, typedText, hstring]
  constructor
  · intro h
    have hsame := ((h.failed nofun).1 call.path).1
    rw [getProp_typed rfl ht, getProp_typed rfl ht, hread] at hsame
    exact (Except.ok.inj hsame).symm
  · intro h
    have hreads := reads_congr (c := writeTyped c call.value i b t) (d := c) (fun u => by
      rw [readTyped_writeTyped]
      split
      · rename_i hu
        rw [hu, typedText, hstring, h]
      · rfl) hvalues hsources
    exact ⟨nofun, nofun, fun q _ => hreads q, fun _ => ⟨hreads, hservers hstring⟩⟩

/-- A malformed flag: the law holds when the text was stored and the server was there. -/
theorem badFlag_iff {c : ScConfig} {call : Call} {e : ScError} {index : Nat}
    (ht : typedProp (normalizePath call.path) = none) :
    MapLaw c call (mcpServerForIndex
        { c with values := Function.update c.values (normalizePath call.path) (some call.value) } index,
        .error e) ↔
      c.values (normalizePath call.path) = some call.value ∧ index < c.mcpServers.length := by
  constructor
  · intro h
    obtain ⟨hreads, hservers⟩ := h.failed nofun
    have hsame := (hreads call.path).1
    rw [getProp_untyped rfl ht, getProp_untyped rfl ht] at hsame
    refine ⟨?_, mcpServerForIndex_eq_iff.mp hservers⟩
    simp only [mcpServerForIndex, Function.update_self, Option.elim_some] at hsame
    cases hv : c.values (normalizePath call.path) with
    | none => rw [hv] at hsame; cases hsame
    | some v => rw [hv] at hsame; rw [Except.ok.inj hsame]
  · rintro ⟨hvalue, hlen⟩
    have hsame : Function.update c.values (normalizePath call.path) (some call.value) = c.values := by
      rw [← hvalue, Function.update_eq_self]
    have hreads := reads_congr (c := mcpServerForIndex
        { c with values := Function.update c.values (normalizePath call.path) (some call.value) } index)
      (d := c) (fun t => readTyped_congr c _ _ _ t) hsame rfl
    exact ⟨nofun, nofun, fun q _ => hreads q, fun _ => ⟨hreads, mcpServerForIndex_eq_iff.mpr hlen⟩⟩

/-- A successful call: the law holds when an integer fits. -/
theorem written_iff {c c' : ScConfig} {call : Call}
    (h : Written c c' (normalizePath call.path) call.value call.kind) :
    MapLaw c call (c', .ok ()) ↔ ∀ t, typedProp (normalizePath call.path) = some t → t.type = .int →
      (∃ i, intFromText call.value = .ok i) → IntegerFits t call.value := by
  have hsource : getPropSource c' call.path =
      .ok (sourceKindName call.kind ++ chr ':' :: sourceKindName call.kind) := by
    rw [getPropSource, h.sources, Function.update_self]
  have hothers : ∀ q, normalizePath q ≠ normalizePath call.path →
      getProp c' q = getProp c q ∧ getPropSource c' q = getPropSource c q := by
    intro q hq
    refine ⟨h.getProp_ne hq, ?_⟩
    rw [getPropSource, h.sources, Function.update_of_ne hq, getPropSource]
  constructor
  · rintro hlaw t ht hint -
    obtain ⟨text, hread, hdenotes⟩ := hlaw.denotes rfl
    obtain ⟨i, b, hi, -, htext⟩ := h.typed t ht
    rw [getProp_typed rfl ht, htext] at hread
    rw [Denotes, ht, ← Except.ok.inj hread] at hdenotes
    refine (typedInt_iff (b := b) hint (hi hint)).mp ?_
    exact hdenotes.imp_right And.right
  · intro hfits
    refine ⟨fun _ => ?_, fun _ => ⟨_, hsource, Or.inr ⟨sourceKindName call.kind, by simp⟩⟩, hothers,
      fun hne => absurd rfl hne⟩
    cases ht : typedProp (normalizePath call.path) with
    | none => exact ⟨call.value, h.getProp_text rfl ht, Or.inl rfl⟩
    | some t =>
      obtain ⟨i, b, hi, hb, htext⟩ := h.typed t ht
      refine ⟨typedText call.value i b t, by rw [getProp_typed rfl ht, htext], ?_⟩
      cases htype : t.type with
      | string => exact Or.inl (by rw [typedText, htype])
      | int =>
        have hfit := (typedInt_iff (b := b) htype (hi htype)).mpr (hfits t ht htype ⟨i, hi htype⟩)
        exact hfit.imp_right fun hn => ⟨by rw [ht, Option.map_some, htype], hn⟩
      | bool =>
        refine Or.inl ?_
        have hbool := hb htype
        rw [typedText, htype]
        unfold boolFromText at hbool
        split at hbool
        · rename_i hv
          rw [← Except.ok.inj hbool, hv]
          rfl
        · split at hbool
          · rename_i hv
            rw [← Except.ok.inj hbool, hv]
            rfl
          · exact absurd hbool (by simp)

/-- **One call**: the law holds exactly when the call meets none of the defects. -/
theorem mapLaw_iff_faithful (c : ScConfig) (call : Call) :
    MapLaw c call (answer c call) ↔ Faithful c call := by
  have houtcome := answer_outcome c call
  generalize answer c call = after at houtcome
  cases houtcome with
  | invalid e hknown htyped =>
    refine ⟨fun _ => ⟨?_, ?_, fun h => absurd h hknown⟩, fun _ => MapLaw.unchanged c call e⟩
    · rintro t ht hint ⟨i, hi⟩
      obtain ⟨e', he⟩ := (htyped t ht).2 hint
      rw [hi] at he
      exact nomatch he
    · intro hrefused t ht
      exact absurd hrefused (not_refused_of_typed ht (htyped t ht).1)
  | refused e hrefused htyped =>
    refine ⟨fun _ => ⟨?_, ?_, fun _ h => absurd hrefused h⟩, fun _ => MapLaw.unchanged c call e⟩
    · intro t ht
      rw [htyped] at ht
      exact nomatch ht
    · intro _ t ht
      rw [htyped] at ht
      exact nomatch ht
  | refusedTyped e t i b hrefused htyped =>
    have hstring : t.type = .string := by
      by_contra hne
      exact not_refused_of_typed htyped hne hrefused
    rw [refusedTyped_iff htyped hstring]
    constructor
    · intro h
      refine ⟨?_, ?_, fun _ hnot => absurd hrefused hnot⟩
      · intro u hu hint
        rw [← Option.some.inj (htyped.symm.trans hu), hstring] at hint
        exact nomatch hint
      · intro _ u hu
        rw [← Option.some.inj (htyped.symm.trans hu), h]
    · intro h
      exact h.key hrefused t htyped
  | badFlag e index hstored hunknown hbad =>
    have htyped := typedProp_of_unknown hunknown
    rw [badFlag_iff htyped]
    constructor
    · rintro ⟨hvalue, hlen⟩
      refine ⟨?_, fun hrefused => absurd hrefused hstored, ?_⟩
      · intro t ht
        rw [htyped] at ht
        exact nomatch ht
      · -- the path names one index
        rintro - - index' ⟨field', hparse', -⟩
        obtain ⟨field, hparse, -⟩ := hbad
        rw [hparse] at hparse'
        rw [← (Prod.mk.inj (Option.some.inj hparse')).1]
        exact ⟨hvalue, hlen⟩
    · intro h
      exact h.flag hunknown hstored index hbad
  | written c' hstored hflag hwritten =>
    rw [written_iff hwritten]
    constructor
    · intro h
      exact ⟨h, fun hrefused => absurd hrefused hstored, fun hnone _ index hbad =>
        absurd hbad (hflag hnone index)⟩
    · exact Faithful.integer

/-! ## Runs -/

/-- **In every run, from every configuration, each call obeys the law exactly when each call is
    faithful.** -/
theorem mapLaw_iff (c : ScConfig) (calls : List Call) :
    EachStep step (fun c call => MapLaw c call (answer c call)) c calls ↔
      EachStep step Faithful c calls :=
  eachStep_congr step (I := fun _ => True) (fun _ _ _ => trivial)
    (fun c call _ => mapLaw_iff_faithful c call) calls c trivial

/-- From the defaults, the version `4294967297` is accepted and read back as `1`. -/
theorem version_narrowed : ¬ ∀ defaults, initDefaults = .ok defaults → ∀ calls,
    EachStep step (fun c call => MapLaw c call (answer c call)) defaults calls := by
  intro h
  have hdefaults : initDefaults.toOption.isSome = true := by decide +kernel
  cases hinit : initDefaults with
  | error e => rw [hinit] at hdefaults; exact nomatch hdefaults
  | ok defaults =>
    have hlaw := (h defaults hinit [⟨.runtime, str "schema.version", str "4294967297", .ok ()⟩]).1
    have hfaithful := (mapLaw_iff_faithful _ _).mp hlaw
    obtain ⟨n, hn, hfits⟩ := hfaithful.integer .schemaVersion (by decide) (by decide)
      ⟨4294967297, by decide⟩
    have hspelled : integerText (str "4294967297") = some 4294967297 := by decide +kernel
    obtain rfl : 4294967297 = n := Option.some.inj (hspelled.symm.trans hn)
    rw [if_pos rfl] at hfits
    omega

/-- The last call of a run that wrote the path, if any did. -/
def lastWrite (q : Bytes) : ScConfig → List Call → Option Call
  | _, [] => none
  | c, call :: rest =>
      match lastWrite q (step c call) rest with
      | some last => some last
      | none =>
          match (answer c call).2 with
          | .ok () => if normalizePath call.path = normalizePath q then some call else none
          | .error _ => none

/-- **A run of faithful calls is a map**: a path denotes what the last successful call wrote to it and
    its source names that call's kind; a path that no call wrote reads as at the start. -/
theorem reads_last_write (q : Bytes) :
    ∀ (calls : List Call) (c : ScConfig), EachStep step Faithful c calls →
      match lastWrite q c calls with
      | none => getProp (run step c calls) q = getProp c q ∧
          getPropSource (run step c calls) q = getPropSource c q
      | some call =>
          (∃ text, getProp (run step c calls) q = .ok text ∧ Denotes q text call.value) ∧
          ∃ source, getPropSource (run step c calls) q = .ok source ∧ NamesKind source call.kind := by
  intro calls
  induction calls with
  | nil => intro c _; exact ⟨rfl, rfl⟩
  | cons call rest ih =>
    intro c hfaithful
    have hrest := ih (step c call) hfaithful.2
    have hlaw := (mapLaw_iff_faithful c call).mpr hfaithful.1
    show match lastWrite q c (call :: rest) with
      | none => getProp (run step (step c call) rest) q = getProp c q ∧ _ = getPropSource c q
      | some call => _
    rw [lastWrite]
    cases hlast : lastWrite q (step c call) rest with
    | some last => rw [hlast] at hrest; exact hrest
    | none =>
      -- nothing later wrote the path, so it reads as this call left it
      rw [hlast] at hrest
      simp only at hrest ⊢
      cases hstatus : (answer c call).2 with
      | error e =>
        obtain ⟨hread, hsource⟩ := (hlaw.failed (by rw [hstatus]; nofun)).1 q
        exact ⟨hrest.1.trans hread, hrest.2.trans hsource⟩
      | ok done =>
        by_cases hq : normalizePath call.path = normalizePath q
        · obtain ⟨text, hread, hdenotes⟩ := hlaw.denotes hstatus
          obtain ⟨source, hsource, hnames⟩ := hlaw.names hstatus
          simp only [if_pos hq]
          rw [getProp, hq, ← getProp] at hread
          rw [getPropSource, hq, ← getPropSource] at hsource
          rw [Denotes, hq, ← Denotes] at hdenotes
          exact ⟨⟨text, hrest.1.trans hread, hdenotes⟩, source, hrest.2.trans hsource, hnames⟩
        · simp only [if_neg hq]
          obtain ⟨hread, hsource⟩ := hlaw.others q (Ne.symm hq)
          exact ⟨hrest.1.trans hread, hrest.2.trans hsource⟩

/-- The port, written twice with a refused call in between, and the schema's version by its other name. -/
def portCalls : List Call :=
  [⟨.runtime, str "gateway.port", str "8080", .ok ()⟩, ⟨.environment, str "schema_version", str "2", .ok ()⟩,
    ⟨.runtime, str "gateway.port", str "many", .ok ()⟩, ⟨.environment, str "gateway.port", str " 9090", .ok ()⟩]

/-- Both paths read as they were written last, and another one as in the beginning. -/
theorem port_reads_written :
    (∃ text, getProp (run step {} portCalls) (str "gateway.port") = .ok text ∧
      Denotes (str "gateway.port") text (str " 9090")) ∧
    (∃ text, getProp (run step {} portCalls) (str "schema.version") = .ok text ∧
      Denotes (str "schema.version") text (str "2")) ∧
    getProp (run step {} portCalls) (str "provider.default") = getProp {} (str "provider.default") := by
  have hcall : ∀ {c : ScConfig} {kind : SourceKind} {path value : Bytes},
      configFieldLookup (normalizePath path) ≠ none →
      (∀ i, intFromText value = .ok i → ∃ n, integerText value = some n ∧ 0 ≤ n ∧ n < 2 ^ 32) →
      Faithful c ⟨kind, path, value, .ok ()⟩ := by
    intro c kind path value hfield hvalue
    refine ⟨fun t _ _ ⟨i, hi⟩ => ?_, fun h => absurd rfl h.2.2, fun h => absurd h hfield⟩
    obtain ⟨n, htext, hlow, hhigh⟩ := hvalue i hi
    refine ⟨n, htext, ?_⟩
    split <;> omega
  have hfaithful : EachStep step Faithful {} portCalls := by
    refine ⟨hcall (by decide +kernel) fun _ _ => ⟨8080, by decide +kernel⟩,
      hcall (by decide +kernel) fun _ _ => ⟨2, by decide +kernel⟩, hcall (by decide +kernel) fun i hi => ?_,
      hcall (by decide +kernel) fun _ _ => ⟨9090, by decide +kernel⟩, trivial⟩
    have hrefused : (intFromText (str "many")).toOption = none := by decide +kernel
    rw [hi] at hrefused
    cases hrefused
  exact ⟨(reads_last_write (str "gateway.port") _ _ hfaithful).1,
    (reads_last_write (str "schema.version") _ _ hfaithful).1,
    (reads_last_write (str "provider.default") _ _ hfaithful).1⟩

end SmolClaw.Config
