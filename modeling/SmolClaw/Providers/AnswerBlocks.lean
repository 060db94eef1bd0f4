/-
  Texts and tool calls of an answer, in any order (`sc_provider_anthropic_parse_response`,
  `sc_provider_gemini_parse_response` and `sc_provider_ollama_parse_response`,
  `src/providers/http_providers.c`).

  1. **Shape** — `Block`: a text, or a call with its arguments.  Each provider has its own form for a list of
     them (`AnthropicAnswer`, `GeminiAnswer`, `OllamaAnswer`), said on the tree of the response and apart from
     the parsers.

  2. **Arguments** — written out and read again.  A node of a document that was read, however deep it stands,
     is read again from its own text (`Json.Readable`), and so the copy is the tree that was there.

  3. **Defects** — `append_text_parts` takes the texts of an Anthropic answer and passes its `tool_use` blocks
     over; and a Gemini answer with `data:` in a text or an argument is taken for a stream.

  4. **Result** — `answer_iff`: when each answer is kept whole.  Ollama's always is.
-/
import Mathlib.Data.List.Forall2
import SmolClaw.Providers.GeminiFraming

namespace SmolClaw

/-! ## Nodes of a document that was read -/

/-- What a test implies inside fewer containers holds of every node with it. -/
theorem Json.all_mono {p q : Nat → Json → Bool} (hpq : ∀ d e u, e ≤ d → p d u = true → q e u = true)
    (v : Json) : ∀ d e, e ≤ d → v.all p d = true → v.all q e = true := by
  induction v using Json.inductionOn with
  | null | bool b | number x | string s => exact fun d e => hpq d e _
  | array items ih =>
    intro d e hle h
    obtain ⟨hnode, hitems⟩ := Json.all_array.mp h
    exact Json.all_array.mpr ⟨hpq d e _ hle hnode, fun v hv =>
      ih v hv (d + 1) (e + 1) (Nat.succ_le_succ hle) (hitems v hv)⟩
  | object members ih =>
    intro d e hle h
    obtain ⟨hnode, hmembers⟩ := Json.all_object.mp h
    exact Json.all_object.mpr ⟨hpq d e _ hle hnode, fun m hm =>
      ih m hm (d + 1) (e + 1) (Nat.succ_le_succ hle) (hmembers m hm)⟩

theorem Json.readNode_iff {d : Nat} {u : Json} : Json.readNode d u = true ↔
    d ≤ jsonMaxDepth ∧ u.textsOk = true ∧ u.finiteOk = true := by
  rw [Json.readNode, Bool.and_eq_true, Bool.and_eq_true, decide_eq_true_iff, and_assoc]

/-- A tree the reader may return. -/
structure Json.Readable (v : Json) : Prop where
  nodes : v.all Json.readNode 0 = true
  bounded : v.bounded = true

/-- A node that stands one container deep may stand in none. -/
theorem Json.Readable.of_inner {v : Json} (hnodes : v.all Json.readNode 1 = true) (hbounded : v.bounded = true) :
    v.Readable where
  nodes := Json.all_mono (fun _ _ _ hle h =>
    have ⟨hdepth, hrest⟩ := Json.readNode_iff.mp h
    Json.readNode_iff.mpr ⟨Nat.le_trans hle hdepth, hrest⟩) v 1 0 (Nat.zero_le 1) hnodes
  bounded := hbounded

theorem Json.Readable.item {items : List Json} (h : (Json.array items).Readable) {v : Json} (hv : v ∈ items) :
    v.Readable :=
  .of_inner ((Json.all_array.mp h.nodes).2 v hv) ((Json.bounded_array.mp h.bounded).2 v hv)

theorem Json.Readable.member {v u : Json} (h : v.Readable) {key : Bytes} (hu : v.objectGet key = some u) :
    u.Readable := by
  cases v with
  | object members =>
    have hmem := mem_of_objectGet hu
    exact .of_inner ((Json.all_object.mp h.nodes).2 _ hmem) (Json.bounded_object.mp h.bounded _ hmem)
  | null | bool b | number x | string s | array items => cases hu

/-- **A node is read again** from its text. -/
theorem Json.Readable.text {v : Json} (h : v.Readable) : jsonParse (jsonText v) = .ok v :=
  jsonParse_exact ⟨h.nodes, h.bounded⟩

end SmolClaw

namespace SmolClaw.Providers

open SmolClaw.Runtime

/-! ## Blocks -/

/-- A block of an answer. -/
inductive Block where
  | text (text : Bytes)
  | call (name : Bytes) (args : Json)

namespace Block

/-- The text of a block. -/
def textOf : Block → Bytes
  | .text words => words
  | .call _ _ => []

/-- The name and the arguments of a call. -/
def callOf : Block → Option (Bytes × Option Json)
  | .text _ => none
  | .call name args => some (name, some args)

/-- **A call that has a name**, and for arguments an object without numbers that a call may hold. -/
def Proper : Block → Prop
  | .text _ => True
  | .call name args => name ≠ [] ∧ (∃ members, args = .object members) ∧ args.noNumbers = true ∧
      (jsonText args).length ≤ providerMaxToolArgumentBytes

end Block

/-- A block of Anthropic's `content`. -/
inductive AnthropicBlock (value : Json) : Block → Prop
  | text {text : Bytes} (htype : memberText (some value) "type" = some (str "text"))
      (htext : memberText (some value) "text" = some text) : AnthropicBlock value (.text text)
  | call {name : Bytes} {args : Json} (htype : memberText (some value) "type" = some (str "tool_use"))
      (hname : memberText (some value) "name" = some name)
      (hargs : member (some value) "input" = some args) : AnthropicBlock value (.call name args)

/-- A part of a Gemini candidate; a call without arguments has the empty object. -/
inductive GeminiPart (part : Json) : Block → Prop
  | text {text : Bytes} (htext : memberText (some part) "text" = some text)
      (hcall : member (some part) "functionCall" = none) : GeminiPart part (.text text)
  | call {functionCall : Json} {name : Bytes} {args : Json} (htext : member (some part) "text" = none)
      (hcall : member (some part) "functionCall" = some functionCall)
      (hname : memberText (some functionCall) "name" = some name)
      (hargs : (member (some functionCall) "args").getD (.object []) = args) : GeminiPart part (.call name args)

/-- An element of Ollama's `tool_calls`. -/
inductive OllamaCall (value : Json) : Block → Prop
  | call {name : Bytes} {args : Json} (hname : memberText (member (some value) "function") "name" = some name)
      (hargs : (member (member (some value) "function") "arguments").getD (.object []) = args) :
      OllamaCall value (.call name args)

/-- An Anthropic answer. -/
def AnthropicAnswer (root : Json) (blocks : List Block) : Prop :=
  ∃ values, member (some root) "content" = some (.array values) ∧ List.Forall₂ AnthropicBlock values blocks

/-- A Gemini answer: the parts of the first candidate. -/
def GeminiAnswer (root : Json) (blocks : List Block) : Prop :=
  ∃ parts, member (member (documentCandidate root) "content") "parts" = some (.array parts) ∧
    List.Forall₂ GeminiPart parts blocks

/-- An Ollama answer: the content of the message, and its calls. -/
def OllamaAnswer (root : Json) (blocks : List Block) : Prop :=
  ∃ content values calls, member (member (some root) "message") "content" = some (.string content) ∧
    member (member (some root) "message") "tool_calls" = some (.array values) ∧
    List.Forall₂ OllamaCall values calls ∧ blocks = .text content :: calls

/-- **Nothing is lost**: the text is that of the blocks, and the calls are theirs, in order. -/
def Whole (result : Res Answer) (blocks : List Block) : Prop :=
  ∃ out, result = .ok out ∧ out.text = blocks.flatMap Block.textOf ∧
    out.toolCalls.map (fun call => (call.name, call.arguments)) = blocks.filterMap Block.callOf

/-- What a grounded answer was searched with, and what the search gave, fit in memory when written out. -/
def GroundingFits (root : Json) : Prop :=
  let grounding := member (documentCandidate root) "groundingMetadata"
  documentGrounded root = true →
    (jsonText (queryArguments (member grounding "webSearchQueries"))).length < sizeMax ∧
      ∀ chunks ∈ member grounding "groundingChunks", (jsonText chunks).length < sizeMax

variable {root : Json} {blocks : List Block} {t : Bytes}

/-! ## One call -/

theorem readable_member {value : Option Json} {key : String} {u : Json} (h : ∀ v ∈ value, v.Readable)
    (hu : member value key = some u) : u.Readable := by
  obtain ⟨v, hv, hget⟩ := Option.bind_eq_some_iff.mp hu
  exact (h v hv).member hget

/-- The arguments of a call, given or empty. -/
theorem readable_args {value : Option Json} {key : String} {args : Json} (h : ∀ v ∈ value, v.Readable)
    (hargs : (member value key).getD (.object []) = args) : args.Readable := by
  cases hget : member value key with
  | none =>
    rw [hget, Option.getD_none] at hargs
    rw [← hargs]
    exact ⟨by decide, by decide⟩
  | some given =>
    rw [hget, Option.getD_some] at hargs
    exact hargs ▸ readable_member h hget

/-- **A call is added with its own arguments.** -/
theorem addCall_whole {name : Bytes} {args : Json} (hargs : args.Readable)
    (hproper : (Block.call name args).Proper) (callId : Bytes) (out : Answer) :
    ∃ call, makeCall callId name args = .ok call ∧ call.name = name ∧ call.arguments = some args ∧
      out.addToolCall call = .ok { out with toolCalls := out.toolCalls ++ [call] } := by
  obtain ⟨-, -, -, hlength⟩ := hproper
  have hserialize : jsonSerialize args = .ok (jsonText args) :=
    jsonSerialize_eq (Nat.lt_of_le_of_lt hlength (by decide))
  refine ⟨⟨callId, name, jsonText args, some args⟩, ?_, rfl, rfl, ?_⟩
  · rw [makeCall, hserialize]
    show (jsonParseStatus (jsonText args) >>= _) = _
    rw [jsonParse_status hargs.text]
    rfl
  · rw [Answer.addToolCall, Runtime.addToolCall, if_neg (Nat.not_lt.mpr hlength)]
    rfl

/-- What an answer has gained. -/
def Answer.Gains (out out' : Answer) (blocks : List Block) : Prop :=
  ∃ calls, out' = { out with text := out.text ++ blocks.flatMap Block.textOf, toolCalls := out.toolCalls ++ calls } ∧
    calls.map (fun call : ProviderToolCall => (call.name, call.arguments)) = blocks.filterMap Block.callOf

theorem Answer.Gains.nil (out : Answer) : out.Gains out [] :=
  ⟨[], by rw [List.flatMap_nil, List.append_nil, List.append_nil], rfl⟩

theorem Answer.Gains.cons {out next out' : Answer} {block : Block} (h : out.Gains next [block])
    (hrest : next.Gains out' blocks) : out.Gains out' (block :: blocks) := by
  obtain ⟨calls, rfl, hcalls⟩ := h
  obtain ⟨more, rfl, hmore⟩ := hrest
  refine ⟨calls ++ more, ?_, ?_⟩
  · simp only [List.flatMap_cons, List.flatMap_nil, List.append_nil, List.append_assoc]
  · rw [List.map_append, hcalls, hmore, ← List.filterMap_append]
    rfl

theorem Answer.Gains.text {out : Answer} (text : Bytes) :
    out.Gains { out with text := out.text ++ text } [.text text] :=
  ⟨[], by simp [Block.textOf], rfl⟩

theorem Answer.Gains.call {out : Answer} {call : ProviderToolCall} {args : Json}
    (hargs : call.arguments = some args) :
    out.Gains { out with toolCalls := out.toolCalls ++ [call] } [.call call.name args] :=
  ⟨[call], by simp [Block.textOf], by simp [Block.callOf, hargs]⟩

/-- What the empty answer gains is all that there is. -/
theorem Answer.Gains.whole {out out' : Answer} (h : out.Gains out' blocks) (htext : out.text = [])
    (hcalls : out.toolCalls = []) : Whole (.ok out') blocks := by
  obtain ⟨calls, rfl, hmap⟩ := h
  refine ⟨_, rfl, ?_, ?_⟩
  · rw [htext, List.nil_append]
  · rw [hcalls, List.nil_append, hmap]

/-! ## Anthropic -/

/-- The texts of an answer without calls. -/
theorem anthropicBlocks_text {values : List Json} (h : List.Forall₂ AnthropicBlock values blocks)
    (hno : ∀ block ∈ blocks, block.callOf = none) :
    (values.flatMap fun value => (memberText (some value) "text").getD []) = blocks.flatMap Block.textOf := by
  induction h with
  | nil => rfl
  | @cons value block values blocks hblock _ ih =>
    rw [List.flatMap_cons, List.flatMap_cons, ih fun other hother => hno other (List.mem_cons_of_mem block hother)]
    cases hblock with
    | text _ htext => rw [htext]; rfl
    | call _ _ _ => exact absurd (hno _ List.mem_cons_self) (Option.some_ne_none _)

/-- **An Anthropic answer is kept whole** exactly if it has no call. -/
theorem anthropicAnswer_whole (hparse : jsonParse t = .ok root) (herror : root.objectGet (str "error") = none)
    (h : AnthropicAnswer root blocks) :
    Whole (anthropicParseResponse t) blocks ↔ ∀ block ∈ blocks, block.callOf = none := by
  obtain ⟨values, hcontent, hvalues⟩ := h
  have hresult : ∃ out, anthropicParseResponse t = .ok out ∧ out.toolCalls = [] ∧
      out.text = values.flatMap fun value => (memberText (some value) "text").getD [] := by
    unfold anthropicParseResponse
    rw [jsonParse_status hparse]
    show ∃ out, (if (root.objectGet (str "error")).isSome = true then _ else _) = _ ∧ _
    rw [herror, if_neg (by decide : ¬ (none : Option Json).isSome = true), hcontent]
    exact ⟨_, rfl, rfl, rfl⟩
  obtain ⟨out, hout, hcalls, htext⟩ := hresult
  rw [hout]
  constructor
  · rintro ⟨answer, hanswer, -, hmap⟩
    cases hanswer
    rw [hcalls, List.map_nil] at hmap
    exact List.filterMap_eq_nil_iff.mp hmap.symm
  · intro hno
    refine ⟨out, rfl, htext.trans (anthropicBlocks_text hvalues hno), ?_⟩
    rw [hcalls, List.filterMap_eq_nil_iff.mpr hno, List.map_nil]

/-! ## Gemini -/

/-- One part adds its block. -/
theorem parseGeminiPart_gains {part : Json} {block : Block} (hpart : part.Readable)
    (hproper : block.Proper) (h : GeminiPart part block) (out : Answer) (index : Nat) :
    ∃ out', parseGeminiPart out part index = .ok out' ∧ out.Gains out' [block] := by
  unfold parseGeminiPart
  cases h with
  | text htext _ =>
    rw [htext]
    exact ⟨_, rfl, .text _⟩
  | @call functionCall name args htext hcall hname hargs =>
    have hreadable : functionCall.Readable :=
      readable_member (fun v hv => Option.some.inj hv ▸ hpart) hcall
    obtain ⟨call, hmake, hcallName, hcallArgs, hadd⟩ := addCall_whole
      (readable_args (fun v hv => Option.some.inj hv ▸ hreadable) hargs) hproper
      (str "gemini-call-" ++ decimal (index + 1)) out
    have hnone : memberText (some part) "text" = none := by rw [memberText, htext]; rfl
    rw [hnone, hcall]
    dsimp only
    rw [hname, Option.getD_some, if_neg hproper.1, hargs, hmake]
    exact ⟨_, hadd, hcallName ▸ .call hcallArgs⟩

theorem parseGeminiParts_gains {parts : List Json} (h : List.Forall₂ GeminiPart parts blocks)
    (hparts : ∀ part ∈ parts, part.Readable) (hproper : ∀ block ∈ blocks, block.Proper) :
    ∀ (out : Answer) (index : Nat), ∃ out', parseGeminiParts out index parts = .ok out' ∧
      out.Gains out' blocks := by
  induction h with
  | nil => exact fun out _ => ⟨out, rfl, .nil out⟩
  | @cons part block parts blocks hpart _ ih =>
    intro out index
    rw [List.forall_mem_cons] at hparts hproper
    obtain ⟨next, hnext, hgains⟩ := parseGeminiPart_gains hparts.1 hproper.1 hpart out index
    obtain ⟨out', hout, hmore⟩ := ih hparts.2 hproper.2 next (index + 1)
    refine ⟨out', ?_, hgains.cons hmore⟩
    rw [parseGeminiParts, hnext]
    exact hout

/-- **A search is written out** exactly if it fits. -/
theorem parseGeminiGrounding_ok (out : Answer) :
    (∃ out', parseGeminiGrounding root out = .ok out') ↔ GroundingFits root := by
  cases hgrounded : documentGrounded root with
  | false =>
    refine ⟨fun _ h => ?_, fun _ => ⟨out, parseGeminiGrounding_quiet hgrounded out⟩⟩
    rw [hgrounded] at h
    cases h
  | true =>
    have hsearch := hgrounded
    unfold documentGrounded at hsearch
    rw [Bool.and_eq_true, Bool.not_eq_true', List.isEmpty_eq_false_iff] at hsearch
    unfold GroundingFits parseGeminiGrounding documentCandidate
    dsimp only
    rw [if_neg (not_or.mpr ⟨by rw [Option.isNone_eq_false_iff.mpr hsearch.1]; decide, hsearch.2⟩)]
    constructor
    · rintro ⟨out', h⟩ -
      obtain ⟨argumentsJson, harguments, h⟩ := Res.bind_eq_ok.mp h
      refine ⟨(jsonSerialize_eq_ok harguments).2, fun chunks hchunks => ?_⟩
      rw [Option.mem_def.mp hchunks] at h
      obtain ⟨resultJson, hresult, -⟩ := Res.bind_eq_ok.mp h
      exact (jsonSerialize_eq_ok hresult).2
    · intro hfits
      obtain ⟨harguments, hchunks⟩ := hfits hgrounded
      rw [jsonSerialize_eq harguments]
      cases hgiven : member (member (arrayItems (member (some root) "candidates")).head? "groundingMetadata")
        "groundingChunks" with
      | none => exact ⟨_, rfl⟩
      | some chunks =>
        dsimp only
        rw [jsonSerialize_eq (hchunks chunks hgiven)]
        exact ⟨_, rfl⟩

/-- The empty answer is what there is if every block is an empty text. -/
theorem whole_nothing : Whole (.ok {}) blocks ↔ ∀ block ∈ blocks, block = .text [] := by
  constructor
  · rintro ⟨out, hout, htext, hcalls⟩ block hblock
    cases hout
    cases block with
    | text text =>
      have hempty : text = [] := List.flatMap_eq_nil_iff.mp htext.symm _ hblock
      rw [hempty]
    | call name args => exact absurd (List.filterMap_eq_nil_iff.mp hcalls.symm _ hblock) (Option.some_ne_none _)
  · intro h
    refine ⟨{}, rfl, (List.flatMap_eq_nil_iff.mpr fun block hblock => ?_).symm,
      (List.filterMap_eq_nil_iff.mpr fun block hblock => ?_).symm⟩
    · rw [h block hblock]; rfl
    · rw [h block hblock]; rfl

/-- The parts of a document that was read. -/
theorem readable_parts (h : root.Readable) {parts : List Json}
    (hparts : member (member (documentCandidate root) "content") "parts" = some (.array parts)) :
    ∀ part ∈ parts, part.Readable := by
  have hroot : ∀ v ∈ some root, v.Readable := fun v hv => Option.some.inj hv ▸ h
  have hcandidate : ∀ v ∈ documentCandidate root, v.Readable := by
    intro v hv
    unfold documentCandidate at hv
    cases hlist : member (some root) "candidates" with
    | none => rw [hlist] at hv; cases hv
    | some list =>
      rw [hlist] at hv
      have hreadable := readable_member hroot hlist
      cases list with
      | array items => exact hreadable.item (List.mem_of_mem_head? hv)
      | null | bool b | number x | string s | object members => cases hv
  exact fun part hpart =>
    (readable_member (fun v hv => readable_member hcandidate hv) hparts).item hpart

/-- **A Gemini answer is kept whole** exactly if the marker of a stream stands nowhere in it, or it says
    nothing anyway. -/
theorem geminiAnswer_whole (hparse : jsonParse t = .ok root) (herror : root.objectGet (str "error") = none)
    (hproper : ∀ block ∈ blocks, block.Proper) (h : GeminiAnswer root blocks) :
    Whole (geminiParseResponse t) blocks ↔ (str "data:" <:+: t → ∀ block ∈ blocks, block = .text []) ∧
      (¬ str "data:" <:+: t → GroundingFits root) := by
  by_cases hmarker : str "data:" <:+: t
  · rw [geminiParseResponse_marked hparse hmarker, whole_nothing]
    exact ⟨fun hempty => ⟨fun _ => hempty, fun hnot => absurd hmarker hnot⟩, fun hempty => hempty.1 hmarker⟩
  obtain ⟨parts, hparts, hblocks⟩ := h
  have hgains := parseGeminiParts_gains hblocks
    (readable_parts ⟨(jsonParse_valid hparse).1, (jsonParse_valid hparse).2⟩ hparts) hproper
  unfold documentCandidate at hparts
  rw [geminiParseResponse_plain hmarker, parseGeminiJsonResponse, jsonParse_status hparse]
  show Whole (if _ then _ else _) blocks ↔ _
  rw [herror, if_neg (by decide)]
  dsimp only
  constructor
  · rintro ⟨out, hout, -⟩
    obtain ⟨searched, hsearched, -⟩ := Res.bind_eq_ok.mp hout
    exact ⟨fun hyes => absurd hyes hmarker, fun _ => (parseGeminiGrounding_ok _).mp ⟨searched, hsearched⟩⟩
  · intro hfits
    obtain ⟨searched, hsearched⟩ := (parseGeminiGrounding_ok { ({} : Answer) with
      model := nonEmptyText (some root) "modelVersion" []
      usage := geminiUsage root {} }).mpr (hfits.2 hmarker)
    obtain ⟨⟨call, result, hsame⟩, -⟩ := parseGeminiGrounding_frame hsearched {}
    rw [hsearched]
    show Whole (if _ then _ else _) blocks
    rw [hparts, if_neg (show ¬ (some (Json.array parts)).isNone = true from Bool.false_ne_true)]
    obtain ⟨out, hout, hadded⟩ := hgains { searched with
      finishReason := nonEmptyText (arrayItems (member (some root) "candidates")).head? "finishReason"
        searched.finishReason } 0
    have hall : Whole (.ok out) blocks := hadded.whole (by rw [hsame]) (by rw [hsame])
    rwa [← hout] at hall

/-! ## Ollama -/

/-- The arguments of a call, given as an object or not at all. -/
theorem ollamaArguments_object {function : Option Json} {args : Json}
    (hargs : (member function "arguments").getD (.object []) = args)
    (hobject : ∃ members, args = .object members) : ollamaArguments function = .ok args := by
  obtain ⟨members, rfl⟩ := hobject
  unfold ollamaArguments
  cases hget : member function "arguments" with
  | none =>
    rw [hget] at hargs
    rw [← hargs]
    rfl
  | some given =>
    rw [hget, Option.getD_some] at hargs
    rw [hargs]

theorem parseOllamaToolCall_gains {value : Json} {block : Block} (hvalue : value.Readable)
    (hproper : block.Proper) (h : OllamaCall value block) (out : Answer) (index : Nat) :
    ∃ out', parseOllamaToolCall out value index = .ok out' ∧ out.Gains out' [block] := by
  cases h with
  | @call name args hname hargs =>
    have hfunction : ∀ v ∈ member (some value) "function", v.Readable := fun v hv =>
      readable_member (fun u hu => Option.some.inj hu ▸ hvalue) hv
    obtain ⟨call, hmake, hcallName, hcallArgs, hadd⟩ := addCall_whole (readable_args hfunction hargs) hproper
      ((memberText (some value) "id").getD (str "ollama-call-" ++ decimal (index + 1))) out
    unfold parseOllamaToolCall
    dsimp only
    rw [hname, Option.getD_some, if_neg hproper.1, ollamaArguments_object hargs hproper.2.1]
    show ∃ out', (makeCall _ _ _ >>= _) = _ ∧ _
    rw [hmake]
    exact ⟨_, hadd, hcallName ▸ .call hcallArgs⟩

theorem parseOllamaToolCalls_gains {values : List Json} (h : List.Forall₂ OllamaCall values blocks)
    (hvalues : ∀ value ∈ values, value.Readable) (hproper : ∀ block ∈ blocks, block.Proper) :
    ∀ (out : Answer) (index : Nat), ∃ out', parseOllamaToolCalls out index values = .ok out' ∧
      out.Gains out' blocks := by
  induction h with
  | nil => exact fun out _ => ⟨out, rfl, .nil out⟩
  | @cons value block values blocks hvalue _ ih =>
    intro out index
    rw [List.forall_mem_cons] at hvalues hproper
    obtain ⟨next, hnext, hgains⟩ := parseOllamaToolCall_gains hvalues.1 hproper.1 hvalue out index
    obtain ⟨out', hout, hmore⟩ := ih hvalues.2 hproper.2 next (index + 1)
    refine ⟨out', ?_, hgains.cons hmore⟩
    rw [parseOllamaToolCalls, hnext]
    exact hout

/-- **An Ollama answer is kept whole.** -/
theorem ollamaAnswer_whole (hparse : jsonParse t = .ok root) (herror : root.objectGet (str "error") = none)
    (hproper : ∀ block ∈ blocks, block.Proper) (h : OllamaAnswer root blocks) :
    Whole (ollamaParseResponse t) blocks := by
  obtain ⟨content, values, calls, hcontent, htools, hvalues, rfl⟩ := h
  have hroot : root.Readable := ⟨(jsonParse_valid hparse).1, (jsonParse_valid hparse).2⟩
  have hmessage : ∀ v ∈ member (some root) "message", v.Readable := fun v hv =>
    readable_member (fun u hu => Option.some.inj hu ▸ hroot) hv
  have hgains := parseOllamaToolCalls_gains hvalues
    (fun value hvalue => (readable_member hmessage htools).item hvalue)
    (fun block hblock => hproper block (List.mem_cons_of_mem _ hblock))
  have htext : memberText (member (some root) "message") "content" = some content := by
    rw [memberText, hcontent]
    rfl
  unfold ollamaParseResponse
  rw [jsonParse_status hparse]
  show Whole (if _ then _ else _) _
  rw [herror, if_neg (by decide), htext, htools, Option.some_or, Option.getD_some]
  obtain ⟨out, hout, added, rfl, hadded⟩ := hgains _ 0
  rw [show arrayItems (some (.array values)) = values from rfl, hout]
  exact ⟨_, rfl, rfl, hadded⟩

/-! ## The three providers -/

/-- **When an answer is kept whole.**  Anthropic's loses its calls, whichever they are; Gemini's is lost to
    the guess at its framing, and kept otherwise if its search can be written out; Ollama's is kept. -/
theorem answer_iff (hparse : jsonParse t = .ok root) (herror : root.objectGet (str "error") = none)
    (hproper : ∀ block ∈ blocks, block.Proper) :
    (AnthropicAnswer root blocks →
        (Whole (anthropicParseResponse t) blocks ↔ ∀ block ∈ blocks, block.callOf = none)) ∧
      (GeminiAnswer root blocks →
        (Whole (geminiParseResponse t) blocks ↔
          (str "data:" <:+: t → ∀ block ∈ blocks, block = .text []) ∧
            (¬ str "data:" <:+: t → GroundingFits root))) ∧
      (OllamaAnswer root blocks → Whole (ollamaParseResponse t) blocks) :=
  ⟨anthropicAnswer_whole hparse herror, geminiAnswer_whole hparse herror hproper,
    ollamaAnswer_whole hparse herror hproper⟩

/-- An Ollama message with a word and a call. -/
def ollamaDocument : Json :=
  .object [(str "message", .object [(str "content", .string (str "a")),
    (str "tool_calls", .array [.object [(str "function", .object [(str "name", .string (str "f"))])]])])]

theorem jsonParse_ollamaDocument : jsonParse (jsonText ollamaDocument) = .ok ollamaDocument :=
  jsonParse_text ⟨by decide +kernel, by decide +kernel, by decide +kernel⟩ (by decide +kernel)

/-- The word and the call of that message. -/
theorem answer_ollama :
    Whole (ollamaParseResponse (jsonText ollamaDocument)) [.text (str "a"), .call (str "f") (.object [])] := by
  refine (answer_iff jsonParse_ollamaDocument rfl ?_).2.2 ⟨str "a", [_], [_], rfl, rfl, ?_, rfl⟩
  · simp only [List.forall_mem_cons, List.not_mem_nil, false_implies, implies_true, and_true]
    exact ⟨trivial, by decide, ⟨[], rfl⟩, by decide, by decide⟩
  · exact .cons (.call rfl rfl) .nil

/-- An Anthropic answer that is a call. -/
def toolUseDocument : Json :=
  .object [(str "content", .array [.object [(str "type", .string (str "tool_use")),
    (str "name", .string (str "f")), (str "input", .object [])]])]

/-- **An Anthropic answer that calls a tool is lost.** -/
theorem answer_loses :
    ¬ ∀ (t : Bytes) (root : Json) (blocks : List Block), jsonParse t = .ok root →
        root.objectGet (str "error") = none → (∀ block ∈ blocks, block.Proper) →
          (AnthropicAnswer root blocks → Whole (anthropicParseResponse t) blocks) ∧
            (GeminiAnswer root blocks → Whole (geminiParseResponse t) blocks) ∧
            (OllamaAnswer root blocks → Whole (ollamaParseResponse t) blocks) := by
  intro h
  have hparse : jsonParse (jsonText toolUseDocument) = .ok toolUseDocument :=
    jsonParse_text ⟨by decide +kernel, by decide +kernel, by decide +kernel⟩ (by decide +kernel)
  have hanswer : AnthropicAnswer toolUseDocument [.call (str "f") (.object [])] :=
    ⟨[_], rfl, .cons (.call rfl rfl rfl) .nil⟩
  have hproper : ∀ block ∈ [Block.call (str "f") (.object [])], block.Proper := by
    simp only [List.forall_mem_cons, List.not_mem_nil, false_implies, implies_true, and_true]
    exact ⟨by decide, ⟨[], rfl⟩, by decide, by decide⟩
  have hwhole := (h _ _ _ hparse rfl hproper).1 hanswer
  have hno := (anthropicAnswer_whole hparse rfl hanswer).mp hwhole _ List.mem_cons_self
  exact absurd hno (Option.some_ne_none _)

end SmolClaw.Providers
