/-
  What `recover_text_tool_calls` (`src/runtime/agent.c`) does to the text of an answer.

  1. **Segments** — the scanner cuts the text into consecutive pieces.  A piece stays in the text, or it is
     an ELEMENT: from an opening tag to the first closing tag behind it, with JSON in between.

  2. **Invariant** — `Scanned`: what the loop has so far is told by the segments it has passed.  One round
     adds segments that make up the text it takes off (`recoverJson_scanned`, `recoverNamed_scanned`),
     whatever sub-case copies what.

  3. **Result** — `text_calls_conserved`: the visible text is what was not recovered, in order, and there
     is one call for each element that was, with its name, its arguments and the next id.

  4. **Opening tags** — the scanner reads markers of many writers: it looks for the name anywhere between
     `<tool ` and the `>`, so that other attributes may stand in front (`later_name_taken`).
-/
import SmolClaw.Runtime.ToolCalls

namespace SmolClaw.Runtime

open Lib.Infix

/-! ## Segments -/

/-- A piece of a text: it stays there, or it becomes a call. -/
inductive Segment where
  | plain (piece : Bytes)
  | call (piece : Bytes) (made : ProviderToolCall)

/-- The bytes of a segment. -/
def Segment.bytes : Segment → Bytes
  | .plain piece => piece
  | .call piece _ => piece

/-- What stays in the text. -/
def Segment.visible : Segment → Bytes
  | .plain piece => piece
  | .call _ _ => []

/-- The call that a segment becomes. -/
def Segment.recovered : Segment → Option ProviderToolCall
  | .plain _ => none
  | .call _ made => some made

/-- The calls of segments. -/
def recoveredCalls (segments : List Segment) : List ProviderToolCall := segments.filterMap Segment.recovered

/-! ## Elements -/

/-- The name in the payload of a `<tool_call>`. -/
def payloadName (root : Json) : Option Bytes :=
  (Json.asStr (root.objectGet (str "name"))).or (Json.asStr (root.objectGet (str "tool")))

/-- The arguments in the payload of a `<tool_call>`. -/
def payloadArguments (root : Json) : Option Json :=
  (root.objectGet (str "arguments")).or (root.objectGet (str "args"))

/-- An opening tag in which `name="…"` stands before the `>`, for the first time. -/
def NamesTool (tag name : Bytes) : Prop :=
  ∃ before after, tag = str "<tool " ++ before ++ str "name=\"" ++ name ++ chr '"' :: after ++ [chr '>'] ∧
    chr '>' ∉ before ++ name ++ after ∧ chr '"' ∉ name ∧ Free (str "name=\"") before

/-- An opening tag whose first attribute is the name. -/
def NamesToolFirst (tag name : Bytes) : Prop :=
  ∃ after, tag = str "<tool name=\"" ++ name ++ chr '"' :: after ++ [chr '>'] ∧ chr '"' ∉ name

/-- An element that becomes a call; `opens` tells an opening tag and the name in it.  It ends at the first
    closing tag, what is in it is JSON, and the call has its name and arguments. -/
inductive Element (opens : Bytes → Bytes → Prop) : Bytes → ProviderToolCall → Prop where
  | json {payload : Bytes} {root args arguments : Json} {made : ProviderToolCall}
      (closed : Free (str "</tool_call>") payload) (read : jsonParse (trimAscii payload) = .ok root)
      (name : payloadName root = some made.name) (held : payloadArguments root = some args)
      (written : jsonSerialize args = .ok made.argumentsJson)
      (parsed : jsonParse made.argumentsJson = .ok arguments) (given : made.arguments = some arguments) :
      Element opens (str "<tool_call>" ++ payload ++ str "</tool_call>") made
  | named {tag body : Bytes} {arguments : Json} {made : ProviderToolCall}
      (name : opens tag made.name) (closed : Free (str "</tool>") body)
      (written : made.argumentsJson = trimAscii body)
      (parsed : jsonParse made.argumentsJson = .ok arguments) (given : made.arguments = some arguments) :
      Element opens (tag ++ body ++ str "</tool>") made

/-- **Conserved**: the text is cut into segments, those that were not recovered are the new text, and those
    that were are elements and the new calls, one for each and numbered from 1. -/
def Conserved (opens : Bytes → Bytes → Prop) (response result : ProviderResponse) : Prop :=
  ∃ segments : List Segment,
    segments.flatMap Segment.bytes = response.text ∧
      result = { response with
        text := segments.flatMap Segment.visible
        toolCalls := response.toolCalls ++ recoveredCalls segments } ∧
      (∀ k made, (recoveredCalls segments)[k]? = some made →
        made.callId = str "text-call-" ++ decimal (k + 1)) ∧
      ∀ piece made, Segment.call piece made ∈ segments → Element opens piece made

/-! ## Finding -/

theorem findLiteral_eq_some {haystack needle : Bytes} {k : Nat} (hne : needle ≠ [])
    (h : findLiteral haystack needle = some k) :
    ∃ before after, haystack = before ++ (needle ++ after) ∧ before.length = k ∧ Free needle before := by
  obtain ⟨⟨before, rest⟩, hfirst, rfl⟩ := Option.map_eq_some_iff.mp h
  obtain ⟨rfl, ⟨after, rfl⟩, hfree⟩ := firstInfix_eq_some hne hfirst
  exact ⟨before, after, rfl, rfl, fun hin => hfree (hin.trans (List.prefix_append _ _).isInfix)⟩

/-! ## Calls -/

/-- A call that is added is the last one, and nothing else changes. -/
theorem addToolCall_ok {response result : ProviderResponse} {made : ProviderToolCall}
    (h : addToolCall response made = .ok result) :
    result = { response with toolCalls := response.toolCalls ++ [made] } := by
  unfold addToolCall at h
  split at h
  · exact absurd h (Status.invalidArgument_ne_ok _ _)
  · exact (Except.ok.inj h).symm

theorem addRecoveredNamed_ok {response result : ProviderResponse} {name argsJson : Bytes} {index : Nat}
    (h : addRecoveredNamed response name argsJson index = .ok result) :
    ∃ arguments, jsonParse argsJson = .ok arguments ∧
      result = { response with
        toolCalls := response.toolCalls ++ [{
          callId := str "text-call-" ++ decimal index
          name := name
          argumentsJson := argsJson
          arguments := some arguments }] } := by
  unfold addRecoveredNamed at h
  split at h
  · exact absurd h (Status.invalidArgument_ne_ok _ _)
  · obtain ⟨arguments, hparse, hadd⟩ := Res.bind_eq_ok.mp h
    exact ⟨arguments, jsonParse_of_status hparse, addToolCall_ok hadd⟩

theorem addRecoveredJson_ok {response result : ProviderResponse} {payload : Bytes} {index : Nat}
    (h : addRecoveredJson response payload index = .ok result) :
    ∃ root name args argsJson, jsonParse payload = .ok root ∧ payloadName root = some name ∧
      payloadArguments root = some args ∧ jsonSerialize args = .ok argsJson ∧
      addRecoveredNamed response name argsJson index = .ok result := by
  obtain ⟨root, hroot, h⟩ := Res.bind_eq_ok.mp h
  dsimp only at h
  split at h
  · exact absurd h (Status.parse_ne_ok _ _)
  · next hname =>
    cases hfound : payloadName root with
    | none =>
      rw [payloadName] at hfound
      rw [hfound] at hname
      exact absurd rfl hname
    | some name =>
      split at h
      · exact absurd h (Status.parse_ne_ok _ _)
      · next args hargs =>
        obtain ⟨argsJson, hjson, hadd⟩ := Res.bind_eq_ok.mp h
        change addRecoveredNamed response ((payloadName root).getD []) argsJson index = .ok result at hadd
        rw [hfound] at hadd
        exact ⟨root, name, args, argsJson, jsonParse_of_status hroot, hfound, hargs, hjson, hadd⟩

/-! ## The loop -/

/-- What the segments that were passed say about the state of the loop. -/
structure Scanned (response : ProviderResponse) (segments : List Segment) (r : Recovery) : Prop where
  visible : r.visible = segments.flatMap Segment.visible
  response : r.response = { response with toolCalls := response.toolCalls ++ recoveredCalls segments }
  count : r.recovered = (recoveredCalls segments).length
  numbered : ∀ k made, (recoveredCalls segments)[k]? = some made →
    made.callId = str "text-call-" ++ decimal (k + 1)
  elements : ∀ piece made, Segment.call piece made ∈ segments → Element NamesTool piece made

variable {response : ProviderResponse} {segments : List Segment} {r : Recovery}

theorem recoveredCalls_plain (segments : List Segment) (piece : Bytes) :
    recoveredCalls (segments ++ [.plain piece]) = recoveredCalls segments := by
  rw [recoveredCalls, List.filterMap_append]
  exact List.append_nil _

theorem recoveredCalls_call (segments : List Segment) (piece : Bytes) (made : ProviderToolCall) :
    recoveredCalls (segments ++ [.call piece made]) = recoveredCalls segments ++ [made] := by
  rw [recoveredCalls, List.filterMap_append]
  rfl

theorem scanned_nil (response : ProviderResponse) : Scanned response [] { response := response } where
  visible := rfl
  response := by rw [recoveredCalls, List.filterMap_nil, List.append_nil]
  count := rfl
  numbered := nofun
  elements := nofun

/-- A piece that stays. -/
theorem Scanned.plain (h : Scanned response segments r) (piece : Bytes) :
    Scanned response (segments ++ [.plain piece]) { r with visible := r.visible ++ piece } where
  visible := by
    rw [List.flatMap_append, List.flatMap_singleton, ← h.visible]
    rfl
  response := by rw [recoveredCalls_plain, ← h.response]
  count := by rw [recoveredCalls_plain, ← h.count]
  numbered := by
    rw [recoveredCalls_plain]
    exact h.numbered
  elements piece' made hmem := by
    rcases List.mem_append.mp hmem with hmem | hmem
    · exact h.elements piece' made hmem
    · exact nomatch List.mem_singleton.mp hmem

/-- A piece that becomes the next call. -/
theorem Scanned.call (h : Scanned response segments r) {piece : Bytes} {made : ProviderToolCall}
    (hid : made.callId = str "text-call-" ++ decimal (r.recovered + 1))
    (helement : Element NamesTool piece made) :
    Scanned response (segments ++ [.call piece made]) { r with
      response := { r.response with toolCalls := r.response.toolCalls ++ [made] }
      recovered := r.recovered + 1 } where
  visible := by
    rw [List.flatMap_append, List.flatMap_singleton, ← h.visible]
    exact (List.append_nil _).symm
  response := by
    rw [recoveredCalls_call, h.response]
    simp only [List.append_assoc]
  count := by
    rw [recoveredCalls_call, List.length_append, ← h.count]
    rfl
  numbered k other hk := by
    rw [recoveredCalls_call] at hk
    rcases Nat.lt_trichotomy k (recoveredCalls segments).length with hlt | heq | hgt
    · rw [List.getElem?_append_left hlt] at hk
      exact h.numbered k other hk
    · rw [heq, List.getElem?_concat_length] at hk
      rw [← Option.some.inj hk, hid, heq, h.count]
    · rw [List.getElem?_eq_none (by rw [List.length_append, List.length_singleton]; omega)] at hk
      exact nomatch hk
  elements piece' made' hmem := by
    rcases List.mem_append.mp hmem with hmem | hmem
    · exact h.elements piece' made' hmem
    · obtain ⟨rfl, rfl⟩ := Segment.call.inj (List.mem_singleton.mp hmem)
      exact helement

/-- **A piece with a call in it**: it is taken if the call can be made, else it stays. -/
theorem Scanned.take (h : Scanned response segments r) {parsed : Res ProviderResponse} {piece : Bytes}
    (hparsed : ∀ result, parsed = .ok result → ∃ made : ProviderToolCall,
      made.callId = str "text-call-" ++ decimal (r.recovered + 1) ∧ Element NamesTool piece made ∧
        result = { r.response with toolCalls := r.response.toolCalls ++ [made] }) :
    ∃ segment, segment.bytes = piece ∧ Scanned response (segments ++ [segment]) (r.take parsed piece) := by
  cases parsed with
  | error e => exact ⟨.plain piece, rfl, h.plain piece⟩
  | ok result =>
    obtain ⟨made, hid, helement, rfl⟩ := hparsed result rfl
    exact ⟨.call piece made, rfl, h.call hid helement⟩

/-- One round makes up the text it takes off; what is left is shorter. -/
def Advances (response : ProviderResponse) (segments : List Segment) (source : Bytes)
    (next : Recovery × Option Bytes) : Prop :=
  ∃ more : List Segment, more.flatMap Segment.bytes ++ next.2.getD [] = source ∧
    Scanned response (segments ++ more) next.1 ∧ ∀ rest, next.2 = some rest → rest.length < source.length

/-- The rest of the text stays, and the loop is over. -/
theorem Scanned.stop (h : Scanned response segments r) (source : Bytes) :
    Advances response segments source ({ r with visible := r.visible ++ source }, none) :=
  ⟨[.plain source], by simp [Segment.bytes], h.plain source, nofun⟩

/-- A piece is passed, and the loop goes on behind it. -/
theorem Scanned.advances {segment : Segment} {source rest : Bytes}
    (h : Scanned response (segments ++ [segment]) r) (hsource : source = segment.bytes ++ rest)
    (hne : segment.bytes ≠ []) : Advances response segments source (r, some rest) := by
  refine ⟨[segment], ?_, h, ?_⟩
  · rw [List.flatMap_singleton]
    exact hsource.symm
  · intro rest' hrest
    have hpos := List.length_pos_iff.mpr hne
    rw [← Option.some.inj hrest, hsource, List.length_append]
    omega

/-- **A round at a `<tool_call>`.** -/
theorem recoverJson_scanned (h : Scanned response segments r) {source : Bytes}
    (hstart : str "<tool_call>" <+: source) : Advances response segments source (recoverJson r source) := by
  obtain ⟨inner, rfl⟩ := hstart
  unfold recoverJson
  dsimp only
  rw [List.drop_left' rfl]
  split
  · exact h.stop _
  · next length hclose =>
    obtain ⟨payload, rest, rfl, hlength, hfree⟩ := findLiteral_eq_some (by decide) hclose
    have hcut : str "<tool_call>" ++ (payload ++ (str "</tool_call>" ++ rest)) =
        str "<tool_call>" ++ payload ++ str "</tool_call>" ++ rest := by simp only [List.append_assoc]
    have hend : (str "<tool_call>" ++ payload ++ str "</tool_call>").length =
        (str "<tool_call>").length + length + (str "</tool_call>").length := by
      rw [List.length_append, List.length_append, hlength]
    rw [List.take_left' hlength, hcut, List.take_left' hend, List.drop_left' hend]
    have hcall : ∀ result,
        addRecoveredJson r.response (trimAscii payload) (r.recovered + 1) = .ok result →
        ∃ made : ProviderToolCall, made.callId = str "text-call-" ++ decimal (r.recovered + 1) ∧
          Element NamesTool (str "<tool_call>" ++ payload ++ str "</tool_call>") made ∧
          result = { r.response with toolCalls := r.response.toolCalls ++ [made] } := by
      intro result hresult
      obtain ⟨root, name, args, argsJson, hread, hname, hheld, hwritten, hadd⟩ := addRecoveredJson_ok hresult
      obtain ⟨arguments, hparsed, hresult⟩ := addRecoveredNamed_ok hadd
      exact ⟨_, rfl, .json hfree hread hname hheld hwritten hparsed rfl, hresult⟩
    obtain ⟨segment, hbytes, hnext⟩ := h.take hcall
    exact hnext.advances (by rw [hbytes]) (by rw [hbytes]; simp [str])

/-- The name that is found stands behind `<tool `. -/
theorem name_behind_tool {before after rest : Bytes}
    (h : before ++ (str "name=\"" ++ after) = str "<tool " ++ rest) :
    ∃ attributes, before = str "<tool " ++ attributes := by
  rcases List.append_eq_append_iff.mp h with ⟨tail, htool, hname⟩ | ⟨attributes, hbefore, -⟩
  · cases tail with
    | nil => exact ⟨[], by rw [htool, List.append_nil, List.append_nil]⟩
    | cons c tail =>
      -- an `n` would stand in `<tool `
      have hc : c = chr 'n' := by
        have hhead := congrArg List.head? hname
        exact (Option.some.inj hhead).symm
      have hmem : chr 'n' ∈ str "<tool " := by
        rw [htool, hc]
        exact List.mem_append_right _ List.mem_cons_self
      exact absurd hmem (by decide)
  · exact ⟨attributes, hbefore⟩

/-- The tag up to its first `>`, with the first name in it. -/
theorem namesTool_of_found {inner before after tag rest name tail : Bytes}
    (hname : str "<tool " ++ inner = before ++ (str "name=\"" ++ after))
    (htag : str "<tool " ++ inner = tag ++ ([chr '>'] ++ rest)) (hquote : after = name ++ ([chr '"'] ++ tail))
    (hfree : Free (str "name=\"") before) (hopen : chr '>' ∉ tag) (hplain : chr '"' ∉ name)
    (hinside : before.length + (str "name=\"").length + name.length ≤ tag.length) :
    NamesTool (tag ++ [chr '>']) name := by
  obtain ⟨attributes, rfl⟩ := name_behind_tool hname.symm
  have hcut : (str "<tool " ++ attributes ++ str "name=\"" ++ name) ++ ([chr '"'] ++ tail) =
      tag ++ ([chr '>'] ++ rest) := by
    rw [← htag, hname, hquote]
    simp only [List.append_assoc]
  -- the tag goes on behind the name, with the quote
  have hlength : (str "<tool " ++ attributes ++ str "name=\"" ++ name).length ≤ tag.length := by
    simp only [List.length_append] at hinside ⊢
    omega
  have hleft : str "<tool " ++ attributes ++ str "name=\"" ++ name <+: tag ++ ([chr '>'] ++ rest) :=
    hcut ▸ List.prefix_append _ _
  obtain ⟨between, rfl⟩ := List.prefix_of_prefix_length_le hleft (List.prefix_append _ _) hlength
  rw [List.append_assoc _ between] at hcut
  have hbetween := List.append_cancel_left hcut
  cases between with
  | nil => exact absurd (List.cons.inj hbetween).1 (by decide)
  | cons c between =>
    obtain rfl : chr '"' = c := (List.cons.inj hbetween).1
    refine ⟨attributes, between, by simp only [List.append_assoc, List.cons_append], ?_, hplain, ?_⟩
    · intro hmem
      refine hopen ?_
      simp only [List.mem_append, List.mem_cons] at hmem ⊢
      tauto
    · exact fun hin => hfree (hin.trans (List.suffix_append _ _).isInfix)

/-- **A round at a `<tool `.** -/
theorem recoverNamed_scanned (h : Scanned response segments r) {source : Bytes}
    (hstart : str "<tool " <+: source) : Advances response segments source (recoverNamed r source) := by
  unfold recoverNamed
  split
  · next nameStart tagEnd hname htag =>
    split
    · exact h.stop source
    · next length hclose =>
      dsimp only
      split
      · exact h.stop source
      · next hbefore =>
        obtain ⟨inner, hinner⟩ := hstart
        obtain ⟨before, after, hsource, hnameStart, hfree⟩ := findLiteral_eq_some (by decide) hname
        obtain ⟨tag, behind, hopen, htagEnd, hnone⟩ := findLiteral_eq_some (List.cons_ne_nil _ _) htag
        have hdrop : source.drop (tagEnd + 1) = behind := by
          rw [hopen, ← List.append_assoc]
          exact List.drop_left' (by rw [List.length_append, htagEnd]; rfl)
        rw [hdrop] at hclose
        obtain ⟨body, rest, rfl, hbody, hclosed⟩ := findLiteral_eq_some (by decide) hclose
        have hpiece : source = tag ++ [chr '>'] ++ body ++ str "</tool>" ++ rest := by
          rw [hopen]
          simp only [List.append_assoc]
        have hend : (tag ++ [chr '>'] ++ body ++ str "</tool>").length =
            tagEnd + 1 + length + (str "</tool>").length := by
          simp only [List.length_append, List.length_singleton, htagEnd, hbody]
        have htake : source.take (tagEnd + 1 + length + (str "</tool>").length) =
            tag ++ [chr '>'] ++ body ++ str "</tool>" := by
          rw [hpiece]
          exact List.take_left' hend
        have hrest : source.drop (tagEnd + 1 + length + (str "</tool>").length) = rest := by
          rw [hpiece]
          exact List.drop_left' hend
        have hne : tag ++ [chr '>'] ++ body ++ str "</tool>" ≠ [] := by simp
        rw [htake, hrest]
        have hstays := h.plain (tag ++ [chr '>'] ++ body ++ str "</tool>")
        split
        · exact hstays.advances hpiece hne
        · next nameLength hquote =>
          split
          · exact hstays.advances hpiece hne
          · next hinside =>
            have hafter : source.drop (nameStart + (str "name=\"").length) = after := by
              rw [hsource, ← List.append_assoc]
              exact List.drop_left' (by rw [List.length_append, hnameStart])
            rw [hafter] at hquote
            obtain ⟨name, tail, hname', hnameLength, hplain⟩ :=
              findLiteral_eq_some (List.cons_ne_nil _ _) hquote
            have hnames : NamesTool (tag ++ [chr '>']) name :=
              namesTool_of_found (hinner.trans hsource) (hinner.trans hopen) hname' hfree
                (not_mem_of_free hnone) (not_mem_of_free hplain) (by omega)
            have hcall : ∀ result, addRecoveredNamed r.response name (trimAscii body) (r.recovered + 1) =
                .ok result →
                ∃ made : ProviderToolCall, made.callId = str "text-call-" ++ decimal (r.recovered + 1) ∧
                  Element NamesTool (tag ++ [chr '>'] ++ body ++ str "</tool>") made ∧
                  result = { r.response with toolCalls := r.response.toolCalls ++ [made] } := by
              intro result hresult
              obtain ⟨arguments, hparsed, hresult⟩ := addRecoveredNamed_ok hresult
              exact ⟨_, rfl, .named hnames hclosed rfl hparsed rfl, hresult⟩
            obtain ⟨segment, hbytes, hnext⟩ := h.take hcall
            have hargs : (source.drop (tagEnd + 1)).take length = body := by
              rw [hdrop]
              exact List.take_left' hbody
            rw [hafter, hargs, hname', List.take_left' hnameLength]
            exact hnext.advances (by rw [hbytes, hpiece]) (by rw [hbytes]; exact hne)
  · exact h.stop source

/-- **A round of the loop**: what is in front of the marker stays, and the marker's own round follows. -/
theorem round_scanned (h : Scanned response segments r) {source marker : Bytes} {start : Nat}
    {next : Recovery → Bytes → Recovery × Option Bytes} (hne : marker ≠ [])
    (hfound : findLiteral source marker = some start)
    (hnext : ∀ {segments : List Segment} {r : Recovery} {source : Bytes}, Scanned response segments r →
      marker <+: source → Advances response segments source (next r source)) :
    Advances response segments source
      (next { r with visible := r.visible ++ source.take start } (source.drop start)) := by
  obtain ⟨before, after, rfl, hstart, -⟩ := findLiteral_eq_some hne hfound
  rw [List.take_left' hstart, List.drop_left' hstart]
  obtain ⟨more, hmore, hscanned, hshort⟩ := hnext (h.plain before) (List.prefix_append marker after)
  refine ⟨.plain before :: more, ?_, ?_, ?_⟩
  · rw [List.flatMap_cons, List.append_assoc, hmore]
    rfl
  · rw [List.append_assoc] at hscanned
    exact hscanned
  · intro rest hrest
    have hlength := hshort rest hrest
    rw [List.length_append]
    omega

/-- A `<tool_call>` stands in front of every `<tool `. -/
def toolCallFirst (source : Bytes) : Bool :=
  match findLiteral source (str "<tool_call>"), findLiteral source (str "<tool ") with
  | some callStart, some start => decide (callStart < start)
  | some _, none => true
  | none, _ => false

/-- What a round of the loop does, whichever marker stands first. -/
def recoverRound (r : Recovery) (source : Bytes) : Recovery × Option Bytes :=
  let useToolCall := toolCallFirst source
  match findLiteral source (if useToolCall then str "<tool_call>" else str "<tool ") with
  | none => ({ r with visible := r.visible ++ source }, none)
  | some start =>
      let r := { r with visible := r.visible ++ source.take start }
      if useToolCall then recoverJson r (source.drop start) else recoverNamed r (source.drop start)

theorem recoverLoop_succ (rounds : Nat) (r : Recovery) {source : Bytes} (hne : source ≠ []) :
    recoverLoop (rounds + 1) r source =
      match recoverRound r source with
      | (r, none) => r
      | (r, some rest) => recoverLoop rounds r rest := by
  rw [recoverLoop, if_neg hne, recoverRound, apply_ite (findLiteral source)]
  show (match (if toolCallFirst source then findLiteral source (str "<tool_call>")
      else findLiteral source (str "<tool ")) with
    | none => { r with visible := r.visible ++ source }
    | some start =>
        match (if toolCallFirst source then
            recoverJson { r with visible := r.visible ++ source.take start } (source.drop start)
          else recoverNamed { r with visible := r.visible ++ source.take start } (source.drop start)) with
        | (r, none) => r
        | (r, some rest) => recoverLoop rounds r rest) = _
  generalize toolCallFirst source = useToolCall
  cases (if useToolCall = true then findLiteral source (str "<tool_call>")
    else findLiteral source (str "<tool ")) with
  | none => rfl
  | some start => rfl

theorem recoverRound_scanned (h : Scanned response segments r) (source : Bytes) :
    Advances response segments source (recoverRound r source) := by
  unfold recoverRound
  dsimp only
  generalize toolCallFirst source = useToolCall
  split
  · exact h.stop source
  · next start hstart =>
    cases useToolCall with
    | true =>
      change findLiteral source (str "<tool_call>") = some start at hstart
      exact round_scanned h (by decide) hstart fun h hopen => recoverJson_scanned h hopen
    | false =>
      change findLiteral source (str "<tool ") = some start at hstart
      exact round_scanned h (by decide) hstart fun h hopen => recoverNamed_scanned h hopen

/-- **The loop passes all of the text**, by induction on the rounds. -/
theorem recoverLoop_scanned : ∀ (rounds : Nat) {segments : List Segment} {r : Recovery} {source : Bytes},
    Scanned response segments r → source.length < rounds →
      ∃ more, more.flatMap Segment.bytes = source ∧
        Scanned response (segments ++ more) (recoverLoop rounds r source) := by
  intro rounds
  induction rounds with
  | zero => intro segments r source _ hrounds; exact absurd hrounds (Nat.not_lt_zero _)
  | succ rounds ih =>
    intro segments r source h hrounds
    by_cases hne : source = []
    · refine ⟨[], hne.symm, ?_⟩
      rw [recoverLoop, if_pos hne, List.append_nil]
      exact h
    · rw [recoverLoop_succ rounds r hne]
      obtain ⟨more, hmore, hscanned, hshort⟩ := recoverRound_scanned h source
      split
      · next r' hround =>
        rw [hround] at hmore hscanned
        exact ⟨more, by rw [← hmore]; exact (List.append_nil _).symm, hscanned⟩
      · next r' rest hround =>
        rw [hround] at hmore hscanned hshort
        have hlength := hshort rest rfl
        obtain ⟨others, hothers, hlast⟩ := ih hscanned (show rest.length < rounds by omega)
        refine ⟨more ++ others, ?_, ?_⟩
        · rw [List.flatMap_append, hothers]
          exact hmore
        · rw [← List.append_assoc]
          exact hlast

/-- **The loop ends by itself**: more rounds than the text is long change nothing. -/
theorem recoverLoop_rounds : ∀ (n m : Nat) {segments : List Segment} {r : Recovery} {source : Bytes},
    Scanned response segments r → source.length < n → source.length < m →
      recoverLoop n r source = recoverLoop m r source := by
  intro n
  induction n with
  | zero => intro m segments r source _ hn; exact absurd hn (Nat.not_lt_zero _)
  | succ n ih =>
    intro m segments r source h hn hm
    obtain ⟨m, rfl⟩ : ∃ k, m = k + 1 := ⟨m - 1, by omega⟩
    by_cases hne : source = []
    · rw [recoverLoop, recoverLoop, if_pos hne, if_pos hne]
    · rw [recoverLoop_succ n r hne, recoverLoop_succ m r hne]
      obtain ⟨more, -, hscanned, hshort⟩ := recoverRound_scanned h source
      split
      · rfl
      · next r' rest hround =>
        rw [hround] at hscanned hshort
        have hlength := hshort rest rfl
        exact ih m hscanned (by omega) (by omega)

/-! ## Conservation -/

/-- Where nothing was recovered, everything stays. -/
theorem visible_of_no_calls {segments : List Segment} (h : recoveredCalls segments = []) :
    segments.flatMap Segment.visible = segments.flatMap Segment.bytes := by
  induction segments with
  | nil => rfl
  | cons segment segments ih =>
    cases segment with
    | plain piece =>
      rw [List.flatMap_cons, List.flatMap_cons, ih h]
      rfl
    | call piece made => exact nomatch h

/-- **Recovery conserves the response.**  More rounds than the text is long change nothing, and the text is
    cut into segments of which those that are not elements are the new text, in order, and the others the
    new calls, one for each, numbered from 1. -/
theorem text_calls_conserved (response : ProviderResponse) :
    (∀ more, recoverLoop (response.text.length + 1 + more) { response := response } response.text =
      recoverLoop (response.text.length + 1) { response := response } response.text) ∧
      Conserved NamesTool response (recoverTextToolCalls response) := by
  refine ⟨fun more => recoverLoop_rounds _ _ (scanned_nil response) (by omega) (by omega), ?_⟩
  obtain ⟨segments, hsegments, h⟩ :=
    recoverLoop_scanned (response.text.length + 1) (scanned_nil response) (Nat.lt_succ_self _)
  rw [List.nil_append] at h
  refine ⟨segments, hsegments, ?_, h.numbered, h.elements⟩
  unfold recoverTextToolCalls
  dsimp only
  split
  · next hnone =>
    have hcalls : recoveredCalls segments = [] := List.length_eq_zero_iff.mp (h.count.symm.trans hnone)
    rw [h.response, visible_of_no_calls hcalls, hsegments]
  · rw [h.response, h.visible]

/-- A segment stands in the text. -/
theorem bytes_infix {segments : List Segment} {segment : Segment} (h : segment ∈ segments) :
    segment.bytes <:+: segments.flatMap Segment.bytes := by
  obtain ⟨before, after, rfl⟩ := List.append_of_mem h
  rw [List.flatMap_append, List.flatMap_cons, ← List.append_assoc]
  exact List.infix_append _ _ _

/-- A text with an element whose name is its second attribute. -/
def laterName : ProviderResponse := { text := str "<tool id=\"1\" name=\"x\">\x7b\x7d</tool>" }

/-- **The name may stand behind other attributes**: a call is recovered from a text in which neither
    `<tool name="` nor `<tool_call>` stands. -/
theorem later_name_taken :
    ¬ ∀ response, Conserved NamesToolFirst response (recoverTextToolCalls response) := by
  intro h
  obtain ⟨segments, hsegments, hresult, -, helements⟩ := h laterName
  have hone : (recoverTextToolCalls laterName).toolCalls.length = 1 := by decide +kernel
  rw [hresult, List.length_append] at hone
  obtain ⟨made, hmade⟩ : ∃ made, made ∈ recoveredCalls segments :=
    List.exists_mem_of_length_pos (by rw [show laterName.toolCalls.length = 0 from rfl] at hone; omega)
  obtain ⟨segment, hsegment, hrecovered⟩ := List.mem_filterMap.mp hmade
  cases segment with
  | plain piece => exact nomatch hrecovered
  | call piece other =>
    have hinfix := bytes_infix hsegment
    rw [hsegments] at hinfix
    cases helements piece other hsegment with
    | json =>
      have hopen : str "<tool_call>" <:+: laterName.text := by
        refine List.IsInfix.trans (List.IsPrefix.isInfix ?_) hinfix
        exact (List.prefix_append _ _).trans (List.prefix_append _ _)
      exact absurd hopen (by decide +kernel)
    | named hname =>
      obtain ⟨after, rfl, -⟩ := hname
      have hopen : str "<tool name=\"" <:+: laterName.text := by
        refine List.IsInfix.trans (List.IsPrefix.isInfix ?_) hinfix
        simp only [Segment.bytes, List.append_assoc]
        exact List.prefix_append _ _
      exact absurd hopen (by decide +kernel)

end SmolClaw.Runtime
