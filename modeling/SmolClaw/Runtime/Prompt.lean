/-
  The prompt builder (`sc_prompt_builder_*`) and the places that cut a text at a byte limit
  (`src/runtime/agent.c`, `src/tools/tool_common.c`).

  1. **Program** — a prompt is a text of sections, a heading and a body each.  A body that does not fit is
     cut; the heading is written as it is once any room is left.

  2. **Bound** — `builder_bounded_iff`: the text stays within its bound exactly if no section is appended
     where less room is left than its heading takes.

  3. **Characters** — a cut counts bytes.  `truncated_valid_iff`: what is left of a valid text is valid
     exactly if the cut falls between two characters, in a section, a summary, a tool's output and the
     feedback of a tool call alike.
-/
import SmolClaw.Core.Utf8
import SmolClaw.Lib.Run
import SmolClaw.Runtime.History
import SmolClaw.Runtime.ToolCalls
import SmolClaw.Tools.Common

namespace SmolClaw.Runtime

open Lib.Run Tools

/-! ## The builder -/

/-- `sc_prompt_builder`: the bound, 0 for none, and the text so far. -/
structure PromptBuilder where
  maxBytes : Nat
  text : Bytes := []
  deriving DecidableEq

/-- A section: its title and its body. -/
structure PromptSection where
  title : Bytes
  body : Bytes
  deriving DecidableEq

/-- What is written of a section. -/
def sectionText (title body : Bytes) : Bytes := str "## " ++ title ++ str "\n" ++ body ++ str "\n\n"

/-- How much of a body is written when `room` bytes are left. -/
def bodyLength (room : Nat) (s : PromptSection) : Nat :=
  if room < s.body.length + s.title.length + 8 then
    if s.title.length + 8 < room then room - s.title.length - 8 else 0
  else s.body.length

/-- `sc_prompt_builder_append_section` -/
def PromptBuilder.appendSection (builder : PromptBuilder) (s : PromptSection) : Res PromptBuilder :=
  if s.title = [] then Status.invalidArgument "sc.prompt_builder.invalid_argument"
  else if builder.maxBytes = 0 then .ok { builder with text := builder.text ++ sectionText s.title s.body }
  else if builder.maxBytes ≤ builder.text.length then .ok builder
  else
    let room := builder.maxBytes - builder.text.length
    .ok { builder with text := builder.text ++ sectionText s.title (s.body.take (bodyLength room s)) }

/-- `sc_prompt_builder_finish` -/
def PromptBuilder.finish (builder : PromptBuilder) : Bytes := builder.text

/-- The builder after a call, whatever its status: a refused section is not written. -/
def PromptBuilder.next (builder : PromptBuilder) (s : PromptSection) : PromptBuilder :=
  match builder.appendSection s with
  | .ok builder => builder
  | .error _ => builder

/-- The builder `sc_prompt_builder_init` leaves. -/
abbrev PromptBuilder.init (maxBytes : Nat) : PromptBuilder := { maxBytes }

/-- A call writes the section, with room left. -/
def PromptBuilder.Writes (builder : PromptBuilder) (s : PromptSection) : Prop :=
  s.title ≠ [] ∧ (builder.maxBytes = 0 ∨ builder.text.length < builder.maxBytes)

/-- How much of the body a call writes. -/
def PromptBuilder.writtenBody (builder : PromptBuilder) (s : PromptSection) : Nat :=
  if builder.maxBytes = 0 then s.body.length else bodyLength (builder.maxBytes - builder.text.length) s

instance (builder : PromptBuilder) (s : PromptSection) : Decidable (builder.Writes s) :=
  inferInstanceAs (Decidable (_ ∧ (_ ∨ _)))

@[simp] theorem sectionText_length (title body : Bytes) :
    (sectionText title body).length = title.length + body.length + 6 := by
  show (str "## " ++ title ++ [10] ++ body ++ [10, 10]).length = _
  have hmark : (str "## ").length = 3 := rfl
  simp only [List.length_append, List.length_cons, List.length_nil, hmark]
  omega

/-- **What a call does**: it writes the section, cut to its room, or nothing. -/
theorem PromptBuilder.next_eq (builder : PromptBuilder) (s : PromptSection) :
    builder.next s =
      if builder.Writes s then
        { builder with
          text := builder.text ++ sectionText s.title (s.body.take (builder.writtenBody s)) }
      else builder := by
  unfold next appendSection
  by_cases htitle : s.title = []
  · have hnot : ¬ builder.Writes s := fun h => h.1 htitle
    rw [if_pos htitle, if_neg hnot]
    rfl
  rw [if_neg htitle, writtenBody]
  by_cases hzero : builder.maxBytes = 0
  · have hwrites : builder.Writes s := ⟨htitle, .inl hzero⟩
    rw [if_pos hzero, if_pos hzero, if_pos hwrites, List.take_length]
  rw [if_neg hzero, if_neg hzero]
  by_cases hfull : builder.maxBytes ≤ builder.text.length
  · have hnot : ¬ builder.Writes s := by
      rintro ⟨-, h | h⟩
      · exact hzero h
      · omega
    rw [if_pos hfull, if_neg hnot]
  · have hwrites : builder.Writes s := ⟨htitle, .inr (by omega)⟩
    rw [if_neg hfull, if_pos hwrites]

@[simp] theorem PromptBuilder.next_maxBytes (builder : PromptBuilder) (s : PromptSection) :
    (builder.next s).maxBytes = builder.maxBytes := by
  rw [next_eq]
  split
  · rfl
  · rfl

/-- A text only grows. -/
theorem PromptBuilder.text_prefix_next (builder : PromptBuilder) (s : PromptSection) :
    builder.text <+: (builder.next s).text := by
  rw [next_eq]
  split
  · exact List.prefix_append _ _
  · exact List.prefix_rfl

theorem PromptBuilder.text_prefix_run (sections : List PromptSection) :
    ∀ builder : PromptBuilder, builder.text <+: (run next builder sections).text := by
  induction sections with
  | nil => intro builder; exact List.prefix_rfl
  | cons s sections ih => intro builder; exact (builder.text_prefix_next s).trans (ih _)

/-! ## The bound -/

/-- The text is within the bound. -/
def PromptBuilder.Within (builder : PromptBuilder) : Prop := builder.text.length ≤ builder.maxBytes

/-- **The heading of a section fits**: where the call writes it, there is room for the title and the six
    bytes around title and body. -/
def PromptBuilder.HeadingFits (builder : PromptBuilder) (s : PromptSection) : Prop :=
  builder.Writes s → builder.text.length + s.title.length + 6 ≤ builder.maxBytes

theorem bodyLength_le (room : Nat) (s : PromptSection) : bodyLength room s ≤ s.body.length := by
  unfold bodyLength
  split
  · split
    · omega
    · omega
  · omega

theorem PromptBuilder.next_within_iff {builder : PromptBuilder} (hmax : 0 < builder.maxBytes)
    (h : builder.Within) (s : PromptSection) : (builder.next s).Within ↔ builder.HeadingFits s := by
  unfold HeadingFits
  rw [Within, next_maxBytes, next_eq]
  by_cases hwrites : builder.Writes s
  · rw [if_pos hwrites]
    show (builder.text ++ sectionText s.title _).length ≤ builder.maxBytes ↔ _
    have hbody : builder.writtenBody s = bodyLength (builder.maxBytes - builder.text.length) s :=
      if_neg hmax.ne'
    have hle := bodyLength_le (builder.maxBytes - builder.text.length) s
    rw [List.length_append, sectionText_length, List.length_take, hbody, Nat.min_eq_left hle]
    rw [Within] at h
    constructor
    · intro hlen _
      omega
    · intro hfits
      have hroom := hfits hwrites
      -- the body takes what the heading leaves, if it is written at all
      unfold bodyLength
      split
      · split
        · omega
        · omega
      · omega
  · rw [if_neg hwrites]
    exact iff_of_true h fun hw => absurd hw hwrites

/-- **When a prompt honours its bound**: for every bound and all sections, the finished text is within
    it exactly if the heading of each section that is written fits. -/
theorem builder_bounded_iff (maxBytes : Nat) (sections : List PromptSection) (hmax : 0 < maxBytes) :
    (run PromptBuilder.next (.init maxBytes) sections).finish.length ≤ maxBytes ↔
      EachStep PromptBuilder.next PromptBuilder.HeadingFits (.init maxBytes) sections := by
  have hkeep : ∀ (b : PromptBuilder) s, b.maxBytes = maxBytes → (b.next s).maxBytes = maxBytes :=
    fun b s hb => (b.next_maxBytes s).trans hb
  have hrun : ∀ before, (run PromptBuilder.next (.init maxBytes) before).maxBytes = maxBytes :=
    fun before => run_preserves hkeep before (.init maxBytes) rfl
  rw [← safe_iff_eachStep (P := PromptBuilder.Within) hkeep
    (fun b s hb hw => b.next_within_iff (hb ▸ hmax) hw s) sections (.init maxBytes) rfl (Nat.zero_le _)]
  constructor
  · rintro hlen before ⟨rest, rfl⟩
    have hle := (PromptBuilder.text_prefix_run rest (run PromptBuilder.next (.init maxBytes) before)).length_le
    rw [PromptBuilder.Within, hrun before]
    rw [run, List.foldl_append] at hlen
    exact hle.trans hlen
  · intro hall
    have hlast := hall sections List.prefix_rfl
    rwa [PromptBuilder.Within, hrun sections] at hlast

theorem builder_bounded_iff_sample :
    0 < 20 ∧ ((run PromptBuilder.next (.init 20) [⟨str "T", str "body"⟩]).finish.length ≤ 20 ↔
      EachStep PromptBuilder.next PromptBuilder.HeadingFits (.init 20) [⟨str "T", str "body"⟩]) :=
  ⟨by decide, builder_bounded_iff 20 [⟨str "T", str "body"⟩] (by decide)⟩

/-- Ten bytes do not hold the heading of the first section, which is written all the same. -/
theorem not_bounded_narrow :
    ¬ ∀ (maxBytes : Nat) (sections : List PromptSection), 0 < maxBytes →
      (run PromptBuilder.next (.init maxBytes) sections).finish.length ≤ maxBytes := by
  intro h
  exact absurd (h 10 [⟨str "Identity", str "agent"⟩] (by decide)) (by decide)

/-! ## Characters -/

/-- A section of valid texts. -/
def PromptSection.Valid (s : PromptSection) : Prop :=
  strIsValidUtf8 s.title = true ∧ strIsValidUtf8 s.body = true

/-- A message of valid texts. -/
def HistoryMessage.Valid (m : HistoryMessage) : Prop :=
  strIsValidUtf8 m.role = true ∧ strIsValidUtf8 m.content = true

/-- **A section is cut between two characters**, where it is written at all. -/
def PromptBuilder.KeepsCharacters (builder : PromptBuilder) (s : PromptSection) : Prop :=
  builder.Writes s → cutsInside s.body (builder.writtenBody s) = false

/-- **Each message a summary quotes is cut between two characters**; `used` bytes stand in front of the
    quotations, each takes five more bytes than role and content, and they end where no room is left. -/
def QuotesCharacters (maxSummaryChars : Nat) : Nat → List HistoryMessage → Prop
  | _, [] => True
  | used, m :: rest =>
      let quoted := quotedLength maxSummaryChars (maxSummaryChars - used) m
      0 < maxSummaryChars ∧ maxSummaryChars - used ≤ 8 ∨
        cutsInside m.content quoted = false ∧
          QuotesCharacters maxSummaryChars (used + (m.role.length + quoted + 5)) rest

/-- The messages a compression puts into the summary. -/
def compressedMessages (messages : List HistoryMessage) (recentMessages : Nat) : List HistoryMessage :=
  (pruneOrphans messages).take ((pruneOrphans messages).length - max recentMessages 1)

theorem sectionText_valid_iff {title : Bytes} (htitle : strIsValidUtf8 title = true) (body : Bytes) :
    strIsValidUtf8 (sectionText title body) = true ↔ strIsValidUtf8 body = true := by
  have hfront : strIsValidUtf8 (str "## " ++ title ++ str "\n") = true :=
    utf8_append_of (utf8_append_of (by decide) htitle) (by decide)
  show strIsValidUtf8 (str "## " ++ title ++ str "\n" ++ body ++ 10 :: [10]) = true ↔ _
  rw [utf8_before (by decide) _ (by decide), utf8_append hfront]

/-- A step keeps a text valid exactly if it cuts no character. -/
theorem PromptBuilder.next_valid_iff {builder : PromptBuilder} {s : PromptSection} (hs : s.Valid)
    (h : strIsValidUtf8 builder.text = true) :
    strIsValidUtf8 (builder.next s).text = true ↔ builder.KeepsCharacters s := by
  unfold KeepsCharacters
  rw [next_eq]
  by_cases hwrites : builder.Writes s
  · rw [if_pos hwrites]
    show strIsValidUtf8 (builder.text ++ sectionText s.title _) = true ↔ _
    rw [utf8_append h, sectionText_valid_iff hs.1, utf8_take_iff hs.2]
    exact ⟨fun hcut _ => hcut, fun hcut => hcut hwrites⟩
  · rw [if_neg hwrites]
    exact iff_of_true h fun hw => absurd hw hwrites

/-- Nothing that is written later mends a text. -/
theorem PromptBuilder.valid_of_run (sections : List PromptSection) :
    ∀ builder : PromptBuilder, strIsValidUtf8 (run next builder sections).text = true →
      strIsValidUtf8 builder.text = true := by
  induction sections with
  | nil => intro builder h; exact h
  | cons s sections ih =>
    intro builder h
    have hnext : strIsValidUtf8 (builder.next s).text = true := ih (builder.next s) h
    rw [next_eq] at hnext
    split at hnext
    · -- a section begins with an ASCII byte
      exact (utf8_cut (a := chr '#') (by decide) hnext).1
    · exact hnext

theorem PromptBuilder.run_valid_iff (sections : List PromptSection) :
    ∀ builder : PromptBuilder, strIsValidUtf8 builder.text = true → (∀ s ∈ sections, s.Valid) →
      (strIsValidUtf8 (run next builder sections).text = true ↔
        EachStep next KeepsCharacters builder sections) := by
  induction sections with
  | nil => intro builder h _; exact iff_of_true h trivial
  | cons s sections ih =>
    intro builder h hvalid
    have hstep := next_valid_iff (hvalid s List.mem_cons_self) h
    have hrest := fun hnext => ih (builder.next s) hnext fun r hr => hvalid r (List.mem_cons_of_mem s hr)
    constructor
    · intro hrun
      have hnext := valid_of_run sections (builder.next s) hrun
      exact ⟨hstep.mp hnext, (hrest hnext).mp hrun⟩
    · rintro ⟨hkeeps, htail⟩
      exact (hrest (hstep.mpr hkeeps)).mpr htail

theorem quotedLength_le (maxSummaryChars room : Nat) (m : HistoryMessage) :
    quotedLength maxSummaryChars room m ≤ m.content.length := by
  simp only [quotedLength]
  split
  · next h => omega
  · omega

theorem summaryLine_length (maxSummaryChars room : Nat) (m : HistoryMessage) :
    (summaryLine maxSummaryChars room m).length =
      m.role.length + quotedLength maxSummaryChars room m + 5 := by
  have hle := quotedLength_le maxSummaryChars room m
  show (str "- " ++ m.role ++ str ": " ++ m.content.take _ ++ [10]).length = _
  have hdash : (str "- ").length = 2 := rfl
  have hcolon : (str ": ").length = 2 := rfl
  simp only [List.length_append, List.length_take, List.length_cons, List.length_nil, hdash, hcolon]
  omega

/-- A line of a summary in front of others. -/
theorem summaryLine_valid_iff {m : HistoryMessage} (hm : m.Valid) (maxSummaryChars room : Nat)
    (rest : Bytes) :
    strIsValidUtf8 (summaryLine maxSummaryChars room m ++ rest) = true ↔
      cutsInside m.content (quotedLength maxSummaryChars room m) = false ∧ strIsValidUtf8 rest = true := by
  have hfront : strIsValidUtf8 (str "- " ++ m.role ++ str ": ") = true :=
    utf8_append_of (utf8_append_of (by decide) hm.1) (by decide)
  have hline : summaryLine maxSummaryChars room m ++ rest = str "- " ++ m.role ++ str ": " ++
      (m.content.take (quotedLength maxSummaryChars room m) ++ 10 :: rest) := by
    show str "- " ++ m.role ++ str ": " ++ m.content.take _ ++ [10] ++ rest = _
    simp only [List.append_assoc, List.singleton_append]
  rw [hline, utf8_append hfront, ← utf8_take_iff hm.2]
  constructor
  · intro h
    exact utf8_cut (by decide) h
  · rintro ⟨hquoted, hrest⟩
    exact (utf8_before (by decide) _ hrest).mpr hquoted

theorem summaryLines_valid_iff (maxSummaryChars : Nat) (messages : List HistoryMessage) :
    ∀ used, (∀ m ∈ messages, m.Valid) →
      (strIsValidUtf8 (summaryLines maxSummaryChars used messages) = true ↔
        QuotesCharacters maxSummaryChars used messages) := by
  induction messages with
  | nil => intro used _; exact iff_of_true rfl trivial
  | cons m rest ih =>
    intro used hvalid
    rw [summaryLines, QuotesCharacters]
    simp only
    split
    · next hfull => exact iff_of_true rfl (.inl hfull)
    · next hroom =>
      rw [summaryLine_valid_iff (hvalid m List.mem_cons_self), summaryLine_length,
        ih _ fun r hr => hvalid r (List.mem_cons_of_mem m hr), or_iff_right hroom]

/-- The messages a compression leaves are valid exactly if its summary cuts no character. -/
theorem compressToRecent_valid_iff {messages : List HistoryMessage} (hvalid : ∀ m ∈ messages, m.Valid)
    (recentMessages maxSummaryChars : Nat) :
    (∀ m ∈ compressToRecent messages recentMessages maxSummaryChars, m.Valid) ↔
      QuotesCharacters maxSummaryChars summaryHeader.length (compressedMessages messages recentMessages) := by
  have hpruned : ∀ m ∈ pruneOrphans messages, m.Valid := fun m hm =>
    hvalid m ((pruneOrphansFrom_sublist false messages).subset hm)
  unfold compressToRecent compressedMessages
  simp only
  by_cases hfew : (pruneOrphans messages).length ≤ max recentMessages 1
  · rw [if_pos hfew, Nat.sub_eq_zero_of_le hfew, List.take_zero]
    exact iff_of_true hpruned trivial
  rw [if_neg hfew]
  generalize hcount : (pruneOrphans messages).length - max recentMessages 1 = count
  have hquoted : ∀ m ∈ (pruneOrphans messages).take count, m.Valid := fun m hm =>
    hpruned m (List.mem_of_mem_take hm)
  rw [← summaryLines_valid_iff _ _ _ hquoted]
  -- the summary is no tool result, so it stays
  have hkept : ∀ rest, pruneOrphans (summaryOf maxSummaryChars ((pruneOrphans messages).take count) :: rest) =
      summaryOf maxSummaryChars ((pruneOrphans messages).take count) ::
        pruneOrphansFrom (roleAllowsToolResult (str "system")) rest := fun rest => rfl
  have hheader : strIsValidUtf8 summaryHeader = true := utf8_ascii (bytes_forall (by decide))
  rw [hkept]
  constructor
  · intro h
    have hsummary := (h _ List.mem_cons_self).2
    rwa [summaryOf, utf8_append hheader] at hsummary
  · intro hlines m hm
    rcases List.mem_cons.mp hm with rfl | hrest
    · have hrole : strIsValidUtf8 (str "system") = true := by decide
      refine ⟨hrole, ?_⟩
      rw [summaryOf, utf8_append hheader]
      exact hlines
    · exact hpruned m (List.mem_of_mem_drop ((pruneOrphansFrom_sublist _ _).subset hrest))

/-- **When truncation keeps texts valid**: of valid sections, messages, outputs and other texts, each of
    the four places that cut leaves valid texts exactly if it cuts between two characters. -/
theorem truncated_valid_iff {sections : List PromptSection} {messages : List HistoryMessage} {text : Bytes}
    (hsections : ∀ s ∈ sections, s.Valid) (hmessages : ∀ m ∈ messages, m.Valid)
    (htext : strIsValidUtf8 text = true) (maxBytes recentMessages maxSummaryChars maxOutput : Nat)
    (context : Option Nat) :
    (strIsValidUtf8 (run PromptBuilder.next (.init maxBytes) sections).finish = true ↔
        EachStep PromptBuilder.next PromptBuilder.KeepsCharacters (.init maxBytes) sections) ∧
      ((∀ m ∈ compressToRecent messages recentMessages maxSummaryChars, m.Valid) ↔
        QuotesCharacters maxSummaryChars summaryHeader.length
          (compressedMessages messages recentMessages)) ∧
      (strIsValidUtf8 (bounded text maxOutput) = true ↔
        (0 < maxOutput → cutsInside text maxOutput = false)) ∧
      (strIsValidUtf8 (toolSetOutput context text) = true ↔
        cutsInside text (outputLimit context) = false) := by
  refine ⟨PromptBuilder.run_valid_iff sections (.init maxBytes) rfl hsections,
    compressToRecent_valid_iff hmessages _ _, ?_, ?_⟩
  · unfold bounded
    split
    · next hpos =>
      rw [utf8_take_iff htext]
      exact ⟨fun h _ => h, fun h => h hpos⟩
    · next hzero => exact iff_of_true htext fun hpos => absurd hpos hzero
  · have hcut : toolSetOutput context text = text.take (outputLimit context) := by
      unfold toolSetOutput
      split
      · rfl
      · next hle => exact (List.take_of_length_le (Nat.le_of_not_lt hle)).symm
    rw [hcut, utf8_take_iff htext]

/-- A section and a message with an accented letter, each cut in front of it. -/
theorem truncated_valid_iff_sample :
    (strIsValidUtf8 (run PromptBuilder.next (.init 9) [⟨str "T", [0xC3, 0xA9]⟩]).finish = true ↔
        EachStep PromptBuilder.next PromptBuilder.KeepsCharacters (.init 9)
          [⟨str "T", [0xC3, 0xA9]⟩]) ∧
      ((∀ m ∈ compressToRecent [⟨str "user", [0xC3, 0xA9]⟩] 1 128, m.Valid) ↔
        QuotesCharacters 128 summaryHeader.length (compressedMessages [⟨str "user", [0xC3, 0xA9]⟩] 1)) ∧
      (strIsValidUtf8 (bounded [0xC3, 0xA9] 2) = true ↔ (0 < 2 → cutsInside [0xC3, 0xA9] 2 = false)) ∧
      (strIsValidUtf8 (toolSetOutput (some 2) [0xC3, 0xA9]) = true ↔
        cutsInside [0xC3, 0xA9] (outputLimit (some 2)) = false) := by
  refine truncated_valid_iff ?_ ?_ (by decide) 9 1 128 2 (some 2)
  · intro s hs
    rw [List.mem_singleton.mp hs]
    exact ⟨by decide, by decide⟩
  · intro m hm
    rw [List.mem_singleton.mp hm]
    exact ⟨by decide, by decide⟩

/-- With ten bytes for a section and one byte for an output, an accented letter is cut in two, in the
    section, in the output and in the feedback. -/
theorem not_valid_accent :
    ¬ ((∀ (maxBytes : Nat) (sections : List PromptSection), (∀ s ∈ sections, s.Valid) →
          strIsValidUtf8 (run PromptBuilder.next (.init maxBytes) sections).finish = true) ∨
        (∀ (text : Bytes) (maxOutput : Nat), strIsValidUtf8 text = true →
          strIsValidUtf8 (bounded text maxOutput) = true) ∨
        ∀ (text : Bytes) (context : Option Nat), strIsValidUtf8 text = true →
          strIsValidUtf8 (toolSetOutput context text) = true) := by
  rintro (h | h | h)
  · have hcut := h 10 [⟨str "T", [0xC3, 0xA9]⟩] fun s hs => by
      rw [List.mem_singleton.mp hs]
      exact ⟨by decide, by decide⟩
    exact absurd hcut (by decide)
  · exact absurd (h [0xC3, 0xA9] 1 (by decide)) (by decide)
  · exact absurd (h [0xC3, 0xA9] (some 1) (by decide)) (by decide)

end SmolClaw.Runtime
