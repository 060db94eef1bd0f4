/-
  Polling the Telegram server (`telegram_listen` and `telegram_parse_first_update`,
  `src/channels/telegram.c`).

  1. **The server** keeps updates with increasing identifiers, and answers a request from an offset on with
     the first of them that are not below the offset.

  2. **One call** (`telegramListen_skip`, `telegramListen_shown`) skips updates that are not shown, and hands on the first that
     is shown; the offset moves behind what was skipped and what was handed on.

  3. **Specification** — `DeliversOnce`: what was handed on are the updates below the offset that are shown,
     in order and once each; every answer with an update in it moves the offset; and so enough calls hand
     on all.

  4. **Defect** — behind the loop the offset is moved if the last identifier seen is ABOVE it, so an update
     that is not recognized, stands alone in its answer and has the offset as its identifier is fetched
     again and again.

  5. **Result** — `deliversOnce_iff`: the specification is met exactly by the runs in which no answer is
     such an update.
-/
import SmolClaw.Channels.Telegram
import SmolClaw.Lib.Run

namespace SmolClaw.Channels

open Lib.Run

/-! ## What is shown -/

/-- The identifier of an update; 0 when it has none. -/
def updateId (json : Json) : Int := (jsonI64 json "update_id").getD 0

/-- What the channel makes of an update that it recognizes and shows. -/
def shown (telegram : TelegramChannel) (json : Json) : Option TelegramUpdate :=
  (telegramExtractUpdate json).filter (telegramUpdateVisible telegram)

theorem extract_updateId {json : Json} {update : TelegramUpdate}
    (h : telegramExtractUpdate json = some update) :
    jsonI64 json "update_id" = some update.updateId := by
  unfold telegramExtractUpdate at h
  simp only [Option.bind_eq_bind, Option.bind_eq_some_iff] at h
  obtain ⟨id, hid, ⟨message, post⟩, -, chat, -, text, -, messageId, -, chatId, -, h⟩ := h
  split at h
  · cases h
  · rw [hid, ← Option.some.inj h]

theorem shown_updateId {telegram : TelegramChannel} {json : Json} {update : TelegramUpdate}
    (h : shown telegram json = some update) : update.updateId = updateId json := by
  rw [updateId, extract_updateId (Option.filter_eq_some_iff.mp h).1]
  rfl

/-- Only the settings count. -/
theorem shown_congr {telegram telegram' : TelegramChannel} (hname : telegram.botUsername = telegram'.botUsername)
    (hmention : telegram.mentionOnly = telegram'.mentionOnly) : shown telegram = shown telegram' := by
  funext json
  have hvisible : telegramUpdateVisible telegram = telegramUpdateVisible telegram' := by
    funext update
    simp only [telegramUpdateVisible, telegramTextMentionsBot, hname, hmention]
  rw [shown, shown, hvisible]

/-! ## Skipping -/

/-- Both offsets behind updates that are skipped. -/
def skipOffsets : List Json → Int → Int → Int × Int
  | [], latestSeen, nextOffset => (latestSeen, nextOffset)
  | json :: rest, latestSeen, nextOffset =>
      match jsonI64 json "update_id" with
      | none => skipOffsets rest latestSeen nextOffset
      | some seen =>
          match telegramExtractUpdate json with
          | none => skipOffsets rest seen nextOffset
          | some update => skipOffsets rest seen (update.updateId + 1)

section Answers

variable {telegram : TelegramChannel} {poll : TelegramPoll}

theorem parseUpdates_skip (poll : TelegramPoll) (rest : List Json) :
    ∀ (skipped : List Json) (latestSeen nextOffset : Int), (∀ json ∈ skipped, shown telegram json = none) →
      parseUpdates telegram poll (skipped ++ rest) latestSeen nextOffset =
        parseUpdates telegram poll rest (skipOffsets skipped latestSeen nextOffset).1
          (skipOffsets skipped latestSeen nextOffset).2 := by
  intro skipped
  induction skipped with
  | nil => intro latestSeen nextOffset _; rfl
  | cons json skipped ih =>
    intro latestSeen nextOffset hskip
    have hrest : ∀ json ∈ skipped, shown telegram json = none :=
      fun json hjson => hskip json (List.mem_cons_of_mem _ hjson)
    rw [List.cons_append, parseUpdates, skipOffsets]
    cases jsonI64 json "update_id" with
    | none => exact ih latestSeen nextOffset hrest
    | some seen =>
      cases hextract : telegramExtractUpdate json with
      | none => exact ih seen nextOffset hrest
      | some update =>
        have hhidden : telegramUpdateVisible telegram update = false := by
          have hnone := hskip json List.mem_cons_self
          rw [shown, hextract, Option.filter_some] at hnone
          by_contra hvisible
          rw [Bool.not_eq_false] at hvisible
          rw [if_pos hvisible] at hnone
          cases hnone
        simp only [hhidden, Bool.not_false, if_true]
        exact ih seen (update.updateId + 1) hrest

/-- Updates are skipped up to the first that is shown. -/
theorem skipped_or_shown (telegram : TelegramChannel) (batch : List Json) :
    (∀ json ∈ batch, shown telegram json = none) ∨
      ∃ skipped json rest update, batch = skipped ++ json :: rest ∧
        (∀ json ∈ skipped, shown telegram json = none) ∧ shown telegram json = some update := by
  induction batch with
  | nil => exact Or.inl fun json hjson => absurd hjson List.not_mem_nil
  | cons json batch ih =>
    cases hshown : shown telegram json with
    | some update =>
      exact Or.inr ⟨[], json, batch, update, rfl, fun json hjson => absurd hjson List.not_mem_nil, hshown⟩
    | none =>
      rcases ih with hall | ⟨skipped, json', rest, update, rfl, hskip, hshown'⟩
      · exact Or.inl (List.forall_mem_cons.mpr ⟨hshown, hall⟩)
      · exact Or.inr ⟨json :: skipped, json', rest, update, rfl,
          List.forall_mem_cons.mpr ⟨hshown, hskip⟩, hshown'⟩

/-- What the loop does at the first update that is shown. -/
theorem parseUpdates_shown {json : Json} {update : TelegramUpdate} (h : shown telegram json = some update)
    (rest : List Json) (latestSeen nextOffset : Int) :
    parseUpdates telegram poll (json :: rest) latestSeen nextOffset =
      handOn telegram poll update nextOffset := by
  obtain ⟨hextract, hvisible⟩ := Option.filter_eq_some_iff.mp h
  rw [parseUpdates, extract_updateId hextract]
  simp only [hextract, hvisible, Bool.not_true, Bool.false_eq_true, if_false]

/-! ## The server -/

/-- The updates of a server, with increasing identifiers. -/
structure TelegramServer where
  updates : List Json
  numbered : ∀ json ∈ updates, jsonI64 json "update_id" = some (updateId json) ∧ 0 < updateId json
  increasing : updates.Pairwise fun a b => updateId a < updateId b

/-- The updates from an offset on. -/
def TelegramServer.pending (server : TelegramServer) (offset : Int) : List Json :=
  server.updates.filter fun json => offset ≤ updateId json

/-- The answer with a list of updates. -/
def updatesAnswer (batch : List Json) : Json :=
  .object [(str "ok", .bool true), (str "result", .array batch)]

/-- The server answers with so many updates, if it has as many. -/
def TelegramServer.serve (server : TelegramServer) (count : Nat) (offset : Int) : Res (Option Json) :=
  .ok (some (updatesAnswer ((server.pending offset).take count)))

theorem TelegramServer.pending_increasing (server : TelegramServer) (offset : Int) :
    (server.pending offset).Pairwise fun a b => updateId a < updateId b :=
  server.increasing.filter _

theorem TelegramServer.mem_pending {server : TelegramServer} {offset : Int} {json : Json} :
    json ∈ server.pending offset ↔ json ∈ server.updates ∧ offset ≤ updateId json := by
  rw [TelegramServer.pending, List.mem_filter, decide_eq_true_eq]

theorem TelegramServer.eq_of_updateId (server : TelegramServer) {json other : Json}
    (hjson : json ∈ server.updates) (hother : other ∈ server.updates)
    (h : updateId json = updateId other) : json = other := by
  have hforth : server.updates.Pairwise fun a b => updateId a = updateId b → a = b :=
    server.increasing.imp fun hlt heq => absurd heq (by omega)
  have hback : server.updates.Pairwise (flip fun a b => updateId a = updateId b → a = b) :=
    server.increasing.imp fun hlt heq => absurd heq (by omega)
  exact List.Pairwise.forall_of_forall_of_flip (fun _ _ _ => rfl) hforth hback hjson hother h

/-- What comes before an update of an answer has a smaller identifier, and what has a smaller identifier
    comes before it. -/
theorem TelegramServer.before_of_lt {server : TelegramServer} {offset : Int} {count : Nat}
    {skipped rest : List Json} {json other : Json}
    (hbatch : (server.pending offset).take count = skipped ++ json :: rest)
    (hother : other ∈ server.pending offset) (hlt : updateId other < updateId json) :
    other ∈ skipped := by
  have hsplit : server.pending offset = skipped ++ json :: (rest ++ (server.pending offset).drop count) := by
    rw [← List.cons_append, ← List.append_assoc, ← hbatch, List.take_append_drop]
  have hsorted := server.pending_increasing offset
  rw [hsplit] at hother hsorted
  obtain ⟨-, hbehind, -⟩ := List.pairwise_append.mp hsorted
  rcases List.mem_append.mp hother with hmem | hmem
  · exact hmem
  · rcases List.mem_cons.mp hmem with rfl | hmem
    · omega
    · have hless := (List.pairwise_cons.mp hbehind).1 other hmem
      omega

theorem parseFirst_answer (batch : List Json) (nextOffset : Int) :
    telegramParseFirstUpdate telegram poll (some (updatesAnswer batch)) nextOffset =
      parseUpdates telegram poll batch nextOffset nextOffset := by
  have hok : (updatesAnswer batch).objectGet (str "ok") = some (.bool true) := by
    have hne : (str "result" == str "ok") = false := by decide
    simp only [updatesAnswer, Json.objectGet, List.reverse_cons, List.reverse_nil, List.nil_append,
      List.cons_append, List.find?_cons, hne, beq_self_eq_true, Option.map_some]
  have hresult : getArray (updatesAnswer batch) "result" = some batch := by
    simp only [getArray, updatesAnswer, Json.objectGet, List.reverse_cons, List.reverse_nil,
      List.nil_append, List.cons_append, List.find?_cons, beq_self_eq_true, Option.map_some]
  simp only [telegramParseFirstUpdate, hok, hresult]

/-! ## Offsets behind skipped updates -/

theorem skipOffsets_append (skipped more : List Json) :
    ∀ latestSeen nextOffset, skipOffsets (skipped ++ more) latestSeen nextOffset =
      skipOffsets more (skipOffsets skipped latestSeen nextOffset).1
        (skipOffsets skipped latestSeen nextOffset).2 := by
  induction skipped with
  | nil => intro latestSeen nextOffset; rfl
  | cons json skipped ih =>
    intro latestSeen nextOffset
    rw [List.cons_append, skipOffsets, skipOffsets]
    cases jsonI64 json "update_id" with
    | none => exact ih latestSeen nextOffset
    | some seen =>
      cases telegramExtractUpdate json with
      | none => exact ih seen nextOffset
      | some update => exact ih seen (update.updateId + 1)

/-- **Where the two offsets are** behind updates that are numbered upwards from an offset: the first at the
    last identifier; the second where it was, if nothing was recognized, and else behind an update. -/
structure SkipsTo (offset : Int) (skipped : List Json) (last : Int) (result : Int × Int) : Prop where
  latest : result.1 = last
  high : result.2 ≤ last + 1
  moved : (result.2 = offset ∧ ∀ json ∈ skipped, telegramExtractUpdate json = none) ∨
    ∃ json ∈ skipped, result.2 = updateId json + 1 ∧ telegramExtractUpdate json ≠ none

/-- One more update. -/
theorem skipOffsets_single {json : Json} (h : jsonI64 json "update_id" = some (updateId json))
    (latestSeen nextOffset : Int) :
    skipOffsets [json] latestSeen nextOffset =
      (updateId json, if telegramExtractUpdate json = none then nextOffset else updateId json + 1) := by
  rw [skipOffsets, h]
  cases hextract : telegramExtractUpdate json with
  | none => rfl
  | some update =>
    have hid := extract_updateId hextract
    rw [h] at hid
    show (updateId json, update.updateId + 1) = _
    rw [← Option.some.inj hid]
    rfl

theorem skipOffsets_skipsTo {offset : Int} (skipped : List Json) :
    ∀ json, (∀ json' ∈ skipped ++ [json], jsonI64 json' "update_id" = some (updateId json') ∧
        offset ≤ updateId json') →
      (skipped ++ [json]).Pairwise (fun a b => updateId a < updateId b) →
        SkipsTo offset (skipped ++ [json]) (updateId json)
          (skipOffsets (skipped ++ [json]) offset offset) := by
  induction skipped using List.reverseRecOn with
  | nil =>
    intro json hids _
    obtain ⟨hid, hlow⟩ := hids json List.mem_cons_self
    rw [List.nil_append, skipOffsets_single hid]
    by_cases hextract : telegramExtractUpdate json = none
    · rw [if_pos hextract]
      refine ⟨rfl, by show offset ≤ _; omega, Or.inl ⟨rfl, ?_⟩⟩
      exact List.forall_mem_singleton.mpr hextract
    · rw [if_neg hextract]
      exact ⟨rfl, le_refl _, Or.inr ⟨json, List.mem_cons_self, rfl, hextract⟩⟩
  | append_singleton skipped before ih =>
    intro json hids hsorted
    obtain ⟨hid, hlow⟩ := hids json (List.mem_append_right _ List.mem_cons_self)
    obtain ⟨hsorted', -, hless⟩ := List.pairwise_append.mp hsorted
    have hbefore : updateId before < updateId json :=
      hless before (List.mem_append_right _ List.mem_cons_self) json List.mem_cons_self
    have hrest := ih before (fun json' hjson' => hids json' (List.mem_append_left _ hjson')) hsorted'
    rw [skipOffsets_append, skipOffsets_single hid]
    by_cases hextract : telegramExtractUpdate json = none
    · rw [if_pos hextract]
      refine ⟨rfl, ?_, ?_⟩
      · have hhigh := hrest.high
        show (skipOffsets (skipped ++ [before]) offset offset).2 ≤ updateId json + 1
        omega
      · rcases hrest.moved with ⟨hsame, hall⟩ | ⟨json', hmem, hbehind, hfound⟩
        · exact Or.inl ⟨hsame, List.forall_mem_append.mpr ⟨hall, List.forall_mem_singleton.mpr hextract⟩⟩
        · exact Or.inr ⟨json', List.mem_append_left _ hmem, hbehind, hfound⟩
    · rw [if_neg hextract]
      exact ⟨rfl, le_refl _, Or.inr ⟨json, List.mem_append_right _ List.mem_cons_self, rfl, hextract⟩⟩

theorem SkipsTo.low {offset last : Int} {skipped : List Json} {result : Int × Int}
    (h : SkipsTo offset skipped last result) (hlow : ∀ json ∈ skipped, offset ≤ updateId json) :
    offset ≤ result.2 := by
  rcases h.moved with ⟨hsame, -⟩ | ⟨json, hmem, hbehind, -⟩
  · omega
  · have hjson := hlow json hmem
    omega

/-! ## One call -/

/-- The updates of an answer. -/
def TelegramServer.batch (server : TelegramServer) (count : Nat) (offset : Int) : List Json :=
  (server.pending offset).take count

theorem TelegramServer.batch_numbered {server : TelegramServer} {count : Nat} {offset : Int} {json : Json}
    (h : json ∈ server.batch count offset) :
    jsonI64 json "update_id" = some (updateId json) ∧ offset ≤ updateId json := by
  obtain ⟨hmem, hlow⟩ := TelegramServer.mem_pending.mp (List.mem_of_mem_take h)
  exact ⟨(server.numbered json hmem).1, hlow⟩

theorem TelegramServer.batch_increasing (server : TelegramServer) (count : Nat) (offset : Int) :
    (server.batch count offset).Pairwise fun a b => updateId a < updateId b :=
  (server.pending_increasing offset).sublist (List.take_sublist count _)

/-- The offset behind an answer in which nothing is shown. -/
def endOffset (batch : List Json) (offset : Int) : Int :=
  let (latestSeen, nextOffset) := skipOffsets batch offset offset
  if nextOffset < latestSeen then latestSeen + 1 else nextOffset

/-- **The same update again**: an answer of one update that is not recognized and has the offset as its
    identifier. -/
def Stuck (offset : Int) (batch : List Json) : Prop :=
  ∃ json, batch = [json] ∧ telegramExtractUpdate json = none ∧ updateId json = offset

/-- **The offset behind an answer** in which nothing is shown: not before the one that was asked for, not
    behind an update that is not in the answer, behind an update of the answer, and where it was if that is
    stuck. -/
structure EndsAt (server : TelegramServer) (offset : Int) (batch : List Json) (target : Int) : Prop where
  low : offset ≤ target
  answered : ∀ other ∈ server.pending offset, updateId other < target → other ∈ batch
  advances : batch ≠ [] → ¬Stuck offset batch → ∃ json ∈ batch, updateId json < target
  stays : Stuck offset batch → target = offset

theorem endOffset_endsAt (server : TelegramServer) (count : Nat) (offset : Int) :
    EndsAt server offset (server.batch count offset) (endOffset (server.batch count offset) offset) := by
  rcases List.eq_nil_or_concat (server.batch count offset) with hnil | ⟨skipped, json, hbatch⟩
  · have hend : endOffset [] offset = offset := if_neg (lt_irrefl offset)
    rw [hnil, hend]
    refine ⟨le_refl offset, fun other hother hlt => ?_, fun hne => absurd rfl hne, fun _ => rfl⟩
    have hlow := (TelegramServer.mem_pending.mp hother).2
    omega
  · rw [List.concat_eq_append] at hbatch
    have hnumbered : ∀ json' ∈ skipped ++ [json], jsonI64 json' "update_id" = some (updateId json') ∧
        offset ≤ updateId json' := by
      rw [← hbatch]
      exact fun json' hjson' => TelegramServer.batch_numbered hjson'
    have hsorted := server.batch_increasing count offset
    have hjson : json ∈ skipped ++ [json] := List.mem_append_right _ List.mem_cons_self
    have hpending : json ∈ server.pending offset := by
      refine List.mem_of_mem_take (i := count) ?_
      rw [← TelegramServer.batch, hbatch]
      exact hjson
    have hbefore : ∀ other ∈ server.pending offset, updateId other < updateId json → other ∈ skipped :=
      fun other hother hlt => TelegramServer.before_of_lt hbatch hother hlt
    rw [hbatch] at hsorted ⊢
    have hskip := skipOffsets_skipsTo skipped json hnumbered hsorted
    have hlow := hskip.low fun json' hjson' => (hnumbered json' hjson').2
    have hhigh := hskip.high
    have hfirst := (hnumbered json hjson).2
    have hend : endOffset (skipped ++ [json]) offset =
        if (skipOffsets (skipped ++ [json]) offset offset).2 < updateId json then updateId json + 1
        else (skipOffsets (skipped ++ [json]) offset offset).2 := by
      rw [endOffset, ← hskip.latest]
    have hcap : endOffset (skipped ++ [json]) offset ≤ updateId json + 1 := by
      rw [hend]
      split
      · omega
      · omega
    refine ⟨?_, fun other hother hlt => ?_, fun _ hstuck => ?_, ?_⟩
    · rw [hend]
      split
      · omega
      · exact hlow
    · by_cases hless : updateId other < updateId json
      · exact List.mem_append_left _ (hbefore other hother hless)
      · rw [server.eq_of_updateId (TelegramServer.mem_pending.mp hother).1
          (TelegramServer.mem_pending.mp hpending).1 (by omega)]
        exact hjson
    · rw [hend]
      split
      · exact ⟨json, hjson, by omega⟩
      · rcases hskip.moved with ⟨hsame, hall⟩ | ⟨json', hmem, hbehind, -⟩
        · -- nothing is recognized and the last identifier is the offset: there is no other update
          refine absurd ?_ hstuck
          cases skipped with
          | nil => exact ⟨json, rfl, hall json List.mem_cons_self, by omega⟩
          | cons first skipped =>
            have hleast := (hnumbered first List.mem_cons_self).2
            have hless := (List.pairwise_cons.mp hsorted).1 json
              (List.mem_append_right _ List.mem_cons_self)
            omega
        · exact ⟨json', hmem, by omega⟩
    · rintro ⟨json', hsingle, hextract, hid⟩
      have hall : ∀ json'' ∈ skipped ++ [json], telegramExtractUpdate json'' = none := by
        rw [hsingle]
        exact List.forall_mem_singleton.mpr hextract
      have hlast : json = json' := by
        rw [hsingle] at hjson
        exact List.mem_singleton.mp hjson
      rcases hskip.moved with ⟨hsame, -⟩ | ⟨json'', hmem, -, hfound⟩
      · rw [hend, hsame, hlast, hid, if_neg (lt_irrefl offset)]
      · exact absurd (hall json'' hmem) hfound

section OneCall

variable {server : TelegramServer} {count : Nat}

/-- An answer in which nothing is shown. -/
theorem telegramListen_skip (poll : TelegramPoll)
    (hserve : poll.getUpdates telegram.nextUpdateOffset = server.serve count telegram.nextUpdateOffset)
    (hskip : ∀ json ∈ server.batch count telegram.nextUpdateOffset, shown telegram json = none) :
    telegramListen telegram poll =
      ({ telegram with
          nextUpdateOffset :=
            endOffset (server.batch count telegram.nextUpdateOffset) telegram.nextUpdateOffset },
        Status.timeout "sc.channel_telegram.no_updates") := by
  have hparse := parseUpdates_skip poll [] _ telegram.nextUpdateOffset telegram.nextUpdateOffset
    hskip
  rw [List.append_nil] at hparse
  rw [telegramListen, hserve, TelegramServer.serve]
  simp only
  rw [parseFirst_answer, ← TelegramServer.batch, hparse]
  rfl

/-- An answer with an update that is shown: the offset it starts from is not above that update. -/
theorem telegramListen_shown (poll : TelegramPoll) {skipped rest : List Json} {json : Json}
    {update : TelegramUpdate}
    (hserve : poll.getUpdates telegram.nextUpdateOffset = server.serve count telegram.nextUpdateOffset)
    (hbatch : server.batch count telegram.nextUpdateOffset = skipped ++ json :: rest)
    (hskip : ∀ json ∈ skipped, shown telegram json = none) (hshown : shown telegram json = some update) :
    ∃ start, telegram.nextUpdateOffset ≤ start ∧ start ≤ updateId json ∧
      telegramListen telegram poll = finishListen (handOn telegram poll update start) := by
  refine ⟨(skipOffsets skipped telegram.nextUpdateOffset telegram.nextUpdateOffset).2, ?_⟩
  have hnumbered : ∀ json' ∈ skipped, jsonI64 json' "update_id" = some (updateId json') ∧
      telegram.nextUpdateOffset ≤ updateId json' := by
    intro json' hjson'
    have hmem : json' ∈ server.batch count telegram.nextUpdateOffset := by
      rw [hbatch]
      exact List.mem_append_left _ hjson'
    exact TelegramServer.batch_numbered hmem
  have hlow : telegram.nextUpdateOffset ≤ updateId json := by
    have hmem : json ∈ server.batch count telegram.nextUpdateOffset := by
      rw [hbatch]
      exact List.mem_append_right _ List.mem_cons_self
    exact (TelegramServer.batch_numbered hmem).2
  have hsorted := server.batch_increasing count telegram.nextUpdateOffset
  rw [hbatch] at hsorted
  have hbounds : telegram.nextUpdateOffset ≤
      (skipOffsets skipped telegram.nextUpdateOffset telegram.nextUpdateOffset).2 ∧
      (skipOffsets skipped telegram.nextUpdateOffset telegram.nextUpdateOffset).2 ≤ updateId json := by
    rcases List.eq_nil_or_concat skipped with rfl | ⟨front, last, rfl⟩
    · exact ⟨le_refl _, hlow⟩
    · rw [List.concat_eq_append] at hnumbered hsorted ⊢
      obtain ⟨hfront, -, hless⟩ := List.pairwise_append.mp hsorted
      have hto := skipOffsets_skipsTo front last hnumbered hfront
      have hlast := hless last (List.mem_append_right _ List.mem_cons_self) json List.mem_cons_self
      have hhigh := hto.high
      exact ⟨hto.low fun json' hjson' => (hnumbered json' hjson').2, by omega⟩
  refine ⟨hbounds.1, hbounds.2, ?_⟩
  rw [telegramListen, hserve, TelegramServer.serve]
  simp only
  rw [parseFirst_answer, ← TelegramServer.batch, hbatch, parseUpdates_skip _ _ _ _ _ hskip,
    parseUpdates_shown hshown]

end OneCall

end Answers

/-! ## Runs -/

/-- A call: how many updates the server answers with, the clock, and the files that are downloaded. -/
structure TelegramCall where
  count : Nat
  now : Int := 0
  download : TelegramUpdate → Bytes × Bytes × Nat := fun _ => ([], [], 0)

/-- What the environment does: no request and no download fails. -/
def TelegramCall.poll (call : TelegramCall) (server : TelegramServer) : TelegramPoll where
  getUpdates := server.serve call.count
  now := call.now
  download update := .ok (call.download update)

/-- The channel, and what was handed on. -/
structure PollRun where
  telegram : TelegramChannel
  handed : List Handed := []

/-- One more call of `telegram_listen`. -/
def pollStep (server : TelegramServer) (s : PollRun) (call : TelegramCall) : PollRun :=
  match telegramListen s.telegram (call.poll server) with
  | (telegram, .ok handed) => { telegram := telegram, handed := s.handed ++ [handed] }
  | (telegram, .error _) => { s with telegram := telegram }

/-- The updates in the answer to a call. -/
def PollRun.batch (server : TelegramServer) (s : PollRun) (call : TelegramCall) : List Json :=
  server.batch call.count s.telegram.nextUpdateOffset

/-- The updates from one offset on that are below another. -/
def TelegramServer.between (server : TelegramServer) (start offset : Int) : List Json :=
  (server.pending start).filter fun json => updateId json < offset

/-- **Delivery exactly once**: what was handed on are the updates below the offset that are shown, in order
    and under their identifiers; an answer that is not empty moves the offset; and as many calls as there are
    updates hand on all that are shown. -/
structure DeliversOnce (server : TelegramServer) (telegram : TelegramChannel) (calls : List TelegramCall) :
    Prop where
  handed : ∀ before, before <+: calls →
    (run (pollStep server) { telegram := telegram } before).handed.map Prod.fst =
      (server.between telegram.nextUpdateOffset
        (run (pollStep server) { telegram := telegram } before).telegram.nextUpdateOffset).filterMap
          (shown telegram)
  identified : ∀ handed ∈ (run (pollStep server) { telegram := telegram } calls).handed,
    handed.2.messageId = decimalInt handed.1.updateId
  advances : ∀ before call, before ++ [call] <+: calls →
    (run (pollStep server) { telegram := telegram } before).batch server call ≠ [] →
      (run (pollStep server) { telegram := telegram } before).telegram.nextUpdateOffset <
        (run (pollStep server) { telegram := telegram } (before ++ [call])).telegram.nextUpdateOffset
  complete : (∀ call ∈ calls, 0 < call.count) →
    (server.pending telegram.nextUpdateOffset).length ≤ calls.length →
      (run (pollStep server) { telegram := telegram } calls).handed.map Prod.fst =
        (server.pending telegram.nextUpdateOffset).filterMap (shown telegram)

/-- **When an answer moves the offset.** -/
def NotStuck (server : TelegramServer) (s : PollRun) (call : TelegramCall) : Prop :=
  ¬Stuck s.telegram.nextUpdateOffset (s.batch server call)

/-! ## What is read from a list with increasing identifiers -/

theorem TelegramServer.mem_between {server : TelegramServer} {start offset : Int} {json : Json} :
    json ∈ server.between start offset ↔ json ∈ server.pending start ∧ updateId json < offset := by
  rw [TelegramServer.between, List.mem_filter, decide_eq_true_eq]

theorem TelegramServer.between_increasing (server : TelegramServer) (start offset : Int) :
    (server.between start offset).Pairwise fun a b => updateId a < updateId b :=
  (server.pending_increasing start).filter _

/-- Two lists with increasing identifiers and the same members are the same. -/
theorem increasing_ext {l l' : List Json} (h : l.Pairwise fun a b => updateId a < updateId b)
    (h' : l'.Pairwise fun a b => updateId a < updateId b) (hmem : ∀ json, json ∈ l ↔ json ∈ l') : l = l' := by
  have hnodup : ∀ {l : List Json}, (l.Pairwise fun a b => updateId a < updateId b) → l.Nodup := by
    intro l hl
    refine hl.imp fun {a b} hlt heq => ?_
    rw [heq] at hlt
    omega
  refine List.Perm.eq_of_pairwise ?_ h h'
    ((List.perm_ext_iff_of_nodup (hnodup h) (hnodup h')).mpr hmem)
  intro a b _ _ hlt hgt
  omega

/-- What is read up to a later offset: what was, and a part of what was pending. -/
theorem TelegramServer.between_later (server : TelegramServer) {start offset target : Int}
    (hstart : start ≤ offset) (hlater : offset ≤ target) :
    server.between start target = server.between start offset ++ server.between offset target := by
  refine increasing_ext (server.between_increasing start target) ?_ fun json => ?_
  · refine List.pairwise_append.mpr ⟨server.between_increasing start offset,
      server.between_increasing offset target, fun a ha b hb => ?_⟩
    have hbelow := (TelegramServer.mem_between.mp ha).2
    have habove := (TelegramServer.mem_pending.mp (TelegramServer.mem_between.mp hb).1).2
    omega
  · simp only [List.mem_append, TelegramServer.mem_between, TelegramServer.mem_pending]
    constructor
    · rintro ⟨⟨hmem, hlow⟩, hless⟩
      by_cases hread : updateId json < offset
      · exact Or.inl ⟨⟨hmem, hlow⟩, hread⟩
      · exact Or.inr ⟨⟨hmem, by omega⟩, hless⟩
    · rintro (⟨⟨hmem, hlow⟩, hless⟩ | ⟨⟨hmem, hlow⟩, hless⟩)
      · exact ⟨⟨hmem, hlow⟩, by omega⟩
      · exact ⟨⟨hmem, by omega⟩, hless⟩

/-- What is read when an update of the answer is handed on. -/
theorem TelegramServer.between_shown {server : TelegramServer} {count : Nat} {offset : Int}
    {skipped rest : List Json} {json : Json} (hbatch : server.batch count offset = skipped ++ json :: rest) :
    server.between offset (updateId json + 1) = skipped ++ [json] := by
  have hsorted : (skipped ++ [json]).Pairwise fun a b => updateId a < updateId b := by
    have hall := server.batch_increasing count offset
    rw [hbatch, List.append_cons] at hall
    exact (List.pairwise_append.mp hall).1
  have hpending : ∀ other ∈ skipped ++ [json], other ∈ server.pending offset := by
    intro other hother
    refine List.mem_of_mem_take (i := count) ?_
    rw [← TelegramServer.batch, hbatch, List.append_cons]
    exact List.mem_append_left _ hother
  have hjson : json ∈ skipped ++ [json] := List.mem_append_right _ List.mem_cons_self
  refine increasing_ext (server.between_increasing offset _) hsorted fun other => ?_
  rw [TelegramServer.mem_between]
  constructor
  · rintro ⟨hother, hless⟩
    by_cases hbefore : updateId other < updateId json
    · exact List.mem_append_left _ (TelegramServer.before_of_lt hbatch hother hbefore)
    · rw [server.eq_of_updateId (TelegramServer.mem_pending.mp hother).1
        (TelegramServer.mem_pending.mp (hpending json hjson)).1 (by omega)]
      exact hjson
  · intro hother
    refine ⟨hpending other hother, ?_⟩
    rcases List.mem_append.mp hother with hmem | hmem
    · have hless := (List.pairwise_append.mp hsorted).2.2 other hmem json List.mem_cons_self
      omega
    · rw [List.mem_singleton.mp hmem]
      omega

/-! ## What a call of a run does -/

/-- The two things a call can do without a rate limit: skip a whole answer, or hand on an update of it. -/
inductive PollStepCase (server : TelegramServer) (s : PollRun) (batch : List Json) (s' : PollRun) : Prop where
  | skipped (target : Int) (ends : EndsAt server s.telegram.nextUpdateOffset batch target)
      (hidden : ∀ json ∈ batch, shown s.telegram json = none)
      (after : s' = { s with telegram := { s.telegram with nextUpdateOffset := target } })
  | handed (front rest : List Json) (json : Json) (update : TelegramUpdate) (inbound : ChannelInbound)
      (split : batch = front ++ json :: rest) (hidden : ∀ json ∈ front, shown s.telegram json = none)
      (first : shown s.telegram json = some update) (named : inbound.messageId = decimalInt update.updateId)
      (after : s' = {
        telegram := { s.telegram with nextUpdateOffset := updateId json + 1 }
        handed := s.handed ++ [(update, inbound)] })

/-- Without a rate limit and with downloads that do not fail, an update that is shown is handed on. -/
theorem handOn_delivers {telegram : TelegramChannel} (poll : TelegramPoll)
    {download : TelegramUpdate → Bytes × Bytes × Nat} (hrate : telegram.rateLimitPerMinute = 0)
    (hdownload : ∀ update, poll.download update = .ok (download update)) (update : TelegramUpdate)
    (nextOffset : Int) :
    ∃ inbound, inbound.messageId = decimalInt update.updateId ∧
      handOn telegram poll update nextOffset = (telegram, .ok (update, inbound), update.updateId + 1) := by
  obtain ⟨inbound, hmade, hnamed⟩ : ∃ inbound,
      telegramUpdateToInbound telegram update poll.download = .ok inbound ∧
        inbound.messageId = decimalInt update.updateId := by
    unfold telegramUpdateToInbound
    rw [hdownload update]
    by_cases hfile : update.media ∧ update.fileId.getD [] ≠ []
    · rw [if_pos hfile]
      refine ⟨_, rfl, ?_⟩
      rfl
    · rw [if_neg hfile]
      refine ⟨_, rfl, ?_⟩
      rfl
  refine ⟨inbound, hnamed, ?_⟩
  rw [handOn, telegramCheckRateLimit, if_pos hrate]
  simp only [hmade]

theorem pollStep_cases (server : TelegramServer) (s : PollRun) (call : TelegramCall)
    (hrate : s.telegram.rateLimitPerMinute = 0) :
    PollStepCase server s (s.batch server call) (pollStep server s call) := by
  rcases skipped_or_shown s.telegram (s.batch server call) with
    hhidden | ⟨front, json, rest, update, hbatch, hhidden, hshown⟩
  · have hlisten := telegramListen_skip (call.poll server) rfl hhidden
    refine .skipped _ (endOffset_endsAt server call.count s.telegram.nextUpdateOffset) hhidden ?_
    rw [pollStep, hlisten]
    rfl
  · obtain ⟨start, -, -, hlisten⟩ := telegramListen_shown (call.poll server) rfl hbatch hhidden
      hshown
    obtain ⟨inbound, hnamed, hhand⟩ := handOn_delivers (call.poll server) hrate (fun _ => rfl) update start
    refine .handed front rest json update inbound hbatch hhidden hshown hnamed ?_
    rw [pollStep, hlisten, hhand, ← shown_updateId hshown]
    rfl

/-! ## Invariant -/

/-- What holds in every state: only the offset of the channel changes, upwards, and what was handed on is
    what lies between. -/
structure Delivering (server : TelegramServer) (telegram : TelegramChannel) (s : PollRun) : Prop where
  settings : s.telegram = { telegram with nextUpdateOffset := s.telegram.nextUpdateOffset }
  later : telegram.nextUpdateOffset ≤ s.telegram.nextUpdateOffset
  handed : s.handed.map Prod.fst =
    (server.between telegram.nextUpdateOffset s.telegram.nextUpdateOffset).filterMap (shown telegram)
  identified : ∀ handed ∈ s.handed, handed.2.messageId = decimalInt handed.1.updateId

theorem Delivering.shown_eq {server : TelegramServer} {telegram : TelegramChannel} {s : PollRun}
    (h : Delivering server telegram s) : shown s.telegram = shown telegram := by
  rw [h.settings]
  exact shown_congr rfl rfl

theorem Delivering.rate {server : TelegramServer} {telegram : TelegramChannel} {s : PollRun}
    (h : Delivering server telegram s) : s.telegram.rateLimitPerMinute = telegram.rateLimitPerMinute := by
  rw [h.settings]

theorem Delivering.start (server : TelegramServer) (telegram : TelegramChannel) :
    Delivering server telegram { telegram := telegram } where
  settings := rfl
  later := le_refl _
  handed := by
    have hnone : server.between telegram.nextUpdateOffset telegram.nextUpdateOffset = [] := by
      refine List.eq_nil_iff_forall_not_mem.mpr fun json hjson => ?_
      obtain ⟨hpending, hless⟩ := TelegramServer.mem_between.mp hjson
      have hlow := (TelegramServer.mem_pending.mp hpending).2
      omega
    show [] = _
    rw [hnone, List.filterMap_nil]
  identified := fun _ h => absurd h List.not_mem_nil

/-- **The step lemma.** -/
theorem Delivering.step {server : TelegramServer} {telegram : TelegramChannel} {s : PollRun}
    (h : Delivering server telegram s) (hrate : telegram.rateLimitPerMinute = 0) (call : TelegramCall) :
    Delivering server telegram (pollStep server s call) := by
  have hcase := pollStep_cases server s call (h.rate.trans hrate)
  have hbatch : ∀ json ∈ s.batch server call, s.telegram.nextUpdateOffset ≤ updateId json :=
    fun json hjson => (TelegramServer.batch_numbered hjson).2
  generalize hs' : pollStep server s call = s' at hcase ⊢
  cases hcase with
  | skipped target ends hidden after =>
    subst after
    refine ⟨?_, h.later.trans ends.low, ?_, h.identified⟩
    · show { s.telegram with nextUpdateOffset := target } = { telegram with nextUpdateOffset := target }
      rw [h.settings]
    · show s.handed.map Prod.fst = (server.between telegram.nextUpdateOffset target).filterMap (shown telegram)
      rw [server.between_later h.later ends.low, List.filterMap_append, ← h.handed]
      have hnone : (server.between s.telegram.nextUpdateOffset target).filterMap (shown telegram) = [] := by
        refine List.filterMap_eq_nil_iff.mpr fun json hjson => ?_
        obtain ⟨hpending, hless⟩ := TelegramServer.mem_between.mp hjson
        rw [← h.shown_eq]
        exact hidden json (ends.answered json hpending hless)
      rw [hnone, List.append_nil]
  | handed front rest json update inbound split hidden first named after =>
    subst after
    have hlow := hbatch json (by
      rw [split]
      exact List.mem_append_right _ List.mem_cons_self)
    refine ⟨?_, ?_, ?_, ?_⟩
    · show { s.telegram with nextUpdateOffset := updateId json + 1 } =
        { telegram with nextUpdateOffset := updateId json + 1 }
      rw [h.settings]
    · show telegram.nextUpdateOffset ≤ updateId json + 1
      have hlater := h.later
      omega
    · show (s.handed ++ [(update, inbound)]).map Prod.fst =
        (server.between telegram.nextUpdateOffset (updateId json + 1)).filterMap (shown telegram)
      have hfront : front.filterMap (shown telegram) = [] := by
        refine List.filterMap_eq_nil_iff.mpr fun json' hjson' => ?_
        rw [← h.shown_eq]
        exact hidden json' hjson'
      rw [h.shown_eq] at first
      rw [server.between_later h.later (by omega), List.filterMap_append, ← h.handed,
        TelegramServer.between_shown split, List.filterMap_append, hfront, List.nil_append, List.map_append]
      congr 1
      show [update] = [json].filterMap (shown telegram)
      rw [List.filterMap_cons_some first, List.filterMap_nil]
    · show ∀ handed ∈ s.handed ++ [(update, inbound)], handed.2.messageId = decimalInt handed.1.updateId
      exact List.forall_mem_append.mpr ⟨h.identified, List.forall_mem_singleton.mpr named⟩

/-! ## Progress -/

/-- An answer that is stuck leaves the offset where it is, and any other one that is not empty moves it. -/
theorem pollStep_offset (server : TelegramServer) (s : PollRun) (call : TelegramCall)
    (hrate : s.telegram.rateLimitPerMinute = 0) :
    (s.batch server call ≠ [] → NotStuck server s call →
      ∃ json ∈ s.batch server call, updateId json < (pollStep server s call).telegram.nextUpdateOffset) ∧
    (¬NotStuck server s call →
      (pollStep server s call).telegram.nextUpdateOffset = s.telegram.nextUpdateOffset) := by
  have hcase := pollStep_cases server s call hrate
  generalize hs' : pollStep server s call = s' at hcase ⊢
  cases hcase with
  | skipped target ends hidden after =>
    subst after
    exact ⟨ends.advances, fun hstuck => ends.stays (not_not.mp hstuck)⟩
  | handed front rest json update inbound split hidden first named after =>
    subst after
    have hjson : json ∈ s.batch server call := by
      rw [split]
      exact List.mem_append_right _ List.mem_cons_self
    refine ⟨fun _ _ => ⟨json, hjson, by show updateId json < updateId json + 1; omega⟩, fun hstuck => ?_⟩
    -- an update that is shown is recognized
    obtain ⟨json', hsingle, hextract, -⟩ := not_not.mp hstuck
    rw [hsingle] at hjson
    rw [List.mem_singleton.mp hjson, shown, hextract, Option.filter_none] at first
    cases first

theorem pollStep_later (server : TelegramServer) (s : PollRun) (call : TelegramCall)
    (hrate : s.telegram.rateLimitPerMinute = 0) :
    s.telegram.nextUpdateOffset ≤ (pollStep server s call).telegram.nextUpdateOffset := by
  have hcase := pollStep_cases server s call hrate
  have hbatch : ∀ json ∈ s.batch server call, s.telegram.nextUpdateOffset ≤ updateId json :=
    fun json hjson => (TelegramServer.batch_numbered hjson).2
  generalize pollStep server s call = s' at hcase ⊢
  cases hcase with
  | skipped target ends hidden after =>
    rw [after]
    exact ends.low
  | handed front rest json update inbound split hidden first named after =>
    have hlow := hbatch json (by
      rw [split]
      exact List.mem_append_right _ List.mem_cons_self)
    rw [after]
    show s.telegram.nextUpdateOffset ≤ updateId json + 1
    omega

/-- What is pending later is a part of what is pending. -/
theorem TelegramServer.pending_sublist (server : TelegramServer) {offset target : Int}
    (hlater : offset ≤ target) : (server.pending target).Sublist (server.pending offset) := by
  refine List.monotone_filter_right _ fun other hother => ?_
  rw [decide_eq_true_eq] at hother ⊢
  omega

/-- A call that moves the offset behind an update leaves fewer pending. -/
theorem pending_shorter {server : TelegramServer} {offset target : Int} {json : Json}
    (hjson : json ∈ server.pending offset) (hlater : offset ≤ target) (hbehind : updateId json < target) :
    (server.pending target).length < (server.pending offset).length := by
  have hsub := server.pending_sublist hlater
  refine lt_of_le_of_ne hsub.length_le fun heq => ?_
  rw [← hsub.eq_of_length heq] at hjson
  have hlow := (TelegramServer.mem_pending.mp hjson).2
  omega

/-- **Calls that are not stuck read everything**, if there are as many as updates. -/
theorem run_reads_all {server : TelegramServer} {telegram : TelegramChannel}
    (hrate : telegram.rateLimitPerMinute = 0) (calls : List TelegramCall) :
    ∀ s, Delivering server telegram s → EachStep (pollStep server) (NotStuck server) s calls →
      (∀ call ∈ calls, 0 < call.count) →
        (server.pending s.telegram.nextUpdateOffset).length ≤ calls.length →
          server.pending (run (pollStep server) s calls).telegram.nextUpdateOffset = [] := by
  induction calls with
  | nil => exact fun s _ _ _ hlength => List.length_eq_zero_iff.mp (Nat.le_zero.mp hlength)
  | cons call calls ih =>
    intro s hs hsteps hcounts hlength
    obtain ⟨hcount, hcounts'⟩ := List.forall_mem_cons.mp hcounts
    have hrate' := hs.rate.trans hrate
    have hlater := pollStep_later server s call hrate'
    refine ih _ (hs.step hrate call) hsteps.2 hcounts' ?_
    by_cases hbatch : s.batch server call = []
    · have hnone : server.pending s.telegram.nextUpdateOffset = [] := by
        rcases List.take_eq_nil_iff.mp hbatch with hzero | hnil
        · omega
        · exact hnil
      have hless := (server.pending_sublist hlater).length_le
      rw [hnone, List.length_nil] at hless
      omega
    · obtain ⟨json, hjson, hbehind⟩ := (pollStep_offset server s call hrate').1 hbatch hsteps.1
      have hless := pending_shorter (List.mem_of_mem_take hjson) hlater hbehind
      rw [List.length_cons] at hlength
      omega

/-! ## Result -/

/-- **Exactly once, exactly when no answer is stuck**: without a rate limit and with requests and downloads
    that do not fail, from any offset and over any number of calls. -/
theorem deliversOnce_iff (server : TelegramServer) {telegram : TelegramChannel}
    (hrate : telegram.rateLimitPerMinute = 0) (calls : List TelegramCall) :
    DeliversOnce server telegram calls ↔
      EachStep (pollStep server) (NotStuck server) { telegram := telegram } calls := by
  have hrun : ∀ before, Delivering server telegram (run (pollStep server) { telegram := telegram } before) :=
    fun before => run_preserves (I := Delivering server telegram) (fun s call hs => hs.step hrate call)
      before _ (Delivering.start server telegram)
  constructor
  · intro h
    refine eachStep_of_last fun before call hbefore => ?_
    by_contra hstuck
    have hsame := (pollStep_offset server _ call ((hrun before).rate.trans hrate)).2 hstuck
    have hmoved := h.advances before call hbefore (by
      obtain ⟨json, hsingle, -⟩ := not_not.mp hstuck
      rw [hsingle]
      exact List.cons_ne_nil _ _)
    rw [run_concat] at hmoved
    exact absurd hsame (ne_of_gt hmoved)
  · intro hsteps
    refine ⟨fun before _ => (hrun before).handed, (hrun calls).identified, ?_, fun hcounts hlength => ?_⟩
    · intro before call hbefore hbatch
      have hstep := EachStep.last (EachStep.of_initial hbefore hsteps)
      obtain ⟨json, hjson, hbehind⟩ :=
        (pollStep_offset server _ call ((hrun before).rate.trans hrate)).1 hbatch hstep
      have hlow := (TelegramServer.batch_numbered hjson).2
      rw [run_concat]
      exact lt_of_le_of_lt hlow hbehind
    · have hread := run_reads_all hrate calls _ (Delivering.start server telegram) hsteps hcounts hlength
      rw [(hrun calls).handed]
      congr 1
      refine List.filter_eq_self.mpr fun json hjson => ?_
      rw [decide_eq_true_eq]
      by_contra hpending
      have hmem := TelegramServer.mem_pending.mpr
        ⟨(TelegramServer.mem_pending.mp hjson).1, not_lt.mp hpending⟩
      rw [hread] at hmem
      exact absurd hmem List.not_mem_nil

/-- A message, and an update of a kind that is not recognized. -/
def messageUpdate (id : Nat) : Json :=
  .object [(str "update_id", .number (ofSize id)), (str "message", .object [
    (str "message_id", .number (ofSize 10)), (str "chat", .object [(str "id", .number (ofSize 7))]),
    (str "from", .object [(str "id", .number (ofSize 7))]), (str "text", .string (str "hello"))])]

def pollUpdate (id : Nat) : Json := .object [(str "update_id", .number (ofSize id)), (str "poll", .object [])]

def messageServer : TelegramServer where
  updates := [messageUpdate 1, messageUpdate 3, pollUpdate 5, messageUpdate 6]
  numbered := by decide +kernel
  increasing := by decide +kernel

def pollServer : TelegramServer where
  updates := [messageUpdate 1, pollUpdate 2]
  numbered := by decide +kernel
  increasing := by decide +kernel

/-- Calls with answers of two updates, the last with none: each of them moves the offset. -/
def messageCalls : List TelegramCall := [{ count := 2 }, { count := 2 }, { count := 2 }, { count := 2 }]

theorem deliversOnce_messages : DeliversOnce messageServer {} messageCalls ∧
    (run (pollStep messageServer) { telegram := {} } messageCalls).handed.map (·.1.updateId) = [1, 3, 6] := by
  have hsteps : EachStep (pollStep messageServer) (fun s call => (s.batch messageServer call).length ≠ 1)
      { telegram := {} } messageCalls :=
    ⟨by decide +kernel, by decide +kernel, by decide +kernel, by decide +kernel, trivial⟩
  have hmoves : ∀ s call, True → (s.batch messageServer call).length ≠ 1 → NotStuck messageServer s call := by
    rintro s call - hlength ⟨json, hbatch, -⟩
    exact hlength (congrArg List.length hbatch)
  exact ⟨(deliversOnce_iff messageServer rfl messageCalls).mpr
    (EachStep.imp (fun _ _ _ _ => trivial) hmoves trivial hsteps), by decide +kernel⟩

/-- **The same update for ever**: the message has the identifier 1, so the offset is 2; the next update has
    exactly this identifier and is not recognized. -/
theorem not_deliversOnce_poll : ¬DeliversOnce pollServer {} [{ count := 2 }, { count := 2 }] := by
  intro h
  have hmoved := h.advances [{ count := 2 }] { count := 2 } (List.prefix_refl _)
  have hfirst : (run (pollStep pollServer) { telegram := {} } [{ count := 2 }]).telegram.nextUpdateOffset = 2 := by
    decide +kernel
  have hsecond : (run (pollStep pollServer) { telegram := {} }
      ([{ count := 2 }] ++ [{ count := 2 }])).telegram.nextUpdateOffset = 2 := by
    decide +kernel
  rw [hfirst, hsecond] at hmoved
  refine absurd (hmoved ?_) (lt_irrefl 2)
  rw [PollRun.batch, hfirst, ← List.length_pos_iff]
  decide +kernel

end SmolClaw.Channels
