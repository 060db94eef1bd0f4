/-
  Long messages over Telegram (the loop of `telegram_send`, `src/channels/telegram.c`).

  1. **Program** — a text is sent in chunks.  A chunk is moved back to the start of a character, and halved
     while its formatted form is too long; a half that is shorter than the first character is kept as it is.

  2. **Specification** — `SentWhole`: the chunks make up the text, and each is a valid text that fits.

  3. **Defect** — the fall-back cuts inside a character: half of a chunk that starts with a long character
     may be shorter than that character.

  4. **Result** — `sentWhole_iff`: a text is sent whole exactly if, wherever a chunk begins, halving reaches a
     form that fits before the half is shorter than the first character.
-/
import SmolClaw.Core.Utf8

namespace SmolClaw.Channels

/-! ## Program -/

/-- `telegram_text_safe_limit_bytes` -/
def telegramTextSafeLimitBytes : Nat := 3900

/-- The loop of `telegram_utf8_chunk_boundary`. -/
def backToBoundary (rest : Bytes) : Nat → Nat
  | 0 => 0
  | n + 1 => if cutsInside rest (n + 1) then backToBoundary rest n else n + 1

/-- `telegram_utf8_chunk_boundary`, on the text from `offset` on. -/
def telegramUtf8ChunkBoundary (rest : Bytes) (len : Nat) : Nat :=
  if rest = [] ∨ rest.length < len then 0
  else if backToBoundary rest len = 0 then len
  else backToBoundary rest len

/-- The limit of `telegram_next_text_chunk`. -/
def telegramLimit (messageSplitBytes : Nat) : Nat :=
  if 0 < messageSplitBytes ∧ messageSplitBytes < telegramTextSafeLimitBytes then messageSplitBytes
  else telegramTextSafeLimitBytes

section Program

variable (format : Bytes → Bytes) (limit : Nat)

/-- The loop of `telegram_next_text_chunk`: the length of the chunk, from the length `len` on.  A length is
    at least halved in each round. -/
def halveChunk (rest : Bytes) : Nat → Nat → Nat
  | 0, len => len
  | rounds + 1, len =>
      if 1 < len then
        if (format (rest.take len)).length ≤ limit then len
        else halveChunk rest rounds (telegramUtf8ChunkBoundary rest (len / 2))
      else if len = 0 then 1
      else len

/-- `telegram_next_text_chunk`, on the text from `offset` on: the length of the chunk. -/
def telegramNextTextChunk (rest : Bytes) : Nat :=
  if rest = [] then 0
  else
    halveChunk format limit rest rest.length (telegramUtf8ChunkBoundary rest (min rest.length limit))

end Program

/-- `sc_channel_message`, as far as `telegram_send` reads it behind an attachment. -/
structure TelegramMessage where
  conversationId : Bytes
  threadId : Bytes := []
  text : Bytes
  draft : Bool := false

/-- `telegram_channel`: the drafts. -/
structure TelegramDrafts where
  lastDraftChatId : Bytes := []
  lastDraftThreadId : Bytes := []
  lastDraftMessageId : Bytes := []
  nextDraftId : Int := 1
  activeDraftId : Int := 0

/-- A request: its method, and the chunk in its body. -/
structure TelegramRequest where
  method : Bytes
  draftId : Int := 0
  chunk : Bytes

/-- `same_message_target` -/
def sameMessageTarget (drafts : TelegramDrafts) (message : TelegramMessage) : Bool :=
  drafts.lastDraftChatId == message.conversationId && drafts.lastDraftThreadId == message.threadId

/-- `LONG_MAX` -/
def longMax : Int := 2 ^ 63 - 1

/-- The draft that a draft message is part of; `next_draft_id` starts again at 1. -/
def openDraft (drafts : TelegramDrafts) (message : TelegramMessage) : TelegramDrafts :=
  if ¬ sameMessageTarget drafts message ∨ drafts.activeDraftId = 0 then
    { drafts with
      activeDraftId := drafts.nextDraftId
      nextDraftId := if drafts.nextDraftId = longMax then 1 else drafts.nextDraftId + 1 }
  else drafts

/-- A round of the loop of `telegram_send` whose request succeeds: what is sent, and the drafts behind
    it. -/
def sendChunk (drafts : TelegramDrafts) (message : TelegramMessage) (chunk : Bytes) :
    TelegramRequest × TelegramDrafts :=
  if message.draft then
    let drafts := openDraft drafts message
    ({ method := str "sendMessageDraft", draftId := drafts.activeDraftId, chunk := chunk },
      { drafts with
        lastDraftChatId := message.conversationId
        lastDraftThreadId := message.threadId
        lastDraftMessageId := [] })
  else
    let edits := sameMessageTarget drafts message && !drafts.lastDraftMessageId.isEmpty
    ({ method := if edits then str "editMessageText" else str "sendMessage", chunk := chunk },
      { drafts with
        activeDraftId := 0
        lastDraftChatId := []
        lastDraftThreadId := []
        lastDraftMessageId := [] })

/-- The loop of `telegram_send` when all requests succeed; `none` when it does not end in that many
    rounds. -/
def sendLoop (format : Bytes → Bytes) (limit : Nat) (message : TelegramMessage) :
    Nat → TelegramDrafts → Bytes → Option (List TelegramRequest)
  | rounds, drafts, rest =>
      if rest = [] then some []
      else
        match rounds with
        | 0 => none
        | rounds + 1 =>
            let len := telegramNextTextChunk format limit rest
            let (request, drafts) := sendChunk drafts message (rest.take len)
            (sendLoop format limit message rounds drafts (rest.drop (if len = 0 then 1 else len))).map
              (request :: ·)

/-! ## Specification -/

/-- A single code point: a valid text that cannot be cut. -/
structure IsCodePoint (c : Bytes) : Prop where
  ne_nil : c ≠ []
  valid : strIsValidUtf8 c = true
  uncut : ∀ n, 0 < n → n < c.length → cutsInside c n = true

/-- A chunk as it should be. -/
structure GoodChunk (format : Bytes → Bytes) (limit : Nat) (chunk : Bytes) : Prop where
  ne_nil : chunk ≠ []
  valid : strIsValidUtf8 chunk = true
  fits : chunk.length ≤ limit
  formatted : (format chunk).length ≤ limit

/-- **Sent whole**: the loop ends, and what it sends is the text, in good chunks. -/
def SentWhole (format : Bytes → Bytes) (limit : Nat) (drafts : TelegramDrafts) (message : TelegramMessage) :
    Prop :=
  ∃ rounds requests, sendLoop format limit message rounds drafts message.text = some requests ∧
    (requests.map (·.chunk)).flatten = message.text ∧
    ∀ request ∈ requests, GoodChunk format limit request.chunk

section Specification

variable (format : Bytes → Bytes) (limit : Nat)

/-- From the whole characters in the first `len` bytes, halving reaches `m` bytes whose formatted form fits,
    and every half holds the first character. -/
inductive Halves (rest : Bytes) : Nat → Nat → Prop
  | fits {len : Nat} (holds : len ≠ 0) (formatted : (format (rest.take len)).length ≤ limit) :
      Halves rest len len
  | halve {len m : Nat} (holds : len ≠ 0) (long : limit < (format (rest.take len)).length)
      (next : Halves rest (backToBoundary rest (len / 2)) m) : Halves rest len m

/-- **Divisible**: wherever a chunk begins, halving reaches a form that fits before the half is shorter than
    the first character. -/
inductive Divisible : Bytes → Prop
  | done : Divisible []
  | chunk {rest : Bytes} {m : Nat} (begins : rest ≠ [])
      (halves : Halves format limit rest (backToBoundary rest (min rest.length limit)) m)
      (next : Divisible (rest.drop m)) : Divisible rest

end Specification

/-! ## Characters -/

/-- A valid text begins with a character of at most four bytes. -/
theorem first_character {rest : Bytes} (hvalid : strIsValidUtf8 rest = true) (hne : rest ≠ []) :
    ∃ w, 0 < w ∧ w ≤ 4 ∧ w ≤ rest.length ∧ cutsInside rest w = false := by
  have hcut : ∀ c t : Bytes, rest = c ++ t → strIsValidUtf8 t = true → c ≠ [] → c.length ≤ 4 →
      ∃ w, 0 < w ∧ w ≤ 4 ∧ w ≤ rest.length ∧ cutsInside rest w = false := by
    rintro c t rfl ht hc hlength
    refine ⟨c.length, List.length_pos_iff.mpr hc, hlength, ?_, ?_⟩
    · rw [List.length_append]
      omega
    · rw [cutsInside, List.getElem?_append_right (Nat.le_refl _), Nat.sub_self]
      cases t with
      | nil => rfl
      | cons b t => exact utf8_head ht
  revert hvalid
  fun_cases strIsValidUtf8 rest with
  | case1 => exact absurd rfl hne
  | case2 a s ha =>
    intro hvalid
    exact hcut [a] s rfl hvalid (List.cons_ne_nil _ _) (by simp)
  | case3 a ha h2 b s =>
    intro hvalid
    rw [Bool.and_eq_true] at hvalid
    exact hcut [a, b] s rfl hvalid.2 (List.cons_ne_nil _ _) (by simp)
  | case5 a ha h2 h3 b c s =>
    intro hvalid
    rw [Bool.and_eq_true] at hvalid
    exact hcut [a, b, c] s rfl hvalid.2 (List.cons_ne_nil _ _) (by simp)
  | case7 a ha h2 h3 h4 b c d s =>
    intro hvalid
    rw [Bool.and_eq_true] at hvalid
    exact hcut [a, b, c, d] s rfl hvalid.2 (List.cons_ne_nil _ _) (by simp)
  | case4 | case6 | case8 | case9 => exact fun hvalid => absurd hvalid Bool.false_ne_true

theorem IsCodePoint.length_le {c : Bytes} (h : IsCodePoint c) : c.length ≤ 4 := by
  obtain ⟨w, hpos, hfour, hlength, hwhole⟩ := first_character h.valid h.ne_nil
  by_contra hlong
  rw [h.uncut w hpos (by omega)] at hwhole
  cases hwhole

theorem backToBoundary_le (rest : Bytes) : ∀ n, backToBoundary rest n ≤ n := by
  intro n
  induction n with
  | zero => exact Nat.le_refl _
  | succ n ih =>
    rw [backToBoundary]
    split
    · omega
    · exact Nat.le_refl _

/-- Behind the boundary every cut is inside a character. -/
theorem cutsInside_of_back {rest : Bytes} : ∀ {n k : Nat}, backToBoundary rest n < k → k ≤ n →
    cutsInside rest k = true := by
  intro n
  induction n with
  | zero => intro k hlt hle; omega
  | succ n ih =>
    intro k hlt hle
    rw [backToBoundary] at hlt
    split at hlt
    · next hinside =>
      rcases Nat.lt_or_eq_of_le hle with hle | rfl
      · exact ih hlt (by omega)
      · exact hinside
    · omega

/-- The boundary itself is none. -/
theorem backToBoundary_whole {rest : Bytes} (hvalid : strIsValidUtf8 rest = true) (hne : rest ≠ []) :
    ∀ n, cutsInside rest (backToBoundary rest n) = false := by
  intro n
  induction n with
  | zero =>
    obtain ⟨b, t, rfl⟩ := List.exists_cons_of_ne_nil hne
    exact utf8_head hvalid
  | succ n ih =>
    rw [backToBoundary]
    split
    · exact ih
    · next hwhole => exact Bool.not_eq_true _ ▸ hwhole

/-- A chunk of at least four bytes holds a character. -/
theorem backToBoundary_pos {rest : Bytes} (hvalid : strIsValidUtf8 rest = true) (hne : rest ≠ []) {n : Nat}
    (hn : min rest.length 4 ≤ n) : backToBoundary rest n ≠ 0 := by
  obtain ⟨w, hpos, hfour, hlength, hwhole⟩ := first_character hvalid hne
  intro hzero
  rw [cutsInside_of_back (n := n) (by omega) (by omega)] at hwhole
  cases hwhole

theorem telegramUtf8ChunkBoundary_eq {rest : Bytes} {len : Nat} (hne : rest ≠ []) (hlen : len ≤ rest.length) :
    telegramUtf8ChunkBoundary rest len =
      if backToBoundary rest len = 0 then len else backToBoundary rest len := by
  refine if_neg fun h => ?_
  rcases h with hnil | hlong
  · exact hne hnil
  · omega

theorem telegramUtf8ChunkBoundary_bounds {rest : Bytes} (hne : rest ≠ []) (len : Nat) (hpos : 0 < len)
    (hlen : len ≤ rest.length) :
    0 < telegramUtf8ChunkBoundary rest len ∧ telegramUtf8ChunkBoundary rest len ≤ len := by
  rw [telegramUtf8ChunkBoundary_eq hne hlen]
  have hle := backToBoundary_le rest len
  split
  · omega
  · omega

/-! ## One chunk -/

section Chunk

variable {format : Bytes → Bytes} {limit : Nat} {rest : Bytes}

variable (format limit) in
theorem halveChunk_bounds (hne : rest ≠ []) : ∀ (rounds len : Nat), 0 < len → len ≤ rounds →
    len ≤ rest.length → 0 < halveChunk format limit rest rounds len ∧
      halveChunk format limit rest rounds len ≤ len := by
  intro rounds
  induction rounds with
  | zero => intro len hpos hrounds _; omega
  | succ rounds ih =>
    intro len hpos hrounds hlen
    rw [halveChunk]
    split
    · split
      · omega
      · have hbounds := telegramUtf8ChunkBoundary_bounds hne (len / 2) (by omega) (by omega)
        have hrest := ih (telegramUtf8ChunkBoundary rest (len / 2)) hbounds.1 (by omega) (by omega)
        omega
    · split
      · omega
      · omega

/-- From a cut inside the first character halving does not leave it. -/
theorem halveChunk_inside (hne : rest ≠ []) {rounds len : Nat} (hpos : 0 < len) (hrounds : len ≤ rounds)
    (hlen : len ≤ rest.length) (hinside : backToBoundary rest len = 0) :
    cutsInside rest (halveChunk format limit rest rounds len) = true := by
  have hbounds := halveChunk_bounds format limit hne rounds len hpos hrounds hlen
  exact cutsInside_of_back (n := len) (by omega) hbounds.2

theorem Halves.ne_zero {len m : Nat} (h : Halves format limit rest len m) : len ≠ 0 := by
  cases h with
  | fits holds _ => exact holds
  | halve holds _ _ => exact holds

/-- What halving reaches. -/
theorem Halves.spec (hvalid : strIsValidUtf8 rest = true) (hne : rest ≠ []) {len m : Nat}
    (h : Halves format limit rest len m) (hwhole : cutsInside rest len = false) :
    m ≠ 0 ∧ m ≤ len ∧ cutsInside rest m = false ∧ (format (rest.take m)).length ≤ limit := by
  induction h with
  | fits holds formatted => exact ⟨holds, Nat.le_refl _, hwhole, formatted⟩
  | @halve len m holds long next ih =>
    obtain ⟨hpos, hle, hcut, hfits⟩ := ih (backToBoundary_whole hvalid hne _)
    have hhalf := backToBoundary_le rest (len / 2)
    exact ⟨hpos, by omega, hcut, hfits⟩

/-- **Where halving reaches a form that fits**, that is the chunk. -/
theorem halveChunk_of_halves (hne : rest ≠ []) {len m : Nat} (h : Halves format limit rest len m) :
    ∀ rounds, len ≤ rounds → len ≤ rest.length → halveChunk format limit rest rounds len = m := by
  induction h with
  | @fits len holds formatted =>
    intro rounds hrounds _
    obtain ⟨k, rfl⟩ := Nat.exists_eq_succ_of_ne_zero (Nat.ne_of_gt (by omega : 0 < rounds))
    rw [halveChunk, if_pos formatted, if_neg holds, ite_self]
  | @halve len m holds long next ih =>
    intro rounds hrounds hlen
    obtain ⟨k, rfl⟩ := Nat.exists_eq_succ_of_ne_zero (Nat.ne_of_gt (by omega : 0 < rounds))
    have hnext := next.ne_zero
    have hhalf := backToBoundary_le rest (len / 2)
    rw [halveChunk, if_pos (by omega), if_neg (by omega), telegramUtf8ChunkBoundary_eq hne (by omega),
      if_neg hnext]
    exact ih k (by omega) (by omega)

/-- **Elsewhere the chunk ends inside a character.** -/
theorem halveChunk_of_not_halves (hvalid : strIsValidUtf8 rest = true) (hne : rest ≠ [])
    (hformat : ∀ c, IsCodePoint c → (format c).length ≤ limit) :
    ∀ (rounds len : Nat), len ≠ 0 → len ≤ rounds → len ≤ rest.length → cutsInside rest len = false →
      (∀ m, ¬ Halves format limit rest len m) →
      cutsInside rest (halveChunk format limit rest rounds len) = true := by
  intro rounds
  induction rounds with
  | zero => intro len hpos hrounds; omega
  | succ rounds ih =>
    intro len hpos hrounds hlen hwhole hnone
    have hlong : limit < (format (rest.take len)).length := by
      by_contra hfits
      exact hnone len (.fits hpos (by omega))
    rw [halveChunk]
    split
    · rw [if_neg (by omega), telegramUtf8ChunkBoundary_eq hne (by omega)]
      have hhalf := backToBoundary_le rest (len / 2)
      split
      · next hzero => exact halveChunk_inside hne (by omega) (by omega) (by omega) hzero
      · next hback =>
        refine ih _ hback (by omega) (by omega) (backToBoundary_whole hvalid hne _) fun m hm => ?_
        exact hnone m (.halve hpos hlong hm)
    · -- a single byte is a code point
      obtain rfl : len = 1 := by omega
      have hpoint : IsCodePoint (rest.take 1) := by
        refine ⟨fun hnil => ?_, (utf8_take_iff hvalid 1).mpr hwhole, fun n hn hlt => ?_⟩
        · have hlength := congrArg List.length hnil
          rw [List.length_take, List.length_nil] at hlength
          omega
        · rw [List.length_take] at hlt
          omega
      have hfits := hformat _ hpoint
      omega

variable (format) in
theorem telegramNextTextChunk_bounds (hne : rest ≠ []) (hlimit : 0 < limit) :
    0 < telegramNextTextChunk format limit rest ∧
      telegramNextTextChunk format limit rest ≤ min rest.length limit := by
  have hpos := List.length_pos_iff.mpr hne
  have hbounds := telegramUtf8ChunkBoundary_bounds hne (min rest.length limit) (by omega) (by omega)
  have hchunk := halveChunk_bounds format limit hne rest.length
    (telegramUtf8ChunkBoundary rest (min rest.length limit)) hbounds.1 (by omega) (by omega)
  rw [telegramNextTextChunk, if_neg hne]
  omega

/-- **A chunk is good** exactly if halving reaches it. -/
theorem goodChunk_iff (hvalid : strIsValidUtf8 rest = true) (hne : rest ≠ []) (hlimit : 4 ≤ limit)
    (hformat : ∀ c, IsCodePoint c → (format c).length ≤ limit) :
    GoodChunk format limit (rest.take (telegramNextTextChunk format limit rest)) ↔
      Halves format limit rest (backToBoundary rest (min rest.length limit))
        (telegramNextTextChunk format limit rest) := by
  have hbounds := telegramNextTextChunk_bounds format hne (by omega : 0 < limit)
  have hstart := backToBoundary_pos hvalid hne (n := min rest.length limit) (by omega)
  have hwhole := backToBoundary_whole hvalid hne (min rest.length limit)
  have hle := backToBoundary_le rest (min rest.length limit)
  have hchunk : telegramNextTextChunk format limit rest =
      halveChunk format limit rest rest.length (backToBoundary rest (min rest.length limit)) := by
    rw [telegramNextTextChunk, if_neg hne, telegramUtf8ChunkBoundary_eq hne (by omega), if_neg hstart]
  by_cases hhalves : ∃ m, Halves format limit rest (backToBoundary rest (min rest.length limit)) m
  · obtain ⟨m, hm⟩ := hhalves
    obtain ⟨-, -, hcut, hfits⟩ := hm.spec hvalid hne hwhole
    have hlen : telegramNextTextChunk format limit rest = m := by
      rw [hchunk]
      exact halveChunk_of_halves hne hm rest.length (by omega) (by omega)
    rw [hlen] at hbounds ⊢
    refine iff_of_true ⟨fun hnil => ?_, (utf8_take_iff hvalid m).mpr hcut, ?_, hfits⟩ hm
    · have hlength := congrArg List.length hnil
      rw [List.length_take, List.length_nil] at hlength
      omega
    · rw [List.length_take]
      omega
  · have hinside := halveChunk_of_not_halves hvalid hne hformat rest.length _ hstart (by omega) (by omega)
      hwhole (not_exists.mp hhalves)
    rw [← hchunk] at hinside
    refine iff_of_false (fun hgood => ?_) (not_exists.mp hhalves _)
    rw [(utf8_take_iff hvalid _).mp hgood.valid] at hinside
    cases hinside

end Chunk

/-! ## Result -/

section Result

variable {format : Bytes → Bytes} {limit : Nat} {message : TelegramMessage}

theorem sendChunk_chunk (drafts : TelegramDrafts) (message : TelegramMessage) (chunk : Bytes) :
    (sendChunk drafts message chunk).1.chunk = chunk := by
  unfold sendChunk
  split
  · rfl
  · rfl

/-- A round of the loop. -/
theorem sendLoop_succ (hlimit : 0 < limit) {rest : Bytes} (hne : rest ≠ []) (rounds : Nat)
    (drafts : TelegramDrafts) :
    sendLoop format limit message (rounds + 1) drafts rest =
      (sendLoop format limit message rounds
        (sendChunk drafts message (rest.take (telegramNextTextChunk format limit rest))).2
        (rest.drop (telegramNextTextChunk format limit rest))).map
          ((sendChunk drafts message (rest.take (telegramNextTextChunk format limit rest))).1 :: ·) := by
  have hbounds := telegramNextTextChunk_bounds format hne hlimit
  rw [sendLoop, if_neg hne]
  dsimp only
  rw [if_neg (by omega)]

variable (format message) in
/-- **The loop ends**, and its chunks make up the text, by induction on the length of the rest. -/
theorem sendLoop_ends (hlimit : 0 < limit) : ∀ (rounds : Nat) (drafts : TelegramDrafts) (rest : Bytes),
    rest.length ≤ rounds → ∃ requests, sendLoop format limit message rounds drafts rest = some requests ∧
      (requests.map (·.chunk)).flatten = rest := by
  intro rounds
  induction rounds with
  | zero =>
    intro drafts rest hrounds
    obtain rfl := List.eq_nil_of_length_eq_zero (Nat.eq_zero_of_le_zero hrounds)
    exact ⟨[], rfl, rfl⟩
  | succ rounds ih =>
    intro drafts rest hrounds
    by_cases hne : rest = []
    · subst hne
      exact ⟨[], rfl, rfl⟩
    · have hbounds := telegramNextTextChunk_bounds format hne hlimit
      have hlength : (rest.drop (telegramNextTextChunk format limit rest)).length ≤ rounds := by
        rw [List.length_drop]
        omega
      obtain ⟨requests, hloop, hwhole⟩ := ih
        (sendChunk drafts message (rest.take (telegramNextTextChunk format limit rest))).2 _ hlength
      refine ⟨_, by rw [sendLoop_succ hlimit hne, hloop, Option.map_some], ?_⟩
      rw [List.map_cons, List.flatten_cons, sendChunk_chunk, hwhole, List.take_append_drop]

/-- **The chunks are good** exactly if the text is divisible. -/
theorem sendLoop_good_iff (hlimit : 4 ≤ limit) (hformat : ∀ c, IsCodePoint c → (format c).length ≤ limit) :
    ∀ (rounds : Nat) (drafts : TelegramDrafts) (rest : Bytes) (requests : List TelegramRequest),
      strIsValidUtf8 rest = true → sendLoop format limit message rounds drafts rest = some requests →
      ((∀ request ∈ requests, GoodChunk format limit request.chunk) ↔ Divisible format limit rest) := by
  intro rounds
  induction rounds with
  | zero =>
    intro drafts rest requests _ hloop
    rw [sendLoop] at hloop
    split at hloop
    · next hnil =>
      obtain rfl := Option.some.inj hloop
      rw [hnil]
      exact iff_of_true (fun _ h => absurd h List.not_mem_nil) .done
    · cases hloop
  | succ rounds ih =>
    intro drafts rest requests hvalid hloop
    by_cases hne : rest = []
    · rw [sendLoop, if_pos hne] at hloop
      obtain rfl := Option.some.inj hloop
      rw [hne]
      exact iff_of_true (fun _ h => absurd h List.not_mem_nil) .done
    · rw [sendLoop_succ (by omega) hne] at hloop
      obtain ⟨later, hlater, rfl⟩ := Option.map_eq_some_iff.mp hloop
      have hgood := goodChunk_iff hvalid hne hlimit hformat
      have hbounds := telegramNextTextChunk_bounds format hne (by omega : 0 < limit)
      rw [List.forall_mem_cons, sendChunk_chunk]
      constructor
      · rintro ⟨hfirst, hrest⟩
        have hdrop : strIsValidUtf8 (rest.drop (telegramNextTextChunk format limit rest)) = true := by
          rw [← utf8_append hfirst.valid, List.take_append_drop]
          exact hvalid
        exact .chunk hne (hgood.mp hfirst) ((ih _ _ _ hdrop hlater).mp hrest)
      · intro hdivisible
        cases hdivisible with
        | done => exact absurd rfl hne
        | @chunk _ m _ halves next =>
          have hm : telegramNextTextChunk format limit rest = m := by
            have hstart := halves.ne_zero
            have hle := backToBoundary_le rest (min rest.length limit)
            rw [telegramNextTextChunk, if_neg hne, telegramUtf8ChunkBoundary_eq hne (by omega),
              if_neg hstart]
            exact halveChunk_of_halves hne halves rest.length (by omega) (by omega)
          rw [hm] at hgood hlater ⊢
          have hfirst := hgood.mpr halves
          have hdrop : strIsValidUtf8 (rest.drop m) = true := by
            rw [← utf8_append hfirst.valid, List.take_append_drop]
            exact hvalid
          exact ⟨hfirst, (ih _ _ _ hdrop hlater).mpr next⟩

/-- The limit is at least four bytes. -/
theorem telegramLimit_le {messageSplitBytes : Nat} (h : messageSplitBytes = 0 ∨ 4 ≤ messageSplitBytes) :
    4 ≤ telegramLimit messageSplitBytes := by
  unfold telegramLimit telegramTextSafeLimitBytes
  split
  · omega
  · omega

/-- **A text is sent whole** exactly if it is divisible. -/
theorem sentWhole_iff {messageSplitBytes : Nat} (drafts : TelegramDrafts)
    (hvalid : strIsValidUtf8 message.text = true) (hsplit : messageSplitBytes = 0 ∨ 4 ≤ messageSplitBytes)
    (hformat : ∀ c, IsCodePoint c → (format c).length ≤ telegramLimit messageSplitBytes) :
    SentWhole format (telegramLimit messageSplitBytes) drafts message ↔
      Divisible format (telegramLimit messageSplitBytes) message.text := by
  have hlimit := telegramLimit_le hsplit
  constructor
  · rintro ⟨rounds, requests, hloop, -, hgood⟩
    exact (sendLoop_good_iff hlimit hformat rounds drafts message.text requests hvalid hloop).mp hgood
  · intro hdivisible
    obtain ⟨requests, hloop, hwhole⟩ := sendLoop_ends format message
      (Nat.lt_of_lt_of_le (by decide) hlimit) message.text.length drafts message.text (Nat.le_refl _)
    refine ⟨_, requests, hloop, hwhole, ?_⟩
    exact (sendLoop_good_iff hlimit hformat _ drafts message.text requests hvalid hloop).mpr hdivisible

end Result

/-- A format that escapes `<`. -/
def escapeTag (text : Bytes) : Bytes := text.flatMap fun b => if b = chr '<' then str "&lt;" else [b]

theorem escapeTag_fits {c : Bytes} (h : IsCodePoint c) : (escapeTag c).length ≤ 5 := by
  obtain ⟨b, t, rfl⟩ := List.exists_cons_of_ne_nil h.ne_nil
  cases t with
  | nil =>
    rw [escapeTag, List.flatMap_singleton]
    split
    · decide
    · exact Nat.le_of_ble_eq_true rfl
  | cons d t =>
    -- no byte of a longer code point is ASCII
    have hhead : b ≠ chr '<' := by
      rintro rfl
      have hvalid := h.valid
      rw [utf8_one _ (by decide)] at hvalid
      exact absurd ((utf8_head hvalid).symm.trans (h.uncut 1 Nat.one_pos (Nat.succ_lt_succ (Nat.succ_pos _))))
        Bool.false_ne_true
    have hrest : ∀ x ∈ d :: t, x ≠ chr '<' := by
      rintro x hx rfl
      obtain ⟨i, hi, hget⟩ := List.mem_iff_getElem.mp hx
      have hinside := h.uncut (i + 1) (Nat.succ_pos i) (Nat.succ_lt_succ hi)
      rw [cutsInside, List.getElem?_cons_succ, List.getElem?_eq_getElem hi, hget] at hinside
      exact absurd hinside (by decide)
    have hsame : escapeTag (b :: d :: t) = b :: d :: t := by
      rw [escapeTag]
      have hplain : ∀ x ∈ b :: d :: t, (if x = chr '<' then str "&lt;" else [x]) = [x] := by
        intro x hx
        rcases List.mem_cons.mp hx with rfl | hx
        · exact if_neg hhead
        · exact if_neg (hrest x hx)
      rw [List.flatMap_congr hplain, List.flatMap_singleton']
    have hlength := h.length_le
    rw [hsame]
    omega

/-- Ten bytes with two tags and two long characters, which become sixteen. -/
def tagMessage : TelegramMessage :=
  { conversationId := str "1", text := str "ab<" ++ [0xC3, 0xA9] ++ str "<cd" ++ [0xC3, 0xA9] }

/-- Three chunks of eight bytes at most: the first is cut in front of a long character, the second behind `<`. -/
theorem sentWhole_tags : SentWhole escapeTag (telegramLimit 8) {} tagMessage := by
  have hvalid : strIsValidUtf8 tagMessage.text = true := by decide
  have hdivisible : Divisible escapeTag (telegramLimit 8) tagMessage.text :=
    .chunk (by decide) (.halve (by decide) (by decide) (.fits (by decide) (by decide)))
      (.chunk (by decide) (.halve (by decide) (by decide) (.fits (by decide) (by decide)))
        (.chunk (by decide) (.fits (by decide) (by decide)) .done))
  exact (sentWhole_iff {} hvalid (Or.inr (by decide)) fun c hc =>
    Nat.le_trans (escapeTag_fits hc) (by decide)).mpr hdivisible

/-- A smiling face and `<`. -/
def faceMessage : TelegramMessage := { conversationId := str "1", text := [0xF0, 0x9F, 0x98, 0x80, chr '<'] }

/-- **Half of the chunk is shorter than the face**: two bytes of it are sent. -/
theorem face_cut :
    ¬ ∀ (format : Bytes → Bytes) (messageSplitBytes : Nat) (drafts : TelegramDrafts)
      (message : TelegramMessage), strIsValidUtf8 message.text = true →
      (messageSplitBytes = 0 ∨ 4 ≤ messageSplitBytes) →
      (∀ c, IsCodePoint c → (format c).length ≤ telegramLimit messageSplitBytes) →
      SentWhole format (telegramLimit messageSplitBytes) drafts message := by
  intro hall
  obtain ⟨rounds, requests, hloop, -, hgood⟩ := hall escapeTag 5 {} faceMessage (by decide)
    (Or.inr (by decide)) fun c hc => escapeTag_fits hc
  have hlen : telegramNextTextChunk escapeTag (telegramLimit 5) faceMessage.text = 2 := by decide
  cases rounds with
  | zero => cases hloop
  | succ rounds =>
    rw [sendLoop_succ (by decide) (by decide), hlen] at hloop
    obtain ⟨later, -, rfl⟩ := Option.map_eq_some_iff.mp hloop
    have hfirst := (hgood _ List.mem_cons_self).valid
    rw [sendChunk_chunk] at hfirst
    exact absurd hfirst (by decide)

end SmolClaw.Channels
