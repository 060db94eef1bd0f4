/-
  The URLs of Telegram requests, as they are logged (`telegram_redact_url_for_log`,
  `src/channels/telegram.c`).

  1. **Program** — four functions write the URLs, the bot token behind `/bot`.  For the log one scan finds the
     last `@` of the authority and another one the first `/bot`, and the text is put together from what lies
     around the two.

  2. **Specification** — `Hides`: what is logged has neither the token in it nor the user information of the
     base URL.

  3. **Defect** — the first `/bot` of the text need not be the one in front of the token: in
     `https://bot.example.com` it is the host's, and the token is logged.

  4. **Result** — `hides_iff`: they are hidden exactly if the base has no `/bot` of its own, the `@` that is
     found is the one of the base, and neither of the two stands somewhere else by chance.
-/
import Mathlib.Data.List.DropRight
import SmolClaw.Core.Text
import SmolClaw.Core.Double
import SmolClaw.Lib.Infix
import SmolClaw.Lib.Percent
import SmolClaw.Lib.Separated
import SmolClaw.Net.Url

namespace SmolClaw.Channels

open Lib.Infix

/-! ## Program -/

/-- The base URL without the slashes at its end. -/
def trimmedBase (base : Bytes) : Bytes := base.rdropWhile (· == chr '/')

/-- `telegram_build_url` -/
def telegramBuildUrl (base token method : Bytes) : Bytes :=
  trimmedBase base ++ str "/bot" ++ token ++ str "/" ++ method

/-- `telegram_build_get_updates_url` -/
def telegramBuildGetUpdatesUrl (base token : Bytes) (pollTimeoutSeconds nextUpdateOffset : Int) : Bytes :=
  telegramBuildUrl base token (str "getUpdates") ++ str "?timeout=" ++ decimalInt pollTimeoutSeconds ++
    if 0 < nextUpdateOffset then str "&offset=" ++ decimalInt nextUpdateOffset else []

/-- `is_url_unreserved` -/
def isUrlUnreserved (ch : UInt8) : Bool :=
  Net.isAlnum ch || ch == chr '-' || ch == chr '_' || ch == chr '.' || ch == chr '~'

/-- `append_urlencoded`; a blank is `%20` either way. -/
def urlencoded (input : Bytes) : Bytes :=
  Lib.Percent.escape (chr '%') (fun ch => !isUrlUnreserved ch) hexUpperDigits input

/-- `telegram_build_get_file_url` -/
def telegramBuildGetFileUrl (base token fileId : Bytes) : Bytes :=
  telegramBuildUrl base token (str "getFile") ++ str "?file_id=" ++ urlencoded fileId

/-- `telegram_build_download_file_url` -/
def telegramBuildDownloadFileUrl (base token filePath : Bytes) : Bytes :=
  trimmedBase base ++ str "/file/bot" ++ token ++ str "/" ++ filePath

/-- A request, by the function that writes its URL. -/
inductive TelegramUrl where
  | method (name : Bytes)
  | getUpdates (pollTimeoutSeconds nextUpdateOffset : Int)
  | getFile (fileId : Bytes)
  | downloadFile (filePath : Bytes)

def TelegramUrl.build (base token : Bytes) : TelegramUrl → Bytes
  | .method name => telegramBuildUrl base token name
  | .getUpdates timeout offset => telegramBuildGetUpdatesUrl base token timeout offset
  | .getFile fileId => telegramBuildGetFileUrl base token fileId
  | .downloadFile filePath => telegramBuildDownloadFileUrl base token filePath

/-- `marker` -/
def marker : Bytes := str "[REDACTED]"

/-- What ends an authority, and the token. -/
def endsPart (ch : UInt8) : Bool := ch == chr '/' || ch == chr '?' || ch == chr '#'

/-- `authority_start`: behind the first `://`, or the start of the text. -/
def authorityStart (url : Bytes) : Nat :=
  match firstInfix (str "://") url with
  | some (before, _) => before.length + 3
  | none => 0

/-- The text between `authority_start` and `authority_end`. -/
def authority (url : Bytes) : Bytes := (url.drop (authorityStart url)).takeWhile fun ch => !endsPart ch

/-- `at`: the last `@` of the authority. -/
def lastAt (url : Bytes) : Option Nat :=
  (Lib.Separated.cut (chr '@') (authority url)).map fun parts => authorityStart url + parts.1.length

/-- `bot`: the first `/bot`. -/
def firstBot (url : Bytes) : Option Nat := (firstInfix (str "/bot") url).map (·.1.length)

/-- `telegram_redact_url_for_log`; `none` for a negative length. -/
def telegramRedactUrlForLog (url : Bytes) : Option Bytes := do
  let bot := (firstBot url).getD url.length
  let front ← match lastAt url with
    | some i =>
        if bot < i then none
        else some (url.take (authorityStart url) ++ marker ++ (url.drop i).take (bot - i))
    | none => some (url.take bot)
  match firstBot url with
  | some bot =>
      some (front ++ (str "/bot" ++ marker ++ (url.drop (bot + 4)).dropWhile fun ch => !endsPart ch))
  | none => some front

/-! ## Specification -/

/-- The user information of a URL: what stands in its authority before the last `@`. -/
def userInfo (url : Bytes) : Option Bytes := (Lib.Separated.cut (chr '@') (authority url)).map (·.1)

/-- **Hidden**: no length is negative, and neither the token nor the user information of the base URL is
    logged. -/
def Hides (base token url : Bytes) : Prop :=
  ∃ text, telegramRedactUrlForLog url = some text ∧ Free token text ∧
    ∀ info, userInfo base = some info → Free info text

/-- A bot token: at least eight characters, of letters, digits, `:`, `_` and `-`. -/
structure IsBotToken (token : Bytes) : Prop where
  length : 8 ≤ token.length
  chars : ∀ ch ∈ token, Net.isAlnum ch ∨ ch = chr ':' ∨ ch = chr '_' ∨ ch = chr '-'

namespace TelegramUrl

/-- The text in front of `/bot`. -/
def front (base : Bytes) : TelegramUrl → Bytes
  | .downloadFile _ => trimmedBase base ++ str "/file"
  | _ => trimmedBase base

/-- What every URL of the kind has behind the token. -/
def constantPart : TelegramUrl → Bytes
  | .method _ => []
  | .getUpdates _ _ => str "getUpdates?timeout="
  | .getFile _ => str "getFile?file_id="
  | .downloadFile _ => []

/-- What is different from URL to URL. -/
def variablePart : TelegramUrl → Bytes
  | .method name => name
  | .getUpdates timeout offset =>
      decimalInt timeout ++ if 0 < offset then str "&offset=" ++ decimalInt offset else []
  | .getFile fileId => urlencoded fileId
  | .downloadFile filePath => filePath

end TelegramUrl

/-- The URL around the user information and the token. -/
def around (base info : Bytes) (url : TelegramUrl) : Bytes :=
  base.take (authorityStart base) ++ marker ++ (url.front base).drop (authorityStart base + info.length) ++
    (str "/bot" ++ marker ++ chr '/' :: (url.constantPart ++ url.variablePart))

/-- **Hidable**: the base has no `/bot` of its own; the last `@` in the authority of the URL, if there is one,
    stands in the base, and there is one if the base has user information; the token is no part of the marker
    or of the constant text behind it, and the user information stands nowhere else in the URL. -/
structure Hidable (base token : Bytes) (url : TelegramUrl) : Prop where
  bot : Free (str "/bot") (trimmedBase base)
  inBase : ∀ i, lastAt (url.build base token) = some i → i < (trimmedBase base).length
  found : userInfo base ≠ none → lastAt (url.build base token) ≠ none
  token : token ≠ str "REDACTED" ∧ Free token url.constantPart
  info : ∀ info, userInfo base = some info → Free info (around base info url)

/-! ## The two scans -/

theorem trimmedBase_append (base : Bytes) :
    ∃ slashes, base = trimmedBase base ++ slashes ∧ ∀ ch ∈ slashes, ch = chr '/' := by
  refine ⟨base.rtakeWhile (· == chr '/'), List.rdropWhile_append_rtakeWhile.symm, fun ch hch => ?_⟩
  have hslash := List.mem_rtakeWhile_imp (p := fun ch => ch == chr '/') hch
  exact eq_of_beq hslash

theorem trimmedBase_inside (base : Bytes) : trimmedBase base <:+: base :=
  (List.rdropWhile_prefix _ _).isInfix

theorem TelegramUrl.front_eq (base : Bytes) (url : TelegramUrl) :
    url.front base = trimmedBase base ∨ url.front base = trimmedBase base ++ chr '/' :: str "file" := by
  cases url with
  | downloadFile filePath => exact Or.inr rfl
  | method | getUpdates | getFile => exact Or.inl rfl

/-- A URL in its parts. -/
theorem TelegramUrl.build_eq (base token : Bytes) (url : TelegramUrl) :
    url.build base token = url.front base ++
      (str "/bot" ++ (token ++ chr '/' :: (url.constantPart ++ url.variablePart))) := by
  have hconst : ∀ s : Bytes, str "/file/bot" ++ s = str "/file" ++ (str "/bot" ++ s) := fun _ => rfl
  have hupdates : ∀ s : Bytes, str "getUpdates" ++ (str "?timeout=" ++ s) = str "getUpdates?timeout=" ++ s :=
    fun _ => rfl
  have hfile : ∀ s : Bytes, str "getFile" ++ (str "?file_id=" ++ s) = str "getFile?file_id=" ++ s :=
    fun _ => rfl
  have hslash : ∀ s : Bytes, str "/" ++ s = chr '/' :: s := fun _ => rfl
  cases url with
  | method name =>
    simp only [build, telegramBuildUrl, front, constantPart, variablePart, List.append_assoc, hslash,
      List.nil_append]
  | getUpdates timeout offset =>
    simp only [build, telegramBuildGetUpdatesUrl, telegramBuildUrl, front, constantPart, variablePart,
      List.append_assoc, hslash, List.cons_append, hupdates]
  | getFile fileId =>
    simp only [build, telegramBuildGetFileUrl, telegramBuildUrl, front, constantPart, variablePart,
      List.append_assoc, hslash, List.cons_append, hfile]
  | downloadFile filePath =>
    simp only [build, telegramBuildDownloadFileUrl, front, constantPart, variablePart,
      List.append_assoc, hslash, hconst, List.nil_append]

theorem IsBotToken.not_mem {token : Bytes} (h : IsBotToken token) {ch : UInt8}
    (hch : ¬ (Net.isAlnum ch ∨ ch = chr ':' ∨ ch = chr '_' ∨ ch = chr '-')) : ch ∉ token :=
  fun hmem => hch (h.chars ch hmem)

theorem IsBotToken.not_ends {token : Bytes} (h : IsBotToken token) : ∀ ch ∈ token, (!endsPart ch) = true := by
  intro ch hch
  cases hends : endsPart ch with
  | false => rfl
  | true =>
    rw [endsPart, Bool.or_eq_true, Bool.or_eq_true, beq_iff_eq, beq_iff_eq, beq_iff_eq] at hends
    rcases hends with (rfl | rfl) | rfl
    · exact absurd hch (h.not_mem (by decide))
    · exact absurd hch (h.not_mem (by decide))
    · exact absurd hch (h.not_mem (by decide))

/-- The base and a slash are in front of every token. -/
theorem TelegramUrl.build_append (base token : Bytes) (url : TelegramUrl) :
    ∃ z, url.build base token = trimmedBase base ++ chr '/' :: z ∧ token <:+: z := by
  have hmem : ∀ w s : Bytes, token <:+: w ++ (token ++ s) := fun w s => ⟨w, s, List.append_assoc _ _ _⟩
  rw [url.build_eq base token]
  rcases url.front_eq base with hfront | hfront
  · exact ⟨_, by rw [hfront]; rfl, hmem (str "bot") _⟩
  · refine ⟨str "file" ++ (str "/bot" ++ (token ++ chr '/' :: (url.constantPart ++ url.variablePart))),
      ?_, ?_⟩
    · rw [hfront, List.append_assoc]
      rfl
    · exact hmem (str "file/bot") _

/-- The first `/bot` is the one in front of the token, if the base has none. -/
theorem firstBot_build {base : Bytes} (hfree : Free (str "/bot") (trimmedBase base)) (token : Bytes)
    (url : TelegramUrl) : firstBot (url.build base token) = some (url.front base).length := by
  have hfront : Free (str "/bot") (url.front base ++ (str "/bot").dropLast) := by
    have htail : Free (str "/bot") (str "/bo") := by decide
    have hfile : Free (str "/bot") (chr '/' :: (str "file" ++ str "/bo")) := by decide
    rcases url.front_eq base with h | h
    · rw [h]
      exact Free.append_head (by decide) hfree htail
    · rw [h, List.append_assoc]
      exact Free.append_head (by decide) hfree hfile
  rw [firstBot, url.build_eq base token, firstInfix_append (by decide) hfront]
  rfl

/-- The `@` that is found. -/
theorem lastAt_spec {url : Bytes} {i : Nat} (h : lastAt url = some i) :
    ∃ info rest, Lib.Separated.cut (chr '@') (authority url) = some (info, rest) ∧
      i = authorityStart url + info.length ∧ ∃ z, url.drop i = chr '@' :: z := by
  obtain ⟨⟨info, rest⟩, hcut, rfl⟩ := Option.map_eq_some_iff.mp h
  refine ⟨info, rest, hcut, rfl, ?_⟩
  have hsplit := (Lib.Separated.cut_eq_some.mp hcut).1
  obtain ⟨behind, hbehind⟩ : authority url <+: url.drop (authorityStart url) := List.takeWhile_prefix _
  refine ⟨rest ++ behind, ?_⟩
  rw [← List.drop_drop, ← hbehind, hsplit, List.append_assoc, List.drop_left]
  rfl

/-- What is not found in a text may be found across its end, or behind it. -/
theorem start_beyond {t u before rest : Bytes} (hnone : firstInfix (str "://") t = none)
    (hsome : firstInfix (str "://") (t ++ u) = some (before, rest)) : t.length < before.length + 3 := by
  have hfree := (firstInfix_eq_none (by decide)).mp hnone
  obtain ⟨hsplit, ⟨more, rfl⟩, -⟩ := firstInfix_eq_some (by decide) hsome
  by_contra hinside
  have hlong : before ++ str "://" <+: t := by
    have hwhole : before ++ str "://" <+: t ++ u := ⟨more, by rw [hsplit, List.append_assoc]⟩
    refine List.prefix_of_prefix_length_le hwhole (List.prefix_append t u) ?_
    rw [List.length_append]
    show before.length + 3 ≤ t.length
    omega
  exact hfree ((List.suffix_append before _).isInfix.trans hlong.isInfix)

/-- **The authority of a text is that of the text before a slash**, if `://` is found there or nowhere. -/
theorem authority_append {t u : Bytes}
    (h : firstInfix (str "://") t ≠ none ∨ firstInfix (str "://") (t ++ chr '/' :: u) = none) :
    authorityStart (t ++ chr '/' :: u) = authorityStart t ∧ authority (t ++ chr '/' :: u) = authority t := by
  have hstop : ∀ s : Bytes, (s ++ chr '/' :: u).takeWhile (fun ch => !endsPart ch) =
      s.takeWhile fun ch => !endsPart ch := by
    intro s
    rw [List.takeWhile_append]
    split
    · next hall =>
      rw [List.takeWhile_cons_of_neg (by decide), List.append_nil]
      exact ((List.takeWhile_prefix _).eq_of_length hall).symm
    · rfl
  have hstart : authorityStart (t ++ chr '/' :: u) = authorityStart t ∧ authorityStart t ≤ t.length := by
    cases hfind : firstInfix (str "://") t with
    | some parts =>
      obtain ⟨before, rest⟩ := parts
      obtain ⟨hsplit, ⟨more, rfl⟩, -⟩ := firstInfix_eq_some (by decide) hfind
      rw [authorityStart, authorityStart, firstInfix_append_right (by decide) hfind, hfind]
      refine ⟨rfl, ?_⟩
      rw [hsplit, List.length_append, List.length_append]
      show before.length + 3 ≤ before.length + (3 + more.length)
      omega
    | none =>
      rcases h with h | h
      · exact absurd hfind h
      · rw [authorityStart, authorityStart, h, hfind]
        exact ⟨rfl, Nat.zero_le _⟩
  refine ⟨hstart.1, ?_⟩
  rw [authority, hstart.1, List.drop_append_of_le_length hstart.2, hstop, authority]

/-- **The user information of the base** is that of the base without its slashes. -/
theorem userInfo_trimmed {base info : Bytes} (h : userInfo base = some info) :
    authorityStart base = authorityStart (trimmedBase base) ∧
      authority base = authority (trimmedBase base) := by
  obtain ⟨slashes, hbase, hslashes⟩ := trimmedBase_append base
  cases hs : slashes with
  | nil =>
    rw [hs, List.append_nil] at hbase
    rw [← hbase]
    exact ⟨rfl, rfl⟩
  | cons slash more =>
    obtain rfl : slash = chr '/' := hslashes slash (by rw [hs]; exact List.mem_cons_self)
    rw [hs] at hbase
    by_cases hfound : firstInfix (str "://") (trimmedBase base) ≠ none ∨
        firstInfix (str "://") (trimmedBase base ++ chr '/' :: more) = none
    · have happend := authority_append hfound
      rw [← hbase] at happend
      exact happend
    · -- an authority behind the slashes would be empty
      rw [not_or, not_not, ← hbase] at hfound
      obtain ⟨hnone, hsome⟩ := hfound
      obtain ⟨⟨before, rest⟩, hfind⟩ := Option.ne_none_iff_exists'.mp hsome
      have hbeyond := start_beyond hnone (u := chr '/' :: more) (hbase ▸ hfind)
      have hempty : authority base = [] := by
        have hstart : authorityStart base = before.length + 3 := by
          rw [authorityStart, hfind]
        rw [authority, hstart, List.takeWhile_eq_nil_iff]
        intro hpos
        have hmem : (base.drop (before.length + 3))[0] ∈ chr '/' :: more := by
          have hsuffix : base.drop (before.length + 3) <:+ chr '/' :: more := by
            rw [hbase, List.drop_append, List.drop_eq_nil_of_le (Nat.le_of_lt hbeyond), List.nil_append]
            exact List.drop_suffix _ _
          exact hsuffix.subset (List.getElem_mem hpos)
        have hslash := hslashes (base.drop (before.length + 3))[0] (hs ▸ hmem)
        show ¬ (!endsPart (base.drop (before.length + 3))[0]) = true
        rw [hslash]
        decide
      rw [userInfo, hempty] at h
      cases h

/-- The user information of the base lies in it. -/
theorem userInfo_inside {base info : Bytes} (h : userInfo base = some info) : info <:+: trimmedBase base := by
  have hinfo := h
  rw [userInfo, (userInfo_trimmed h).2] at hinfo
  obtain ⟨⟨before, rest⟩, hcut, rfl⟩ := Option.map_eq_some_iff.mp hinfo
  have hauthority : before <+: authority (trimmedBase base) :=
    ⟨chr '@' :: rest, (Lib.Separated.cut_eq_some.mp hcut).1.symm⟩
  exact hauthority.isInfix.trans ((List.takeWhile_prefix _).isInfix.trans (List.drop_suffix _ _).isInfix)

/-- **The two ways to find the user information agree** on what stands in the base. -/
theorem lastAt_eq {base info u : Bytes} {i : Nat} (hinfo : userInfo base = some info)
    (hlast : lastAt (trimmedBase base ++ chr '/' :: u) = some i) (hin : i < (trimmedBase base).length) :
    authorityStart (trimmedBase base ++ chr '/' :: u) = authorityStart base ∧
      i = authorityStart base + info.length := by
  obtain ⟨hstart, hauthority⟩ := userInfo_trimmed hinfo
  obtain ⟨info', rest, hcut, rfl, -⟩ := lastAt_spec hlast
  by_cases hfound : firstInfix (str "://") (trimmedBase base) ≠ none ∨
      firstInfix (str "://") (trimmedBase base ++ chr '/' :: u) = none
  · obtain ⟨hstart', hauthority'⟩ := authority_append hfound
    rw [hauthority', ← hauthority] at hcut
    rw [userInfo, hcut] at hinfo
    obtain rfl : info' = info := Option.some.inj hinfo
    rw [hstart', hstart]
    exact ⟨rfl, rfl⟩
  · -- an authority that starts behind the base has its `@` there
    rw [not_or, not_not] at hfound
    obtain ⟨⟨before, after⟩, hfind⟩ := Option.ne_none_iff_exists'.mp hfound.2
    have hbeyond := start_beyond hfound.1 hfind
    have hstart' : authorityStart (trimmedBase base ++ chr '/' :: u) = before.length + 3 := by
      rw [authorityStart, hfind]
    omega

/-- An `@` that is found behind the base stands behind the token. -/
theorem lastAt_behind {base token : Bytes} {url : TelegramUrl} {i : Nat}
    (hlast : lastAt (url.build base token) = some i) (hout : (trimmedBase base).length ≤ i) :
    (url.front base).length < i := by
  obtain ⟨-, -, -, -, z, hdrop⟩ := lastAt_spec hlast
  obtain ⟨w, hfront, hw⟩ : ∃ w, url.front base = trimmedBase base ++ w ∧ chr '@' ∉ w := by
    rcases url.front_eq base with h | h
    · exact ⟨[], by rw [h, List.append_nil], List.not_mem_nil⟩
    · exact ⟨_, h, by decide⟩
  by_contra hinside
  rw [url.build_eq base token, hfront, List.append_assoc, List.drop_append,
    List.drop_eq_nil_of_le hout, List.nil_append] at hdrop
  rw [hfront, List.length_append] at hinside
  have hmem : chr '@' ∈ w ++ str "/bot" := by
    have hsplit : w ++ (str "/bot" ++ (token ++ chr '/' :: (url.constantPart ++ url.variablePart))) =
        (w ++ str "/bot") ++ (token ++ chr '/' :: (url.constantPart ++ url.variablePart)) := by
      rw [List.append_assoc]
    rw [hsplit, List.drop_append_of_le_length (by rw [List.length_append]; omega)] at hdrop
    have hshort : (w ++ str "/bot").drop (i - (trimmedBase base).length) ≠ [] := by
      intro hnil
      have hlength := congrArg List.length hnil
      rw [List.length_drop, List.length_append, List.length_nil, show (str "/bot").length = 4 by decide]
        at hlength
      omega
    obtain ⟨ch, more, hmore⟩ := List.exists_cons_of_ne_nil hshort
    rw [hmore, List.cons_append] at hdrop
    obtain ⟨rfl, -⟩ := List.cons.inj hdrop
    exact List.mem_of_mem_drop (hmore ▸ List.mem_cons_self)
  rcases List.mem_append.mp hmem with hmem | hmem
  · exact hw hmem
  · exact absurd hmem (by decide)

/-! ## What is logged -/

section Logged

variable {base token : Bytes} {url : TelegramUrl}

/-- What the function puts in front of `/bot`. -/
def loggedFront (text : Bytes) (bot : Nat) : Option Bytes :=
  match lastAt text with
  | some i =>
      if bot < i then none
      else some (text.take (authorityStart text) ++ marker ++ (text.drop i).take (bot - i))
  | none => some (text.take bot)

/-- Behind `/bot`, everything up to the end of the token is replaced. -/
theorem redact_of_firstBot {text : Bytes} {bot : Nat} (h : firstBot text = some bot) :
    telegramRedactUrlForLog text = (loggedFront text bot).map
      (· ++ (str "/bot" ++ marker ++ (text.drop (bot + 4)).dropWhile fun ch => !endsPart ch)) := by
  rw [telegramRedactUrlForLog, h, Option.getD_some]
  unfold loggedFront
  cases lastAt text with
  | none => rfl
  | some i =>
    dsimp only
    split
    · rfl
    · rfl

/-- **A `/bot` in the base** shows the token. -/
theorem shown_of_bot (hbot : ¬ Free (str "/bot") (trimmedBase base)) :
    ¬ Hides base token (url.build base token) := by
  rintro ⟨text, htext, hfree, -⟩
  obtain ⟨⟨before, rest⟩, hfind⟩ := Option.ne_none_iff_exists'.mp
    (fun h => hbot ((firstInfix_eq_none (by decide)).mp h))
  obtain ⟨z, hbuild, hz⟩ := url.build_append base token
  have hfound := firstInfix_append_right (by decide) hfind (chr '/' :: z)
  obtain ⟨hsplit, ⟨more, rfl⟩, -⟩ := firstInfix_eq_some (by decide) hfind
  rw [← hbuild] at hfound
  have hfirst : firstBot (url.build base token) = some before.length := by
    rw [firstBot, hfound]
    rfl
  rw [redact_of_firstBot hfirst] at htext
  obtain ⟨front, -, rfl⟩ := Option.map_eq_some_iff.mp htext
  -- what is left behind the first `/bot` ends with the token and what is behind it
  have hdrop : (url.build base token).drop (before.length + 4) = more ++ chr '/' :: z := by
    rw [hbuild, hsplit, ← List.drop_drop, List.append_assoc, List.drop_left]
    rfl
  have hsuffix : chr '/' :: z <:+ (more ++ chr '/' :: z).dropWhile fun ch => !endsPart ch := by
    rw [List.dropWhile_append]
    split
    · rw [List.dropWhile_cons_of_neg (by decide)]
    · exact List.suffix_append _ _
  rw [hdrop] at hfree
  refine hfree (hz.trans ?_)
  refine ((List.suffix_cons (chr '/') z).trans (hsuffix.trans ?_)).isInfix
  exact (List.suffix_append _ _).trans (List.suffix_append _ _)

/-- The rest of the URL, with the marker for the token. -/
theorem drop_build (htoken : IsBotToken token) :
    ((url.build base token).drop ((url.front base).length + 4)).dropWhile (fun ch => !endsPart ch) =
      chr '/' :: (url.constantPart ++ url.variablePart) := by
  have hdrop : (url.build base token).drop ((url.front base).length + 4) =
      token ++ chr '/' :: (url.constantPart ++ url.variablePart) := by
    rw [url.build_eq base token, ← List.drop_drop, List.drop_left]
    rfl
  rw [hdrop, List.dropWhile_append_of_pos htoken.not_ends, List.dropWhile_cons_of_neg (by decide)]

/-- **What is logged** of a base without `/bot`. -/
theorem redact_build (htoken : IsBotToken token) (hbot : Free (str "/bot") (trimmedBase base)) :
    telegramRedactUrlForLog (url.build base token) =
      (loggedFront (url.build base token) (url.front base).length).map
        (· ++ (str "/bot" ++ marker ++ chr '/' :: (url.constantPart ++ url.variablePart))) := by
  rw [redact_of_firstBot (firstBot_build hbot token url), drop_build htoken]

/-! ## The token -/

theorem IsBotToken.ne_nil (htoken : IsBotToken token) : token ≠ [] := by
  rintro rfl
  exact absurd htoken.length (by decide)

theorem IsBotToken.free_of_short (htoken : IsBotToken token) {s : Bytes} (hs : s.length < 8) :
    Free token s := by
  intro h
  have hlength := h.length_le
  have hlong := htoken.length
  omega

/-- What stands behind the marker is free of the token exactly if the constant text in it is. -/
theorem free_tail_iff (htoken : IsBotToken token) (hvariable : Free token url.variablePart) :
    Free token (url.constantPart ++ url.variablePart) ↔ Free token url.constantPart := by
  have hequals : ∀ s v : Bytes, Free token v →
      (Free token (s ++ chr '=' :: v) ↔ Free token (s ++ [chr '='])) := by
    intro s v hv
    have hnot : chr '=' ∉ token := htoken.not_mem (by decide)
    constructor
    · intro h hin
      exact h (hin.trans ⟨[], v, by simp⟩)
    · intro h
      exact Free.append_cons hnot (fun hin => h (hin.trans (List.prefix_append s _).isInfix)) hv
  cases url with
  | method name => exact iff_of_true hvariable (Free.nil htoken.ne_nil)
  | downloadFile filePath => exact iff_of_true hvariable (Free.nil htoken.ne_nil)
  | getUpdates timeout offset => exact hequals (str "getUpdates?timeout") _ hvariable
  | getFile fileId => exact hequals (str "getFile?file_id") _ hvariable

/-- **Around the marker** the token is not made. -/
theorem free_marker (htoken : IsBotToken token) (hmarker : token ≠ str "REDACTED") {a b : Bytes}
    (ha : Free token a) (hb : Free token b) : Free token (a ++ (marker ++ b)) := by
  have hword : Free token (str "REDACTED") := by
    intro h
    have hlong := htoken.length
    exact hmarker (h.eq_of_length_le hlong)
  have hclose : Free token (str "REDACTED" ++ chr ']' :: b) :=
    Free.append_cons (htoken.not_mem (by decide)) hword hb
  exact Free.append_cons (htoken.not_mem (by decide)) ha hclose

/-- The text behind the base, with the marker for the token. -/
theorem free_behind (htoken : IsBotToken token) (hmarker : token ≠ str "REDACTED") {a : Bytes}
    (ha : Free token a) (htail : Free token (url.constantPart ++ url.variablePart)) :
    Free token (a ++ (str "/bot" ++ marker ++ chr '/' :: (url.constantPart ++ url.variablePart))) := by
  have hslash : Free token (chr '/' :: (url.constantPart ++ url.variablePart)) :=
    Free.cons htoken.ne_nil (htoken.not_mem (by decide)) htail
  have hbot : Free token (str "bot" ++ (marker ++ chr '/' :: (url.constantPart ++ url.variablePart))) :=
    free_marker htoken hmarker (htoken.free_of_short (by decide)) hslash
  exact Free.append_cons (htoken.not_mem (by decide)) ha hbot

theorem free_front (htoken : IsBotToken token) (hbase : Free token base) : Free token (url.front base) := by
  have htrimmed : Free token (trimmedBase base) := fun h => hbase (h.trans (trimmedBase_inside base))
  rcases url.front_eq base with h | h
  · rw [h]
    exact htrimmed
  · rw [h]
    exact Free.append_cons (htoken.not_mem (by decide)) htrimmed (htoken.free_of_short (by decide))

/-! ## Result -/

/-- The front part that is logged, when the `@` that is found stands in the base. -/
theorem loggedFront_eq (hin : ∀ i, lastAt (url.build base token) = some i → i < (trimmedBase base).length) :
    loggedFront (url.build base token) (url.front base).length =
      some (match lastAt (url.build base token) with
        | some i =>
            (trimmedBase base).take (authorityStart (url.build base token)) ++ marker ++
              (url.front base).drop i
        | none => url.front base) := by
  have hlong : (trimmedBase base).length ≤ (url.front base).length := by
    rcases url.front_eq base with h | h
    · rw [h]
    · rw [h, List.length_append]
      omega
  rw [loggedFront]
  cases hlast : lastAt (url.build base token) with
  | none =>
    dsimp only
    rw [url.build_eq base token, List.take_left]
  | some i =>
    have hi := hin i hlast
    obtain ⟨info, -, -, hstart, -⟩ := lastAt_spec hlast
    obtain ⟨z, hbuild, -⟩ := url.build_append base token
    have htake : (url.build base token).take (authorityStart (url.build base token)) =
        (trimmedBase base).take (authorityStart (url.build base token)) := by
      conv => lhs; arg 2; rw [hbuild]
      exact List.take_append_of_le_length (by omega)
    have hdrop : ((url.build base token).drop i).take ((url.front base).length - i) =
        (url.front base).drop i := by
      rw [url.build_eq base token, List.drop_append_of_le_length (by omega),
        List.take_append_of_le_length (by rw [List.length_drop]),
        List.take_of_length_le (by rw [List.length_drop])]
    dsimp only
    rw [if_neg (by omega), htake, hdrop]

/-- With user information in the base, this is the URL around it. -/
theorem logged_eq_around {info : Bytes} {i : Nat} (hinfo : userInfo base = some info)
    (hlast : lastAt (url.build base token) = some i) (hi : i < (trimmedBase base).length) :
    (trimmedBase base).take (authorityStart (url.build base token)) ++ marker ++ (url.front base).drop i ++
        (str "/bot" ++ marker ++ chr '/' :: (url.constantPart ++ url.variablePart)) =
      around base info url := by
  obtain ⟨z, hbuild, -⟩ := url.build_append base token
  rw [hbuild] at hlast
  obtain ⟨hstart, rfl⟩ := lastAt_eq hinfo hlast hi
  obtain ⟨slashes, hsplit, -⟩ := trimmedBase_append base
  have htake : base.take (authorityStart base) = (trimmedBase base).take (authorityStart base) := by
    conv => lhs; arg 2; rw [hsplit]
    exact List.take_append_of_le_length (by omega)
  rw [around, hbuild, hstart, htake]

/-- **Token and user information are hidden** exactly if they can be. -/
theorem hides_iff (htoken : IsBotToken token) (hbase : Free token base)
    (hvariable : Free token url.variablePart) :
    Hides base token (url.build base token) ↔ Hidable base token url := by
  constructor
  · intro hhides
    have hbot : Free (str "/bot") (trimmedBase base) := by
      by_contra hbot
      exact shown_of_bot hbot hhides
    obtain ⟨text, htext, hfree, hinfo⟩ := hhides
    rw [redact_build htoken hbot] at htext
    have hin : ∀ i, lastAt (url.build base token) = some i → i < (trimmedBase base).length := by
      intro i hlast
      by_contra hout
      have hbehind := lastAt_behind hlast (Nat.le_of_not_lt hout)
      rw [loggedFront, hlast] at htext
      dsimp only at htext
      rw [if_pos hbehind] at htext
      cases htext
    rw [loggedFront_eq hin, Option.map_some] at htext
    obtain rfl := Option.some.inj htext
    have hbehind : ∀ s : Bytes,
        s <:+: str "/bot" ++ marker ++ chr '/' :: (url.constantPart ++ url.variablePart) → Free token s :=
      fun s hs h => hfree (h.trans (hs.trans (List.suffix_append _ _).isInfix))
    have hfound : userInfo base ≠ none → lastAt (url.build base token) ≠ none := by
      intro hsome hnone
      obtain ⟨info, hbaseinfo⟩ := Option.ne_none_iff_exists'.mp hsome
      refine hinfo info hbaseinfo ?_
      rw [hnone]
      have hfront : trimmedBase base <:+: url.front base := by
        rcases url.front_eq base with h | h
        · rw [h]
        · rw [h]
          exact (List.prefix_append _ _).isInfix
      exact (userInfo_inside hbaseinfo).trans (hfront.trans (List.prefix_append _ _).isInfix)
    refine ⟨hbot, hin, hfound, ⟨?_, ?_⟩, fun info hbaseinfo => ?_⟩
    · rintro rfl
      exact hbehind (str "REDACTED")
        ⟨str "/bot[", chr ']' :: chr '/' :: (url.constantPart ++ url.variablePart), rfl⟩ (List.infix_refl _)
    · refine (free_tail_iff htoken hvariable).mp (hbehind _ ?_)
      exact ((List.suffix_cons _ _).trans (List.suffix_append _ _)).isInfix
    · obtain ⟨i, hlast⟩ := Option.ne_none_iff_exists'.mp
        (hfound (by rw [hbaseinfo]; exact Option.some_ne_none info))
      have hlogged := hinfo info hbaseinfo
      rw [hlast] at hlogged
      rw [← logged_eq_around hbaseinfo hlast (hin i hlast)]
      exact hlogged
  · intro h
    have htail := (free_tail_iff htoken hvariable).mpr h.token.2
    have hfront : Free token (url.front base) := free_front htoken hbase
    have htrimmed : Free token (trimmedBase base) := fun hin => hbase (hin.trans (trimmedBase_inside base))
    refine ⟨_, by rw [redact_build htoken h.bot, loggedFront_eq h.inBase]; rfl, ?_, fun info hinfo => ?_⟩
    · refine free_behind htoken h.token.1 ?_ htail
      split
      · next i hlast =>
        rw [List.append_assoc]
        refine free_marker htoken h.token.1 (fun hin => htrimmed ?_) (fun hin => hfront ?_)
        · exact hin.trans (List.take_prefix _ _).isInfix
        · exact hin.trans (List.drop_suffix _ _).isInfix
      · exact hfront
    · obtain ⟨i, hlast⟩ := Option.ne_none_iff_exists'.mp
        (h.found (by rw [hinfo]; exact Option.some_ne_none info))
      dsimp only
      rw [hlast]
      have haround := h.info info hinfo
      rw [← logged_eq_around hinfo hlast (h.inBase i hlast)] at haround
      exact haround

end Logged

/-- A base with user information and a token. -/
theorem hides_example :
    Hides (str "https://me:pw@api.example.org/") (str "12345678:AAHr")
        ((TelegramUrl.getUpdates 30 7).build (str "https://me:pw@api.example.org/") (str "12345678:AAHr")) ↔
      Hidable (str "https://me:pw@api.example.org/") (str "12345678:AAHr") (.getUpdates 30 7) :=
  hides_iff ⟨by decide, bytes_forall (by decide)⟩ (by decide) (by decide)

/-- **A host that begins with `bot`**: its name is taken for the token. -/
theorem bot_host_logged :
    ¬ ∀ (base token : Bytes) (url : TelegramUrl), IsBotToken token → Free token base →
      Free token url.variablePart → Hides base token (url.build base token) := by
  intro hall
  obtain ⟨text, htext, hfree, -⟩ := hall (str "https://bot.example.com") (str "12345678")
    (.method (str "getMe")) ⟨by decide, bytes_forall (by decide)⟩ (by decide) (by decide)
  have hlogged : telegramRedactUrlForLog
      ((TelegramUrl.method (str "getMe")).build (str "https://bot.example.com") (str "12345678")) =
      some (str "https://bot[REDACTED]/bot12345678/getMe") := by
    decide
  obtain rfl := Option.some.inj (htext.symm.trans hlogged)
  exact absurd hfree (by decide)

end SmolClaw.Channels
