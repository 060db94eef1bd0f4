/-
  The shell tool's two command checks against what the shell then runs (`src/security/policy.c`,
  `src/tools/shell.c`).

  1. **Program** — before `/bin/sh -c command`, two validators each take ONE word of the raw text:
     `validateShellPolicy` cuts it at blanks and line ends, `validateShellCommand` also at `;` and
     `|`, and both compare what stands after its last slash with their forbidden and allowed lists.
     The configured allowlist additionally refuses text with shell control characters; no other list
     does.

  2. **Specification** — the shell splits the text at `;`, `|`, `&` and line ends, and runs for each
     piece the first word that is no `NAME=value`.  The lists COVER a command when no accepting
     policy and configuration lets a command through whose name is forbidden, or not allowed.

  3. **Result** — they cover a text exactly when every command it runs has the name both validators
     took from its first word (`listsCover_iff`): lists with a single name tell any other name from
     that one.
-/
import SmolClaw.Json.Text
import SmolClaw.Lib.Separated
import SmolClaw.Security.Policy

namespace SmolClaw.Shell

open SmolClaw.Security

/-! ## What both validators share -/

/-- The `needles` of `command_contains_danger`. -/
def dangerNeedles : List Bytes :=
  ["rm -rf /", "mkfs", "shutdown", "reboot", ":()\x7b", "dd if=", ">/dev/"].map str

/-- `command_contains_danger`, the same text in both files -/
def commandContainsDanger (command : Bytes) : Bool :=
  dangerNeedles.any fun needle => decide (needle <:+: command)

def isBlank (c : UInt8) : Bool := c == chr ' ' || c == chr '\t'

/-- The word at the start of a text: blanks are skipped, then everything up to a stop. -/
def leadingWord (stop : UInt8 → Bool) (command : Bytes) : Bytes :=
  (command.dropWhile isBlank).takeWhile fun c => !stop c

/-- What stands after the last slash: the loop that sets `slash = i + 1` at every slash. -/
def commandName (word : Bytes) : Bytes :=
  word.foldl (fun name c => if c = chr '/' then [] else name ++ [c]) []

/-! ## `validate_shell_policy` -/

/-- The bytes that end the policy's word. -/
def policyStop (c : UInt8) : Bool := isBlank c || c == chr '\n' || c == chr '\r'

/-- `command_basename` of `policy.c`: a word that ends in a slash has none. -/
def policyCommandBasename (command : Bytes) : Res Bytes :=
  if command = [] then Status.invalidArgument "sc.security.shell_command_invalid"
  else if leadingWord policyStop command = [] then
    Status.invalidArgument "sc.security.shell_command_invalid"
  else if commandName (leadingWord policyStop command) = [] then
    Status.invalidArgument "sc.security.shell_command_invalid"
  else .ok (commandName (leadingWord policyStop command))

/-- `validate_shell_policy` -/
def validateShellPolicy (policy : SecurityPolicy) (command : Bytes) : Res Unit :=
  if command = [] then Status.invalidArgument "sc.security.shell_command_invalid"
  else if commandContainsDanger command then
    Status.securityDenied "sc.security.shell_command_denied"
  else
    match policyCommandBasename command with
    | .error e => .error e
    | .ok basename =>
        if listContains policy.forbiddenCommands basename then
          Status.securityDenied "sc.security.shell_command_forbidden"
        else if 0 < policy.allowedCommands.length ∧
            !listContains policy.allowedCommands basename then
          Status.securityDenied "sc.security.shell_command_not_allowed"
        else .ok ()

/-! ## `validate_shell_command` -/

/-- `sc_config` as the tool sees it: the text `sc_config_get_prop` returns for a path, if it has
    one. -/
abbrev Config := Bytes → Option Bytes

def forbiddenCommandsPath : Bytes := str "autonomy.forbidden_commands"
def allowedCommandsPath : Bytes := str "autonomy.allowed_commands"

/-- `sc_config_get_prop`, failing when the tool has no configuration -/
def configGetProp (config : Option Config) (path : Bytes) : Option Bytes :=
  match config with
  | some get => get path
  | none => none

/-- The strings of a JSON array; none when the text is no array. -/
def jsonStrings (raw : Bytes) : List Bytes :=
  match jsonParse raw with
  | .ok (.array items) => items.filterMap fun item => Json.asStr (some item)
  | _ => []

/-- `json_array_contains` -/
def jsonArrayContains (raw value : Bytes) : Bool :=
  if raw = [] ∨ value = [] then false else (jsonStrings raw).contains value

/-- The bytes that end the tool's word. -/
def toolStop (c : UInt8) : Bool := isBlank c || c == chr '\n' || c == chr ';' || c == chr '|'

/-- `command_basename` of `shell.c`: only an empty WORD is refused, the name may be empty. -/
def toolCommandBasename (command : Bytes) : Res Bytes :=
  if leadingWord toolStop command = [] then
    Status.invalidArgument "sc.shell_tool.command_invalid"
  else .ok (commandName (leadingWord toolStop command))

/-- `command_has_shell_control`; 0x60 is the backquote. -/
def commandHasShellControl : Bytes → Bool
  | [] => false
  | c :: rest =>
      if c = chr ';' ∨ c = chr '|' ∨ c = chr '&' ∨ c = chr '<' ∨ c = chr '>' ∨ c = chr '\n' ∨
          c = chr '\r' ∨ c = 0x60 then true
      else if c = chr '$' ∧ rest.head? = some (chr '(') then true
      else commandHasShellControl rest

/-- `validate_shell_command` -/
def validateShellCommand (config : Option Config) (command : Bytes) : Res Unit :=
  if command = [] then Status.invalidArgument "sc.shell_tool.command_invalid"
  else if commandContainsDanger command then Status.securityDenied "sc.shell_tool.command_denied"
  else
    match toolCommandBasename command with
    | .error e => .error e
    | .ok basename =>
        if (configGetProp config forbiddenCommandsPath).any (jsonArrayContains · basename) then
          Status.securityDenied "sc.shell_tool.command_forbidden"
        else
          match configGetProp config allowedCommandsPath with
          | none => .ok ()
          | some raw =>
              if 2 < raw.length then
                if commandHasShellControl command then
                  Status.securityDenied "sc.shell_tool.command_composition_denied"
                else if !jsonArrayContains raw basename then
                  Status.securityDenied "sc.shell_tool.command_not_allowed"
                else .ok ()
              else .ok ()

/-! ## What the shell runs -/

def isLetter (c : UInt8) : Bool :=
  (chr 'a' ≤ c && c ≤ chr 'z') || (chr 'A' ≤ c && c ≤ chr 'Z')

/-- The bytes between simple commands. -/
def isSeparator (c : UInt8) : Bool :=
  c == chr ';' || c == chr '|' || c == chr '&' || c == chr '\n'

/-- The alphabet in which the shell neither quotes nor expands anything. -/
def isPlainShell (c : UInt8) : Bool :=
  isLetter c || isDigit c || c == chr '/' || c == chr '.' || c == chr '-' || c == chr '_' ||
    c == chr '=' || isBlank c || isSeparator c

/-- `NAME=value`: a name of letters, digits and underscores that starts with no digit. -/
def isAssignment (word : Bytes) : Bool :=
  let name := word.takeWhile (· != chr '=')
  name.length < word.length && name.all (fun c => isLetter c || isDigit c || c == chr '_') &&
    name.head?.any fun c => !isDigit c

/-- The command word of a simple command: its first word that is no assignment. -/
def commandWord (piece : Bytes) : Option Bytes :=
  (((piece.splitOnP isBlank).filter (· ≠ [])).dropWhile isAssignment).head?

/-- The command words `/bin/sh -c` runs for a text of the alphabet, one for each piece between
    separators that has one. -/
def commandWords (command : Bytes) : List Bytes :=
  (command.splitOnP isSeparator).filterMap commandWord

/-- The names on a configured list. -/
def configCommands (config : Option Config) (path : Bytes) : List Bytes :=
  match configGetProp config path with
  | some raw => jsonStrings raw
  | none => []

/-- **The lists cover a command**: whatever both validators accept runs only commands that no list
    forbids and every non-empty allowlist names. -/
def ListsCover (command : Bytes) : Prop :=
  ∀ (policy : SecurityPolicy) (config : Option Config),
    validateShellPolicy policy command = .ok () → validateShellCommand config command = .ok () →
    ∀ w ∈ commandWords command,
      (commandName w ∉ policy.forbiddenCommands ∧
        commandName w ∉ configCommands config forbiddenCommandsPath) ∧
      (policy.allowedCommands ≠ [] → commandName w ∈ policy.allowedCommands) ∧
      (configCommands config allowedCommandsPath ≠ [] →
        commandName w ∈ configCommands config allowedCommandsPath)

/-! ## What the validators accept -/

/-- The name `validate_shell_policy` looks up. -/
def policyName (command : Bytes) : Bytes := commandName (leadingWord policyStop command)

/-- The name `validate_shell_command` looks up. -/
def toolName (command : Bytes) : Bytes := commandName (leadingWord toolStop command)

/-- The policy's extraction succeeds exactly with a non-empty name. -/
theorem policyCommandBasename_eq (command : Bytes) :
    policyCommandBasename command =
      if policyName command = [] then Status.invalidArgument "sc.security.shell_command_invalid"
      else .ok (policyName command) := by
  unfold policyCommandBasename
  by_cases hc : command = []
  · rw [if_pos hc, hc]
    rfl
  · by_cases hw : leadingWord policyStop command = []
    · rw [if_neg hc, if_pos hw, policyName, hw]
      rfl
    · rw [if_neg hc, if_neg hw]
      rfl

/-- **What the policy accepts**: no danger text, and a name that is not forbidden and, if any is
    listed, allowed. -/
theorem validateShellPolicy_ok {policy : SecurityPolicy} {command : Bytes} :
    validateShellPolicy policy command = .ok () ↔
      commandContainsDanger command = false ∧ policyName command ≠ [] ∧
        policyName command ∉ policy.forbiddenCommands ∧
        (policy.allowedCommands ≠ [] → policyName command ∈ policy.allowedCommands) := by
  unfold validateShellPolicy
  rw [policyCommandBasename_eq]
  by_cases hname : policyName command = []
  · simp [hname, Status.invalidArgument, Status.securityDenied, apply_ite (fun r : Res Unit => r = .ok ())]
  · have hc : command ≠ [] := by
      rintro rfl
      exact hname rfl
    rw [if_neg hc, if_neg hname]
    cases hd : commandContainsDanger command with
    | true => simp
    | false =>
      by_cases hf : listContains policy.forbiddenCommands (policyName command) = true
      · have hmem := (listContains_iff.mp hf).2
        simp [hf, hmem]
      · have hmem : policyName command ∉ policy.forbiddenCommands := fun h =>
          hf (listContains_iff.mpr ⟨hname, h⟩)
        -- an empty allowlist allows everything
        have hallowed : (0 < policy.allowedCommands.length ∧
              (!listContains policy.allowedCommands (policyName command)) = true) ↔
            ¬ (policy.allowedCommands ≠ [] → policyName command ∈ policy.allowedCommands) := by
          rw [List.length_pos_iff, Bool.not_eq_true', ← Bool.not_eq_true, listContains_iff]
          tauto
        rw [if_neg (by decide)]
        show (if _ then _ else if _ then _ else _) = _ ↔ _
        rw [if_neg hf]
        simp only [hallowed]
        by_cases ha : policy.allowedCommands ≠ [] → policyName command ∈ policy.allowedCommands
        · rw [if_neg (not_not_intro ha)]
          exact ⟨fun _ => ⟨trivial, hname, hmem, ha⟩, fun _ => rfl⟩
        · rw [if_pos ha]
          exact ⟨fun h => absurd h (Status.securityDenied_ne_ok _ _), fun h => absurd h.2.2.2 ha⟩

/-- **What the tool accepts.** -/
theorem validateShellCommand_ok {config : Option Config} {command : Bytes} :
    validateShellCommand config command = .ok () ↔
      commandContainsDanger command = false ∧ leadingWord toolStop command ≠ [] ∧
        (∀ raw, configGetProp config forbiddenCommandsPath = some raw →
          jsonArrayContains raw (toolName command) = false) ∧
        (∀ raw, configGetProp config allowedCommandsPath = some raw → 2 < raw.length →
          commandHasShellControl command = false ∧
            jsonArrayContains raw (toolName command) = true) := by
  unfold validateShellCommand toolCommandBasename
  by_cases hw : leadingWord toolStop command = []
  · simp [hw, Status.invalidArgument, Status.securityDenied, apply_ite (fun r : Res Unit => r = .ok ())]
  · have hc : command ≠ [] := by
      rintro rfl
      exact hw rfl
    rw [if_neg hc, if_neg hw, ← toolName]
    cases hd : commandContainsDanger command with
    | true => simp
    | false =>
      rw [if_neg (by decide)]
      show (if _ then _ else _) = _ ↔ _
      by_cases hf : (configGetProp config forbiddenCommandsPath).any
          (jsonArrayContains · (toolName command)) = true
      · rw [if_pos hf]
        obtain ⟨raw, hraw, hin⟩ := (Option.any_eq_true _ _).mp hf
        exact ⟨fun h => absurd h (Status.securityDenied_ne_ok _ _),
          fun h => absurd hin (by rw [h.2.2.1 raw hraw]; exact Bool.false_ne_true)⟩
      · have hnone : ∀ raw, configGetProp config forbiddenCommandsPath = some raw →
            jsonArrayContains raw (toolName command) = false := fun raw hraw =>
          Bool.eq_false_iff.mpr fun h => hf ((Option.any_eq_true _ _).mpr ⟨raw, hraw, h⟩)
        rw [if_neg hf]
        cases hal : configGetProp config allowedCommandsPath with
        | none => simpa [hw] using hnone
        | some raw =>
          by_cases hlen : 2 < raw.length
          · cases hctl : commandHasShellControl command with
            | true => simp [hlen]
            | false =>
              cases hin : jsonArrayContains raw (toolName command) with
              | true => simpa [hw, hlen, hin] using hnone
              | false => simp [hlen, hin]
          · simpa [hw, hlen] using hnone

/-! ## Configured lists -/

/-- An array read from one byte after its bracket is empty. -/
theorem parseArray_byte (b : UInt8) {items : List Json} {rest : Bytes}
    (h : parseArray (parseValue jsonMaxDepth) [b] = .ok (.array items, rest)) : items = [] := by
  have hclose : (parseArray (parseValue jsonMaxDepth) [b]).isOk = true → b = chr ']' := by
    apply byte_forall
      (p := fun b => (parseArray (parseValue jsonMaxDepth) [b]).isOk = true → b = chr ']')
    decide +kernel
  obtain rfl : b = chr ']' := hclose (by rw [h]; rfl)
  rw [parseArray, skipWs_cons (by decide), consume_self] at h
  cases h
  rfl

/-- **Two bytes hold no list item**: the tool's `len > 2` skips no allowlist that names anything. -/
theorem jsonStrings_short {raw : Bytes} (hlen : raw.length ≤ 2) : jsonStrings raw = [] := by
  unfold jsonStrings
  split
  · rename_i items hparse
    obtain ⟨rest, hv⟩ := jsonParse_eq_ok hparse
    obtain ⟨t, ht, harr⟩ := parseValue_eq_array hv
    have hskip : (chr '[' :: t).length ≤ raw.length := by
      rw [← ht]
      exact ((List.dropWhile_suffix _).trans (List.dropWhile_suffix _)).length_le
    -- at most one byte is left behind the bracket
    have hitems : items = [] := by
      cases t with
      | nil => exact nomatch harr
      | cons b t =>
        cases t with
        | nil => exact parseArray_byte b harr
        | cons c t =>
          simp only [List.length_cons] at hskip
          omega
    rw [hitems, List.filterMap_nil]
  · rfl

/-- `json_array_contains` on a value that is not empty. -/
theorem jsonArrayContains_iff {raw value : Bytes} (hv : value ≠ []) :
    jsonArrayContains raw value = true ↔ value ∈ jsonStrings raw := by
  unfold jsonArrayContains
  by_cases hr : raw = []
  · have hempty : jsonStrings [] = [] := jsonStrings_short (Nat.zero_le 2)
    rw [if_pos (Or.inl hr), hr, hempty]
    simp
  · rw [if_neg (by simp [hr, hv]), List.contains_iff_mem]

/-- The one-name list `["name"]` as configuration text. -/
def singletonList (name : Bytes) : Bytes := arrayText [quoted (fun b => [b]) name]

/-- A byte of the alphabet needs no escape and is ASCII. -/
theorem plain_of_isPlainShell {b : UInt8} (h : isPlainShell b = true) (hs : isSeparator b = false)
    (hb : isBlank b = false) : b ≠ chr '"' ∧ ¬ b < 0x20 ∧ b ≠ chr '\\' ∧ b ≤ 0x7F := by
  revert h hs hb
  apply byte_forall (p := fun b => isPlainShell b = true → isSeparator b = false →
    isBlank b = false → b ≠ chr '"' ∧ ¬ b < 0x20 ∧ b ≠ chr '\\' ∧ b ≤ 0x7F)
  decide +kernel

/-- **A one-name list names that name**, when the name is written in bytes that need no escape. -/
theorem jsonStrings_singleton {name : Bytes}
    (h : ∀ b ∈ name, b ≠ chr '"' ∧ ¬ b < 0x20 ∧ b ≠ chr '\\' ∧ b ≤ 0x7F) :
    jsonStrings (singletonList name) = [name] := by
  have hesc : ∀ b ∈ name, EscapesTo (fun b => [b]) b := fun b hb =>
    .plain rfl (h b hb).1 (h b hb).2.1 (h b hb).2.2.1
  have hread : ∀ t ∈ [(quoted (fun b => [b]) name, Json.string name)],
      ReadsTo (parseValue jsonMaxDepth) t.1 t.2 := by
    intro t ht
    rw [List.mem_singleton.mp ht]
    exact ReadsTo.quoted hesc 63
  have hutf8 : strIsValidUtf8 (singletonList name) = true := by
    apply utf8_ascii
    intro b hb
    have hflat : name.flatMap (fun b => [b]) = name := List.flatMap_singleton' name
    simp only [singletonList, arrayText, commaSeparated, quoted, hflat, List.mem_cons,
      List.mem_append, List.not_mem_nil, or_false] at hb
    rcases hb with rfl | (rfl | hb | rfl) | rfl
    · decide
    · decide
    · exact (h b hb).2.2.2
    · decide
    · decide
  have hparse := jsonParse_array hread (by rw [List.length_singleton]; decide) hutf8
  rw [jsonStrings, singletonList]
  simp only [List.map_cons, List.map_nil] at hparse
  rw [hparse]
  rfl

/-! ## The lists and the shell -/

theorem mem_of_mem_commandName {b : UInt8} :
    ∀ {word name : Bytes},
      b ∈ word.foldl (fun name c => if c = chr '/' then [] else name ++ [c]) name →
      b ∈ name ∨ b ∈ word := by
  intro word
  induction word with
  | nil => intro name h; exact Or.inl h
  | cons c word ih =>
    intro name h
    rw [List.foldl_cons] at h
    rcases ih h with h | h
    · split at h
      · exact absurd h List.not_mem_nil
      · rcases List.mem_append.mp h with h | h
        · exact Or.inl h
        · exact Or.inr (List.mem_cons.mpr (Or.inl (List.mem_singleton.mp h)))
    · exact Or.inr (List.mem_cons_of_mem c h)

/-- A command word's name is written in bytes of the text that are neither separators nor blanks. -/
theorem mem_commandWords {command w : Bytes} {b : UInt8} (hw : w ∈ commandWords command)
    (hb : b ∈ commandName w) : b ∈ command ∧ isSeparator b = false ∧ isBlank b = false := by
  obtain ⟨piece, hpiece, hword⟩ := List.mem_filterMap.mp hw
  have hbw : b ∈ w := (mem_of_mem_commandName hb).resolve_left List.not_mem_nil
  have hwmem : w ∈ piece.splitOnP isBlank := by
    have hhead := List.mem_of_mem_head? (Option.mem_def.mpr hword)
    exact List.mem_of_mem_filter ((List.dropWhile_suffix _).subset hhead)
  obtain ⟨hbpiece, hblank⟩ := Lib.Separated.mem_of_mem_splitOnP hwmem hbw
  obtain ⟨hbcmd, hsep⟩ := Lib.Separated.mem_of_mem_splitOnP hpiece hbpiece
  exact ⟨hbcmd, hsep, hblank⟩

/-- A text neither validator ever accepts: a danger text occurs in it, or no word stands before its
    first separator, or its first blank-delimited word ends in a slash. -/
def NeverAccepted (command : Bytes) : Prop :=
  commandContainsDanger command = true ∨ leadingWord toolStop command = [] ∨
    commandName (leadingWord policyStop command) = []

/-- Every command the shell runs has the name of the first word, cut at blanks and line ends and
    cut at `;` and `|` as well. -/
def FirstWordDecides (command : Bytes) : Prop :=
  ∀ w ∈ commandWords command,
    commandName w = commandName (leadingWord policyStop command) ∧
      commandName w = commandName (leadingWord toolStop command)

instance (command : Bytes) : Decidable (FirstWordDecides command) :=
  inferInstanceAs (Decidable (∀ w ∈ commandWords command, _ ∧ _))

/-- A policy that allows only the policy's name tells every other name from it. -/
theorem policyName_of_listsCover {command w : Bytes} (hcover : ListsCover command)
    (hnever : ¬ NeverAccepted command) (hw : w ∈ commandWords command) :
    commandName w = policyName command := by
  have hd : commandContainsDanger command = false := Bool.eq_false_iff.mpr fun h => hnever (Or.inl h)
  have hpolicy : validateShellPolicy { allowedCommands := [policyName command] } command = .ok () :=
    validateShellPolicy_ok.mpr ⟨hd, fun h => hnever (Or.inr (Or.inr h)), List.not_mem_nil,
      fun _ => List.mem_singleton_self _⟩
  have htool : validateShellCommand none command = .ok () :=
    validateShellCommand_ok.mpr ⟨hd, fun h => hnever (Or.inr (Or.inl h)),
      (fun _ h => nomatch h), fun _ h => nomatch h⟩
  obtain ⟨-, hallowed, -⟩ := hcover _ _ hpolicy htool w hw
  exact List.mem_singleton.mp (hallowed (List.cons_ne_nil _ _))

/-- A configuration that forbids only one name tells it from the tool's name. -/
theorem toolName_of_listsCover {command w : Bytes} (hplain : ∀ c ∈ command, isPlainShell c = true)
    (hcover : ListsCover command) (hnever : ¬ NeverAccepted command)
    (hw : w ∈ commandWords command) : commandName w = toolName command := by
  by_contra hne
  have hd : commandContainsDanger command = false := Bool.eq_false_iff.mpr fun h => hnever (Or.inl h)
  have hlist : jsonStrings (singletonList (commandName w)) = [commandName w] := by
    apply jsonStrings_singleton
    intro b hb
    obtain ⟨hmem, hsep, hblank⟩ := mem_commandWords hw hb
    exact plain_of_isPlainShell (hplain b hmem) hsep hblank
  -- a configuration that forbids the name the shell runs, and nothing else
  let get : Config := fun path =>
    if path = forbiddenCommandsPath then some (singletonList (commandName w)) else none
  have hforbidden : configGetProp (some get) forbiddenCommandsPath
      = some (singletonList (commandName w)) := by
    simp [configGetProp, get]
  have hallowed : configGetProp (some get) allowedCommandsPath = none := by
    have hpath : allowedCommandsPath ≠ forbiddenCommandsPath := by decide
    simp [configGetProp, get, hpath]
  have hpolicy : validateShellPolicy {} command = .ok () :=
    validateShellPolicy_ok.mpr ⟨hd, fun h => hnever (Or.inr (Or.inr h)), List.not_mem_nil,
      fun h => absurd rfl h⟩
  have htool : validateShellCommand (some get) command = .ok () := by
    refine validateShellCommand_ok.mpr ⟨hd, fun h => hnever (Or.inr (Or.inl h)), ?_, ?_⟩
    · intro raw hraw
      obtain rfl := Option.some.inj (hforbidden.symm.trans hraw)
      apply Bool.eq_false_iff.mpr
      intro hin
      -- an empty name is on no list; any other one would have to be the forbidden one
      by_cases hempty : toolName command = []
      · simp [jsonArrayContains, hempty] at hin
      · rw [jsonArrayContains_iff hempty, hlist, List.mem_singleton] at hin
        exact hne hin.symm
    · intro raw hraw
      rw [hallowed] at hraw
      exact nomatch hraw
  obtain ⟨⟨-, hnot⟩, -⟩ := hcover _ (some get) hpolicy htool w hw
  apply hnot
  rw [configCommands, hforbidden]
  show _ ∈ jsonStrings _
  rw [hlist]
  exact List.mem_singleton_self _

/-- When every command has the name both validators looked up, what they accept is covered. -/
theorem listsCover_of_firstWordDecides {command : Bytes} (h : FirstWordDecides command) :
    ListsCover command := by
  intro policy config hpolicy htool w hw
  obtain ⟨hpname, htname⟩ := h w hw
  obtain ⟨-, hne, hforb, hallow⟩ := validateShellPolicy_ok.mp hpolicy
  obtain ⟨-, -, htforb, htallow⟩ := validateShellCommand_ok.mp htool
  rw [← policyName] at hpname
  rw [← toolName] at htname
  have htne : toolName command ≠ [] := by rw [← htname, hpname]; exact hne
  refine ⟨⟨hpname ▸ hforb, ?_⟩, fun hnil => hpname ▸ hallow hnil, ?_⟩
  · rw [configCommands]
    cases hprop : configGetProp config forbiddenCommandsPath with
    | none => exact List.not_mem_nil
    | some raw =>
      intro hmem
      have hin := (jsonArrayContains_iff htne).mpr (htname ▸ hmem)
      rw [htforb raw hprop] at hin
      exact Bool.false_ne_true hin
  · rw [configCommands]
    cases hprop : configGetProp config allowedCommandsPath with
    | none => exact fun hnil => absurd rfl hnil
    | some raw =>
      intro hnil
      -- an allowlist that names something is longer than the `len > 2` the tool tests
      have hlen : 2 < raw.length := by
        by_contra hshort
        exact hnil (jsonStrings_short (Nat.le_of_not_lt hshort))
      rw [htname]
      exact (jsonArrayContains_iff htne).mp (htallow raw hprop hlen).2

/-- **When the command lists cover what the shell runs**: a text of the alphabet is covered exactly
    when neither validator can accept it, or every command it runs has the name of its first
    word. -/
theorem listsCover_iff {command : Bytes} (hplain : ∀ c ∈ command, isPlainShell c = true) :
    ListsCover command ↔ NeverAccepted command ∨ FirstWordDecides command := by
  constructor
  · intro hcover
    by_cases hnever : NeverAccepted command
    · exact Or.inl hnever
    · exact Or.inr fun w hw => ⟨policyName_of_listsCover hcover hnever hw,
        toolName_of_listsCover hplain hcover hnever hw⟩
  · rintro (hnever | hfirst)
    · intro policy config hpolicy htool
      obtain ⟨hd, hname, -⟩ := validateShellPolicy_ok.mp hpolicy
      obtain ⟨-, hword, -⟩ := validateShellCommand_ok.mp htool
      rcases hnever with h | h | h
      · rw [hd] at h
        exact absurd h Bool.false_ne_true
      · exact absurd h hword
      · exact absurd h hname
    · exact listsCover_of_firstWordDecides hfirst

/-- Without control characters there is nothing between simple commands. -/
theorem isSeparator_of_no_control {command : Bytes} (h : commandHasShellControl command = false) :
    ∀ c ∈ command, isSeparator c = false := by
  induction command with
  | nil => intro c hc; cases hc
  | cons first rest ih =>
    rw [commandHasShellControl] at h
    split at h
    · cases h
    next hfirst =>
    have hrest : commandHasShellControl rest = false := by
      split at h
      · cases h
      · exact h
    intro c hc
    rcases List.mem_cons.mp hc with rfl | hc
    · simp only [not_or] at hfirst
      simp [isSeparator, hfirst]
    · exact ih hrest c hc

/-- **A configured allowlist refuses composed texts**: whatever the policy, a text that the tool accepts under
    one runs one simple command at most. -/
theorem commandWords_of_allowlist {config : Option Config} {command raw : Bytes}
    (hraw : configGetProp config allowedCommandsPath = some raw) (hlen : 2 < raw.length)
    (htool : validateShellCommand config command = .ok ()) :
    commandWords command = (commandWord command).toList := by
  obtain ⟨-, -, -, hallow⟩ := validateShellCommand_ok.mp htool
  have hsep := isSeparator_of_no_control (hallow raw hraw hlen).1
  rw [commandWords, List.splitOnP_eq_singleton hsep]
  cases h : commandWord command with
  | none => rw [List.filterMap_cons_none h, List.filterMap_nil, Option.toList_none]
  | some w => rw [List.filterMap_cons_some h, List.filterMap_nil, Option.toList_some]

/-- `/bin/ls; ls -l` runs two commands of one name and is covered. -/
theorem listsCover_ls : ListsCover (str "/bin/ls -a; ls -l") :=
  (listsCover_iff (List.all_eq_true.mp (by decide))).mpr (Or.inr (by decide))

/-- `ls; curl x` passes a policy that forbids `curl`, and runs it. -/
theorem forbidden_curl_runs :
    ¬ ∀ command : Bytes, (∀ c ∈ command, isPlainShell c = true) → ListsCover command := by
  intro h
  have hcover := h (str "ls; curl x") (List.all_eq_true.mp (by decide))
  obtain ⟨⟨hnot, -⟩, -⟩ := hcover { forbiddenCommands := [str "curl"] } none (by decide)
    (by decide) (str "curl") (by decide)
  exact hnot (by decide)

end SmolClaw.Shell
