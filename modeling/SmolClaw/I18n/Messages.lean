/-
  Localized messages (`sc_i18n_format`, `src/i18n/i18n.c`).

  1. **Program** — `append_formatted` scans the message and REMEMBERS where the text starts that it has not
     written yet.  At a `{` with a `}` behind it the remembered text is written, whatever the braces hold;
     only a placeholder moves the start.

  2. **Specification** — `Rendered placeholderAt`: each `{ $name }` gives the value of the first argument of
     that name, and every other byte stays.

  3. **Defect** — braces around something else write the remembered text and leave the start where it is,
     so that the text comes out twice.

  4. **Result** — `formatted_iff`: a message is formatted as written exactly if no text stands in front of
     such braces, back to the last placeholder.
-/
import Mathlib.Data.List.DropRight
import SmolClaw.Lib.Template
import SmolClaw.Net.Url

namespace SmolClaw.I18n

open Lib.Template Net

/-! ## Program -/

/-- `sc_i18n_arg` -/
structure I18nArg where
  name : Bytes
  value : Bytes
  secret : Bool := false

/-- `sc_i18n_entry` -/
structure I18nEntry where
  key : Bytes
  message : Bytes

/-- `find_entry_const` -/
def findEntry (catalog : List I18nEntry) (key : Bytes) : Option I18nEntry :=
  catalog.find? fun entry => entry.key == key

/-- `find_arg` -/
def findArg (args : List I18nArg) (name : Bytes) : Option I18nArg := args.find? fun arg => arg.name == name

/-- `trim` -/
def trim (text : Bytes) : Bytes := (text.dropWhile isSpace).rdropWhile isSpace

/-- What is written for a placeholder. -/
def argText (args : List I18nArg) (name : Bytes) : Bytes :=
  match findArg args name with
  | none => str "\x7b?" ++ name ++ str "?\x7d"
  | some arg => if arg.secret then str "[REDACTED]" else arg.value

/-- The search for the closing brace: the text in front of it, and the text behind. -/
def toClose (rest : Bytes) : Option (Bytes × Bytes) :=
  match rest.dropWhile (· ≠ chr '\x7d') with
  | [] => none
  | _ :: after => some (rest.takeWhile (· ≠ chr '\x7d'), after)

/-- The name in the braces, when they hold a placeholder. -/
def placeholderName (inside : Bytes) : Option Bytes :=
  match trim inside with
  | [] => none
  | c :: name => if c = chr '$' then some (trim name) else none

/-- The loop of `append_formatted`: `held` is the text from `start` on, `rest` the text that is still to be
    scanned. -/
def formatLoop (args : List I18nArg) : Nat → Bytes → Bytes → Bytes
  | 0, held, rest => held ++ rest
  | _ + 1, held, [] => held
  | rounds + 1, held, c :: rest =>
      if c = chr '\x7b' then
        match toClose rest with
        | none => held ++ c :: rest
        | some (inside, after) =>
            held ++
              match placeholderName inside with
              | some name => argText args name ++ formatLoop args rounds [] after
              -- the start stays where it is
              | none => formatLoop args rounds (held ++ [c]) rest
      else formatLoop args rounds (held ++ [c]) rest

/-- `append_formatted` -/
def appendFormatted (message : Bytes) (args : List I18nArg) : Bytes :=
  formatLoop args (message.length + 1) [] message

/-- `sc_i18n_format` -/
def i18nFormat (catalog : List I18nEntry) (key : Bytes) (args : List I18nArg) : Res Bytes :=
  if key = [] then Status.invalidArgument "sc.i18n.invalid_argument"
  else
    match findEntry catalog key with
    | none => .ok (str "!" ++ key ++ str "!")
    | some entry => .ok (appendFormatted entry.message args)

/-! ## Specification -/

/-- The placeholder at the front of a text: its name, and the text behind it. -/
def placeholderAt : Bytes → Option (Bytes × Bytes)
  | [] => none
  | c :: rest =>
      if c = chr '\x7b' then
        (toClose rest).bind fun cut => (placeholderName cut.1).map fun name => (name, cut.2)
      else none

/-- **The text in front of other braces is not written twice**: where the scan stands at a `{` that begins no
    placeholder and is closed further on, nothing is held back. -/
inductive HoldsNothing : Bytes → Bytes → Prop
  | nil {held : Bytes} : HoldsNothing held []
  | hole {held rest after name : Bytes} (found : placeholderAt rest = some (name, after))
      (next : HoldsNothing [] after) : HoldsNothing held rest
  | literal {held rest : Bytes} {c : UInt8} (none : placeholderAt (c :: rest) = none)
      (alone : c = chr '\x7b' → chr '\x7d' ∈ rest → held = []) (next : HoldsNothing (held ++ [c]) rest) :
      HoldsNothing held (c :: rest)

/-! ## Braces -/

/-- What `trim` and `toClose` leave is part of the text. -/
theorem toClose_eq_some {rest inside after : Bytes} (h : toClose rest = some (inside, after)) :
    rest = inside ++ chr '\x7d' :: after := by
  unfold toClose at h
  split at h
  · exact nomatch h
  · next c tail hdrop =>
    obtain ⟨rfl, rfl⟩ := Prod.mk.inj (Option.some.inj h)
    have hc : c = chr '\x7d' := by
      have hhead := List.head?_dropWhile_not (fun b : UInt8 => decide (b ≠ chr '\x7d')) rest
      rw [hdrop] at hhead
      simpa using hhead
    rw [hc] at hdrop
    rw [← hdrop, List.takeWhile_append_dropWhile]

theorem toClose_eq_none {rest : Bytes} : toClose rest = none ↔ chr '\x7d' ∉ rest := by
  constructor
  · intro h hmem
    unfold toClose at h
    split at h
    · next hdrop =>
      have hall := List.dropWhile_eq_nil_iff.mp hdrop _ hmem
      exact absurd hall (by simp)
    · exact nomatch h
  · intro h
    unfold toClose
    rw [List.dropWhile_eq_nil_iff.mpr fun b hb => decide_eq_true (ne_of_mem_of_not_mem hb h)]

theorem placeholderAt_shortens : Shortens placeholderAt := by
  intro s rest name h
  cases s with
  | nil => exact nomatch h
  | cons c s =>
    rw [placeholderAt] at h
    split at h
    · obtain ⟨⟨inside, after⟩, hclose, h⟩ := Option.bind_eq_some_iff.mp h
      obtain ⟨_, -, h⟩ := Option.map_eq_some_iff.mp h
      obtain rfl : after = rest := (Prod.mk.inj h).2
      rw [toClose_eq_some hclose, List.length_cons, List.length_append, List.length_cons]
      omega
    · exact nomatch h

/-- Nothing is a placeholder where no brace is closed. -/
theorem placeholderAt_of_open {s : Bytes} (h : chr '\x7d' ∉ s) : placeholderAt s = none := by
  cases s with
  | nil => rfl
  | cons c s =>
    rw [placeholderAt]
    split
    · rw [toClose_eq_none.mpr fun hmem => h (List.mem_cons_of_mem c hmem)]
      rfl
    · rfl

theorem HoldsNothing.of_open {rest : Bytes} (h : chr '\x7d' ∉ rest) :
    ∀ held, HoldsNothing held rest := by
  induction rest with
  | nil => exact fun _ => .nil
  | cons c rest ih =>
    intro held
    rw [List.mem_cons, not_or] at h
    refine .literal (placeholderAt_of_open (List.not_mem_cons_of_ne_of_not_mem h.1 h.2)) ?_ (ih h.2 _)
    exact fun _ hmem => absurd hmem h.2

/-! ## The loop -/

/-- **What the loop writes**, by induction on its rounds: never less than it holds and should write, and
    exactly that if nothing is held in front of other braces. -/
theorem formatLoop_spec (args : List I18nArg) : ∀ (rounds : Nat) (held rest : Bytes), rest.length < rounds →
    ∃ out, Rendered placeholderAt (argText args) rest out ∧
      held.length + out.length ≤ (formatLoop args rounds held rest).length ∧
      (formatLoop args rounds held rest = held ++ out ↔ HoldsNothing held rest) := by
  intro rounds
  induction rounds with
  | zero => intro held rest hrest; exact absurd hrest (Nat.not_lt_zero _)
  | succ rounds ih =>
    intro held rest hrest
    cases rest with
    | nil =>
      refine ⟨[], .nil, Nat.le_refl _, iff_of_true ?_ .nil⟩
      rw [formatLoop, List.append_nil]
    | cons c rest =>
      rw [List.length_cons] at hrest
      -- the byte goes to what is held
      have hbyte : ∃ out, Rendered placeholderAt (argText args) rest out ∧
          held.length + 1 + out.length ≤ (formatLoop args rounds (held ++ [c]) rest).length ∧
          (formatLoop args rounds (held ++ [c]) rest = held ++ c :: out ↔ HoldsNothing (held ++ [c]) rest) := by
        obtain ⟨out, hout, hlength, hiff⟩ := ih (held ++ [c]) rest (by omega)
        rw [List.length_append, List.length_singleton] at hlength
        rw [List.append_assoc, List.singleton_append] at hiff
        exact ⟨out, hout, hlength, hiff⟩
      by_cases hc : c = chr '\x7b'
      · rw [formatLoop, if_pos hc]
        cases hclose : toClose rest with
        | none =>
          have hopen := toClose_eq_none.mp hclose
          have hplain : chr '\x7d' ∉ c :: rest := by
            rw [hc]
            exact List.not_mem_cons_of_ne_of_not_mem (by decide) hopen
          refine ⟨c :: rest, rendered_plain fun t _ ht => ?_, ?_, iff_of_true rfl (.of_open hplain held)⟩
          · exact placeholderAt_of_open fun hmem => hplain (ht.mem hmem)
          · exact Nat.le_of_eq (List.length_append ..).symm
        | some cut =>
          obtain ⟨inside, after⟩ := cut
          have hrestEq := toClose_eq_some hclose
          dsimp only
          cases hname : placeholderName inside with
          | some name =>
            have hfound : placeholderAt (c :: rest) = some (name, after) := by
              rw [placeholderAt, if_pos hc, hclose, Option.bind_some, hname]
              rfl
            have hafter : after.length < rounds := by
              rw [hrestEq, List.length_append, List.length_cons] at hrest
              omega
            obtain ⟨out, hout, hlength, hiff⟩ := ih [] after hafter
            refine ⟨argText args name ++ out, .hole hfound hout, ?_, ?_⟩
            · rw [List.length_nil] at hlength
              simp only [List.length_append]
              omega
            · dsimp only
              rw [List.append_cancel_left_eq, List.append_cancel_left_eq]
              constructor
              · intro h
                exact .hole hfound (hiff.mp h)
              · intro h
                cases h with
                | hole found next =>
                  obtain ⟨rfl, rfl⟩ := Prod.mk.inj (Option.some.inj (hfound.symm.trans found))
                  exact hiff.mpr next
                | literal none _ _ => exact nomatch hfound.symm.trans none
          | none =>
            have hnone : placeholderAt (c :: rest) = none := by
              rw [placeholderAt, if_pos hc, hclose, Option.bind_some, hname]
              rfl
            have hmem : chr '\x7d' ∈ rest := by
              rw [hrestEq]
              exact List.mem_append_right _ List.mem_cons_self
            obtain ⟨out, hout, hlength, hiff⟩ := hbyte
            refine ⟨c :: out, .literal hnone hout, ?_, ?_⟩
            · simp only [List.length_append, List.length_cons]
              omega
            · dsimp only
              cases held with
              | nil =>
                rw [List.nil_append]
                constructor
                · intro h
                  exact .literal hnone (fun _ _ => rfl) (hiff.mp h)
                · intro h
                  cases h with
                  | hole found _ => exact nomatch hnone.symm.trans found
                  | literal _ _ next => exact hiff.mpr next
              | cons d held =>
                -- what is held is written, and again
                constructor
                · intro h
                  have hlengths := congrArg List.length h
                  simp only [List.length_append, List.length_cons] at hlengths hlength
                  omega
                · intro h
                  cases h with
                  | hole found _ => exact nomatch hnone.symm.trans found
                  | literal _ alone _ => exact nomatch alone hc hmem
      · have hnone : placeholderAt (c :: rest) = none := by rw [placeholderAt, if_neg hc]
        rw [formatLoop, if_neg hc]
        obtain ⟨out, hout, hlength, hiff⟩ := hbyte
        refine ⟨c :: out, .literal hnone hout, by rw [List.length_cons]; omega, hiff.trans ?_⟩
        constructor
        · exact fun h => .literal hnone (fun h' => absurd h' hc) h
        · intro h
          cases h with
          | hole found _ => exact nomatch hnone.symm.trans found
          | literal _ _ next => exact next

/-! ## Messages -/

/-- **A message is formatted as written exactly if nothing is held in front of other braces.** -/
theorem formatted_iff {catalog : List I18nEntry} {key : Bytes} {entry : I18nEntry} (hkey : key ≠ [])
    (hentry : findEntry catalog key = some entry) (args : List I18nArg) :
    (∃ out, i18nFormat catalog key args = .ok out ∧
        Rendered placeholderAt (argText args) entry.message out) ↔ HoldsNothing [] entry.message := by
  obtain ⟨out, hout, -, hiff⟩ :=
    formatLoop_spec args (entry.message.length + 1) [] entry.message (Nat.lt_succ_self _)
  rw [List.nil_append] at hiff
  rw [i18nFormat, if_neg hkey, hentry, ← hiff]
  constructor
  · rintro ⟨written, hwritten, hrendered⟩
    rw [hrendered.unique placeholderAt_shortens hout] at hwritten
    exact Except.ok.inj hwritten
  · intro h
    exact ⟨out, congrArg Except.ok h, hout⟩

/-- A message of the default catalog. -/
def errorEntry : I18nEntry := ⟨str "cli.error", str "smolclaw: \x7b $error \x7d"⟩

theorem formatted_error :
    (∃ out, i18nFormat [errorEntry] (str "cli.error") [⟨str "error", str "no", false⟩] = .ok out ∧
      Rendered placeholderAt (argText [⟨str "error", str "no", false⟩]) errorEntry.message out) ↔
      HoldsNothing [] errorEntry.message :=
  formatted_iff (by decide) rfl [⟨str "error", str "no", false⟩]

/-- **Other braces double the text in front of them**: `a {b}` becomes `a a {b}`. -/
theorem braces_double : ¬ ∀ catalog key entry args, key ≠ [] → findEntry catalog key = some entry →
    ∃ out, i18nFormat catalog key args = .ok out ∧
      Rendered placeholderAt (argText args) entry.message out := by
  intro h
  obtain ⟨out, hout, hrendered⟩ :=
    h [⟨str "k", str "a \x7bb\x7d"⟩] (str "k") ⟨str "k", str "a \x7bb\x7d"⟩ [] (by decide) rfl
  have hplain : Rendered placeholderAt (argText []) (str "a \x7bb\x7d") (str "a \x7bb\x7d") := by
    refine rendered_plain fun t _ ht => ?_
    have hall : (str "a \x7bb\x7d").tails.all (fun t => (placeholderAt t).isNone) = true := by decide
    exact Option.isNone_iff_eq_none.mp (List.all_eq_true.mp hall t ((List.mem_tails _ _).mpr ht))
  have hformat : i18nFormat [⟨str "k", str "a \x7bb\x7d"⟩] (str "k") [] = .ok (str "a a \x7bb\x7d") := by
    decide
  obtain rfl := Except.ok.inj (hformat.symm.trans hout)
  exact absurd (hrendered.unique placeholderAt_shortens hplain) (by decide)

end SmolClaw.I18n
