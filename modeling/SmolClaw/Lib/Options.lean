/-
  Reading a list of words as options and operands.

  1. **Grammar** — an option takes a number of words behind it and has an effect; a mark ends the options, and
     so does the first word that is none.

  2. **Reading** — `parse`.  Options that are written out one after the other are read one after the other
     (`parse_render`), whatever their values look like; and what is left is shorter than what was read
     (`parse_length`).
-/
import Mathlib.Data.List.Basic

namespace Lib.Options

variable {α ε : Type*}

/-- The options of a command. -/
structure Grammar (α ε : Type*) where
  isOption : α → Bool
  /-- The mark behind which every word is an operand. -/
  mark : α
  /-- How many words an option takes; an option that is not known takes none and is refused. -/
  arity : α → Option Nat
  effect : α → List α → ε → Option ε

/-- Options that are written out. -/
def render (options : List (α × List α)) : List α := options.flatMap fun option => option.1 :: option.2

theorem render_append (options more : List (α × List α)) :
    render (options ++ more) = render options ++ render more := List.flatMap_append

/-- The effect of options, one after the other. -/
def Grammar.effects (g : Grammar α ε) (options : List (α × List α)) (e : ε) : Option ε :=
  options.foldlM (fun e option => g.effect option.1 option.2 e) e

theorem Grammar.effects_append (g : Grammar α ε) (options more : List (α × List α)) (e : ε) :
    g.effects (options ++ more) e = (g.effects options e).bind (g.effects more) := List.foldlM_append

variable [DecidableEq α] {g : Grammar α ε} {e : ε} {word : α} {rest : List α}

/-- Reading with a bound on the number of options. -/
def Grammar.read (g : Grammar α ε) : Nat → ε → List α → Option (ε × List α)
  | 0, _, _ => none
  | _ + 1, e, [] => some (e, [])
  | n + 1, e, word :: rest =>
      if word = g.mark then some (e, rest)
      else if g.isOption word then
        match g.arity word with
        | none => none
        | some k =>
            if rest.length < k then none
            else (g.effect word (rest.take k) e).bind fun e => g.read n e (rest.drop k)
      else some (e, word :: rest)

/-- The effect of the options, and the operands. -/
def Grammar.parse (g : Grammar α ε) (e : ε) (words : List α) : Option (ε × List α) :=
  g.read (words.length + 1) e words

/-- **The bound does not matter** above the number of words. -/
theorem Grammar.read_bound (g : Grammar α ε) : ∀ (n m : Nat) (e : ε) (words : List α),
    words.length < n → words.length < m → g.read n e words = g.read m e words := by
  intro n
  induction n with
  | zero => exact fun _ _ _ h => absurd h (Nat.not_lt_zero _)
  | succ n ih =>
    intro m e words hn hm
    obtain ⟨m, rfl⟩ : ∃ k, m = k + 1 := ⟨m - 1, by omega⟩
    cases words with
    | nil => rfl
    | cons word rest =>
      rw [List.length_cons] at hn hm
      unfold Grammar.read
      split
      · rfl
      split
      · cases g.arity word with
        | none => rfl
        | some k =>
          have hdrop : (rest.drop k).length ≤ rest.length := by
            rw [List.length_drop]
            omega
          have hnext : ∀ e, g.read n e (rest.drop k) = g.read m e (rest.drop k) := fun e =>
            ih m e _ (by omega) (by omega)
          simp only [hnext]
      · rfl

theorem Grammar.parse_mark (g : Grammar α ε) (e : ε) (rest : List α) :
    g.parse e (g.mark :: rest) = some (e, rest) := if_pos rfl

/-- The first word that is no option is an operand. -/
theorem Grammar.parse_operand (hmark : word ≠ g.mark) (hword : g.isOption word = false) :
    g.parse e (word :: rest) = some (e, word :: rest) := by
  rw [Grammar.parse, Grammar.read, if_neg hmark, hword]
  exact if_neg Bool.false_ne_true

/-- An option with its values. -/
theorem Grammar.parse_option {values : List α} (hmark : word ≠ g.mark) (hword : g.isOption word = true)
    (harity : g.arity word = some values.length) :
    g.parse e (word :: (values ++ rest)) = (g.effect word values e).bind fun e => g.parse e rest := by
  have hbound : ¬ (values ++ rest).length < values.length := by
    rw [List.length_append]
    omega
  have hnext : ∀ e, g.read (values ++ rest).length.succ e rest = g.parse e rest := fun e =>
    g.read_bound _ _ e rest (by rw [List.length_append]; omega) (Nat.lt_succ_self _)
  rw [Grammar.parse, Grammar.read, if_neg hmark, if_pos hword, harity]
  dsimp only
  rw [if_neg hbound, List.take_left, List.drop_left]
  exact congrArg (Option.bind (g.effect word values e)) (funext hnext)

/-- An option that is written out as the grammar has it. -/
def Grammar.knows (g : Grammar α ε) (option : α × List α) : Bool :=
  decide (option.1 ≠ g.mark) && g.isOption option.1 && decide (g.arity option.1 = some option.2.length)

/-- **Options are read as they were written**, whatever their values are. -/
theorem Grammar.parse_render {options : List (α × List α)} (h : options.all g.knows = true) :
    ∀ (e : ε) (rest : List α),
      g.parse e (render options ++ rest) = (g.effects options e).bind fun e => g.parse e rest := by
  induction options with
  | nil => exact fun _ _ => rfl
  | cons option options ih =>
    intro e rest
    rw [List.all_cons, Bool.and_eq_true, Grammar.knows, Bool.and_eq_true, Bool.and_eq_true,
      decide_eq_true_iff, decide_eq_true_iff] at h
    obtain ⟨⟨⟨hmark, hword⟩, harity⟩, hrest⟩ := h
    rw [render, List.flatMap_cons, List.cons_append, List.cons_append, List.append_assoc,
      Grammar.parse_option hmark hword harity, Grammar.effects, List.foldlM_cons]
    cases g.effect option.1 option.2 e with
    | none => rfl
    | some next => exact ih hrest next rest

/-- What is left is no longer than what was read. -/
theorem Grammar.read_length : ∀ (n : Nat) {e f : ε} {words left : List α},
    g.read n e words = some (f, left) → left.length ≤ words.length := by
  intro n
  induction n with
  | zero =>
    intro e f words left h
    cases h
  | succ n ih =>
    intro e f words left h
    cases words with
    | nil =>
      cases h
      exact Nat.le_refl _
    | cons word rest =>
      rw [List.length_cons]
      unfold Grammar.read at h
      split at h
      · cases h
        exact Nat.le_succ _
      split at h
      · split at h
        · cases h
        · next k _ =>
          split at h
          · cases h
          · obtain ⟨next, -, hnext⟩ := Option.bind_eq_some_iff.mp h
            have hdrop := ih hnext
            rw [List.length_drop] at hdrop
            omega
      · cases h
        exact Nat.le_refl _

/-- **A word that is an option is no operand**: what is left is shorter. -/
theorem Grammar.parse_length {f : ε} {left : List α} (hword : word = g.mark ∨ g.isOption word = true)
    (h : g.parse e (word :: rest) = some (f, left)) : left.length ≤ rest.length := by
  rw [Grammar.parse, Grammar.read] at h
  split at h
  · cases h
    exact Nat.le_refl _
  · next hmark =>
    rw [if_pos (hword.resolve_left hmark)] at h
    split at h
    · cases h
    · split at h
      · cases h
      · obtain ⟨next, -, hnext⟩ := Option.bind_eq_some_iff.mp h
        have hdrop := Grammar.read_length _ hnext
        rw [List.length_drop] at hdrop
        omega

end Lib.Options
