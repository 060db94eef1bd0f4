/-
  Reading a text piece by piece through a buffer.

  `readLines brk size text` are the pieces: each ends behind the next line break, or where the buffer
  is full.  A text that starts with few bytes and no break has them at the start of its first piece
  (`readLines_head`), and a short line is a piece of its own (`readLines_line`).

  `lines brk text` are the lines without a limit, each without its break; `lines_render` reads back what
  was written line by line.
-/
import Mathlib.Data.List.Basic

namespace Lib.Lines

variable {α : Type*} [DecidableEq α]

/-- The pieces, from one that has been read in part and still has some room. -/
def readFrom (brk : α) (size : Nat) : Nat → List α → List α → List (List α)
  | _, piece, [] => if piece = [] then [] else [piece]
  | room, piece, c :: rest =>
      if c = brk ∨ room ≤ 1 then (piece ++ [c]) :: readFrom brk size size [] rest
      else readFrom brk size (room - 1) (piece ++ [c]) rest

/-- The pieces of a text, of `size` elements at most. -/
def readLines (brk : α) (size : Nat) (text : List α) : List (List α) := readFrom brk size size [] text

variable {brk : α} {size : Nat}

theorem readFrom_head (text : List α) :
    ∀ (room : Nat) (piece : List α), piece ++ text ≠ [] →
      ∃ first rest, readFrom brk size room piece text = first :: rest ∧ piece <+: first := by
  induction text with
  | nil =>
    intro room piece hne
    rw [List.append_nil] at hne
    exact ⟨piece, [], by rw [readFrom, if_neg hne], List.prefix_refl piece⟩
  | cons c text ih =>
    intro room piece _
    rw [readFrom]
    split
    · exact ⟨piece ++ [c], _, rfl, List.prefix_append piece [c]⟩
    · obtain ⟨first, rest, heq, hprefix⟩ := ih (room - 1) (piece ++ [c]) (by simp)
      exact ⟨first, rest, heq, (List.prefix_append piece [c]).trans hprefix⟩

/-- **The first piece** has what a text starts with, up to the size of the buffer and the first break. -/
theorem readFrom_start (start : List α) :
    ∀ (room : Nat) (piece rest : List α), start ≠ [] → brk ∉ start → start.length ≤ room →
      ∃ first more, readFrom brk size room piece (start ++ rest) = first :: more ∧
        piece ++ start <+: first := by
  induction start with
  | nil => exact fun _ _ _ hne => absurd rfl hne
  | cons c start ih =>
    intro room piece rest _ hbrk hlen
    rw [List.mem_cons, not_or] at hbrk
    rw [List.length_cons] at hlen
    have happ : piece ++ c :: start = (piece ++ [c]) ++ start := by rw [List.append_assoc]; rfl
    rw [List.cons_append, readFrom]
    by_cases hlast : room ≤ 1
    · obtain rfl : start = [] := List.length_eq_zero_iff.mp (by omega)
      rw [if_pos (Or.inr hlast)]
      exact ⟨piece ++ [c], _, rfl, List.prefix_refl _⟩
    · rw [if_neg (not_or.mpr ⟨Ne.symm hbrk.1, hlast⟩), happ]
      by_cases hstart : start = []
      · subst hstart
        rw [List.append_nil]
        exact readFrom_head rest (room - 1) (piece ++ [c]) (by simp)
      · exact ih (room - 1) (piece ++ [c]) rest hstart hbrk.2 (by omega)

theorem readLines_head {start : List α} (hne : start ≠ []) (hbrk : brk ∉ start)
    (hlen : start.length ≤ size) (rest : List α) :
    ∃ first more, readLines brk size (start ++ rest) = first :: more ∧ start <+: first :=
  readFrom_start start size [] rest hne hbrk hlen

/-- **A line** with its break, if the buffer takes it, is a piece of its own. -/
theorem readFrom_line (line : List α) :
    ∀ (room : Nat) (piece rest : List α), brk ∉ line → line.length < room →
      readFrom brk size room piece (line ++ brk :: rest) =
        (piece ++ line ++ [brk]) :: readFrom brk size size [] rest := by
  induction line with
  | nil =>
    intro room piece rest _ _
    rw [List.append_nil, List.nil_append, readFrom, if_pos (Or.inl rfl)]
  | cons c line ih =>
    intro room piece rest hbrk hlen
    rw [List.mem_cons, not_or] at hbrk
    rw [List.length_cons] at hlen
    rw [List.cons_append, readFrom, if_neg (not_or.mpr ⟨Ne.symm hbrk.1, by omega⟩),
      ih (room - 1) (piece ++ [c]) rest hbrk.2 (by omega), List.append_assoc piece [c] line]
    rfl

theorem readLines_line {line : List α} (hbrk : brk ∉ line) (hlen : line.length < size)
    (rest : List α) :
    readLines brk size (line ++ brk :: rest) = (line ++ [brk]) :: readLines brk size rest :=
  readFrom_line line size [] rest hbrk hlen

/-! ## Lines without a limit -/

/-- The lines of a text; what stands behind the last break is a line if it is not empty. -/
def lines (brk : α) : List α → List (List α)
  | [] => []
  | c :: rest =>
      if c = brk then [] :: lines brk rest
      else
        match lines brk rest with
        | [] => [[c]]
        | line :: more => (c :: line) :: more

/-- **A line** in front of its break is the first one. -/
theorem lines_append_cons {line : List α} (hbrk : brk ∉ line) (rest : List α) :
    lines brk (line ++ brk :: rest) = line :: lines brk rest := by
  induction line with
  | nil => rw [List.nil_append, lines, if_pos rfl]
  | cons c line ih =>
    rw [List.mem_cons, not_or] at hbrk
    rw [List.cons_append, lines, if_neg (Ne.symm hbrk.1), ih hbrk.2]

/-- **Round trip**: lines that were written one by one, each with its break. -/
theorem lines_render {written : List (List α)} (hbrk : ∀ line ∈ written, brk ∉ line) :
    lines brk (written.flatMap (· ++ [brk])) = written := by
  induction written with
  | nil => rfl
  | cons line written ih =>
    rw [List.flatMap_cons, List.append_assoc, List.singleton_append,
      lines_append_cons (hbrk line List.mem_cons_self),
      ih fun l hl => hbrk l (List.mem_cons_of_mem line hl)]

example : readLines '.' 3 "ab.abcd".toList = ["ab.".toList, "abc".toList, "d".toList] := by decide

end Lib.Lines
