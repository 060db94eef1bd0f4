/-
  Sequences with a mark at their end.

  1. **Ending once** — `EndsOnce mark l`: the last element of `l` is marked, and no other one is.

  2. **Closing** — a writer that keeps a flag appends a mark at the end unless the flag says that one was
     written.  Whatever the flag follows, the last element or all of them, the closed sequence ends once
     exactly when no mark stood in front of another element (`endsOnce_close`).
-/
import Mathlib.Data.List.Basic

namespace Lib.EndMarker

variable {α : Type*} (mark : α → Bool)

/-- One mark, at the end. -/
def EndsOnce (l : List α) : Prop :=
  ∃ before last, l = before ++ [last] ∧ mark last = true ∧ ∀ x ∈ before, mark x = false

/-- No mark in front of another element. -/
def OnlyLast (l : List α) : Prop := ∀ x ∈ l.dropLast, mark x = false

instance (l : List α) : Decidable (OnlyLast mark l) := inferInstanceAs (Decidable (∀ x ∈ l.dropLast, _))

/-- The mark is appended unless there is one. -/
def close (closed : Bool) (l : List α) (x : α) : List α := if closed then l else l ++ [x]

variable {mark}

theorem endsOnce_concat {l : List α} {x : α} (hx : mark x = true) :
    EndsOnce mark (l ++ [x]) ↔ ∀ y ∈ l, mark y = false := by
  constructor
  · rintro ⟨before, last, heq, -, hbefore⟩
    obtain ⟨rfl, -⟩ := List.append_inj' heq rfl
    exact hbefore
  · intro h
    exact ⟨l, x, rfl, hx, h⟩

/-- **One mark in the middle**: nothing may follow it. -/
theorem endsOnce_append_cons {l m : List α} {x : α} (hx : mark x = true) (hl : ∀ y ∈ l, mark y = false)
    (hm : ∀ y ∈ m, mark y = false) : EndsOnce mark (l ++ x :: m) ↔ m = [] := by
  constructor
  · rintro ⟨before, last, heq, hlast, -⟩
    rcases List.eq_nil_or_concat' m with rfl | ⟨m, y, rfl⟩
    · rfl
    · -- the last element would be one of `m`, which has no marks
      have hsplit : (l ++ x :: m) ++ [y] = before ++ [last] := by
        rw [← heq, List.append_assoc, List.cons_append]
      obtain ⟨-, hy⟩ := List.append_inj' hsplit rfl
      obtain rfl := (List.cons.inj hy).1
      rw [hm y (List.mem_append_right m List.mem_cons_self)] at hlast
      exact nomatch hlast
  · rintro rfl
    exact (endsOnce_concat hx).mpr hl

/-- A sequence with a mark ends once if no mark stands in front of another element. -/
theorem endsOnce_iff_onlyLast {l : List α} (h : ∃ x ∈ l, mark x = true) :
    EndsOnce mark l ↔ OnlyLast mark l := by
  obtain ⟨x, hx, hmark⟩ := h
  rcases List.eq_nil_or_concat' l with rfl | ⟨before, last, rfl⟩
  · exact absurd hx List.not_mem_nil
  · rw [OnlyLast, List.dropLast_concat]
    constructor
    · rintro ⟨front, other, heq, -, hfront⟩
      obtain ⟨rfl, -⟩ := List.append_inj' heq rfl
      exact hfront
    · intro honly
      refine ⟨before, last, rfl, ?_, honly⟩
      rcases List.mem_append.mp hx with hbefore | hlast
      · rw [honly x hbefore] at hmark
        exact nomatch hmark
      · rw [← List.mem_singleton.mp hlast]
        exact hmark

/-- A sequence whose last element is no mark has none in front of another element if it has none. -/
theorem onlyLast_iff_forall {l : List α} (hlast : ∀ last ∈ l.getLast?, mark last = false) :
    OnlyLast mark l ↔ ∀ x ∈ l, mark x = false := by
  rcases List.eq_nil_or_concat' l with rfl | ⟨before, last, rfl⟩
  · exact Iff.rfl
  · rw [List.getLast?_concat] at hlast
    rw [OnlyLast, List.dropLast_concat]
    constructor
    · intro h x hx
      rcases List.mem_append.mp hx with hx | hx
      · exact h x hx
      · rw [List.mem_singleton.mp hx]
        exact hlast last rfl
    · exact fun h x hx => h x (List.mem_append_left _ hx)

/-- **Closing**: the flag may follow the last element or all of them. -/
theorem endsOnce_close {closed : Bool} {l : List α} {x : α} (hx : mark x = true)
    (hclosed : closed = true → ∃ y ∈ l, mark y = true)
    (hopen : closed = false → ∀ last ∈ l.getLast?, mark last = false) :
    EndsOnce mark (close closed l x) ↔ OnlyLast mark l := by
  cases closed with
  | true => exact endsOnce_iff_onlyLast (hclosed rfl)
  | false => exact (endsOnce_concat hx).trans (onlyLast_iff_forall (hopen rfl)).symm

end Lib.EndMarker
