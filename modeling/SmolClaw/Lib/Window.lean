/-
  Lists of bounded length that forget from the front.

  1. **Trimming** — `trimFront n xs` drops elements from the front while there are more than `n`: what
     stays is the last `n` (`trimFront_eq_drop`).  Trimming on the way makes no difference in the end
     (`trimFront_append_left`).

  2. **Pushing** — `push cap xs x` makes room first and appends then.  A window of at most `cap`
     elements stays one, and pushing a whole list leaves its last `cap` elements (`foldl_push`).
-/
import Mathlib.Data.List.Basic

namespace Lib.Window

variable {α : Type*}

/-! ## Trimming -/

/-- Drop elements from the front while there are more than `n`. -/
def trimFront (n : Nat) : List α → List α
  | [] => []
  | x :: xs => if n < (x :: xs).length then trimFront n xs else x :: xs

theorem trimFront_eq_drop (n : Nat) (xs : List α) : trimFront n xs = xs.drop (xs.length - n) := by
  induction xs with
  | nil => rw [List.drop_nil, trimFront]
  | cons x xs ih =>
    rw [trimFront]
    split
    next h =>
      rw [ih, show (x :: xs).length - n = (xs.length - n) + 1 by rw [List.length_cons] at h ⊢; omega,
        List.drop_succ_cons]
    next h =>
      rw [show (x :: xs).length - n = 0 by omega, List.drop_zero]

theorem length_trimFront (n : Nat) (xs : List α) : (trimFront n xs).length = min n xs.length := by
  rw [trimFront_eq_drop, List.length_drop]
  omega

theorem length_trimFront_le (n : Nat) (xs : List α) : (trimFront n xs).length ≤ n := by
  rw [length_trimFront]
  omega

theorem trimFront_of_le {n : Nat} {xs : List α} (h : xs.length ≤ n) : trimFront n xs = xs := by
  rw [trimFront_eq_drop, Nat.sub_eq_zero_of_le h, List.drop_zero]

theorem trimFront_suffix (n : Nat) (xs : List α) : trimFront n xs <:+ xs := by
  rw [trimFront_eq_drop]
  exact List.drop_suffix _ _

/-- **Trimming on the way makes no difference**: the last `n` of the last `n` and more are the last
    `n`. -/
theorem trimFront_append_left (n : Nat) (xs ys : List α) :
    trimFront n (trimFront n xs ++ ys) = trimFront n (xs ++ ys) := by
  rw [trimFront_eq_drop, trimFront_eq_drop n xs, trimFront_eq_drop n (xs ++ ys), List.length_append,
    List.length_append, List.length_drop]
  have hsplit : xs.drop (xs.length - n) ++ ys = (xs ++ ys).drop (xs.length - n) := by
    rw [List.drop_append_of_le_length (by omega)]
  rw [hsplit, List.drop_drop]
  congr 1
  omega

/-! ## Pushing -/

/-- Make room for one more, then append. -/
def push (cap : Nat) (xs : List α) (x : α) : List α := trimFront (cap - 1) xs ++ [x]

theorem mem_push_self (cap : Nat) (xs : List α) (x : α) : x ∈ push cap xs x :=
  List.mem_append_right _ List.mem_cons_self

/-- While there is room nothing is forgotten. -/
theorem push_of_lt {cap : Nat} {xs : List α} (h : xs.length < cap) (x : α) :
    push cap xs x = xs ++ [x] := by
  rw [push, trimFront_of_le (by omega)]

theorem length_push_le {cap : Nat} (hcap : 0 < cap) (xs : List α) (x : α) :
    (push cap xs x).length ≤ cap := by
  have := length_trimFront_le (cap - 1) xs
  rw [push, List.length_append, List.length_singleton]
  omega

/-- **At most the first element is forgotten** when a window takes one more. -/
theorem mem_push_of_mem {cap : Nat} {xs : List α} {x y : α} (hlen : xs.length ≤ cap) (hy : y ∈ xs)
    (hfirst : cap ≤ xs.length → xs.head? ≠ some y) : y ∈ push cap xs x := by
  refine List.mem_append_left _ ?_
  rw [trimFront_eq_drop]
  by_cases hfull : cap ≤ xs.length
  · cases xs with
    | nil => exact absurd hy List.not_mem_nil
    | cons z zs =>
      have hne : y ≠ z := fun h => hfirst hfull (congrArg some h.symm)
      have hrest : y ∈ zs := (List.mem_cons.mp hy).resolve_left hne
      have hle : (z :: zs).length - (cap - 1) ≤ 1 := by omega
      exact (List.drop_subset_drop_left (z :: zs) hle) hrest
  · rwa [show xs.length - (cap - 1) = 0 by omega, List.drop_zero]

/-- Pushing a whole list leaves the last `cap` elements. -/
theorem foldl_push {cap : Nat} (hcap : 0 < cap) :
    ∀ (ys xs : List α), xs.length ≤ cap → ys.foldl (push cap) xs = trimFront cap (xs ++ ys) := by
  intro ys
  induction ys with
  | nil =>
    intro xs h
    rw [List.foldl_nil, List.append_nil, trimFront_of_le h]
  | cons y ys ih =>
    intro xs h
    have hpush : push cap xs y = trimFront cap (xs ++ [y]) := by
      rw [push, trimFront_eq_drop, trimFront_eq_drop, List.length_append, List.length_singleton,
        List.drop_append_of_le_length (by omega)]
      congr 2
      omega
    rw [List.foldl_cons, ih _ (length_push_le hcap xs y), hpush, trimFront_append_left,
      List.append_assoc, List.singleton_append]

end Lib.Window
