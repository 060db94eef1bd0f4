/-
  Ranking: sorting by several keys in a row, and cutting what is sorted.

  A comparator returns an `Ordering`; `Tells` is what it says about the RANKS of two values, which live in
  a linear order.  A comparator that looks at one key after the other says the lexicographic order of the
  tuple of keys (`Tells.then`, `Tells.descending`), and sorting by it sorts the ranks (`sorted_insertionSort`).

  `LongestWithin` is the cut by weight: the longest prefix whose weights fit a budget.
-/
import Mathlib.Algebra.GroupWithZero.Nat
import Mathlib.Data.List.Lex
import Mathlib.Data.List.Sort
import Mathlib.Data.Prod.Lex
import Mathlib.Algebra.Order.Group.Int
import Mathlib.Algebra.Order.Group.Nat

namespace Lib.Ranking

variable {α β : Type*}

/-! ## Comparators -/

/-- What an ordering says about two values. -/
def Tells [LT α] (o : Ordering) (a b : α) : Prop :=
  match o with
  | .lt => a < b
  | .eq => a = b
  | .gt => b < a

/-- "Not behind" is `≤`. -/
theorem Tells.isLE_iff [LinearOrder α] {o : Ordering} {a b : α} (h : Tells o a b) : o.isLE = true ↔ a ≤ b := by
  cases o with
  | lt => exact ⟨fun _ => le_of_lt h, fun _ => rfl⟩
  | eq => exact ⟨fun _ => le_of_eq h, fun _ => rfl⟩
  | gt => exact ⟨fun hle => (nomatch hle), fun hle => absurd h (not_lt_of_ge hle)⟩

/-- A lexicographic pair: the first decides, unless it says equal. -/
theorem Tells.then [LinearOrder α] [LinearOrder β] {o o' : Ordering} {a b : α} {c d : β}
    (h : Tells o a b) (h' : a = b → Tells o' c d) : Tells (o.then o') (toLex (a, c)) (toLex (b, d)) := by
  cases o with
  | lt => exact Prod.Lex.toLex_lt_toLex.mpr (Or.inl h)
  | gt => exact Prod.Lex.toLex_lt_toLex.mpr (Or.inl h)
  | eq =>
    obtain rfl : a = b := h
    have hsecond := h' rfl
    show Tells o' _ _
    cases o' with
    | lt => exact Prod.Lex.toLex_lt_toLex.mpr (Or.inr ⟨rfl, hsecond⟩)
    | gt => exact Prod.Lex.toLex_lt_toLex.mpr (Or.inr ⟨rfl, hsecond⟩)
    | eq => exact congrArg (fun x => toLex (a, x)) hsecond

/-- A number that is ranked the greater the earlier, and then the keys behind it. -/
theorem Tells.descending [LinearOrder β] {p q : Prop} [Decidable p] [Decidable q] {a b : ℤ} (hp : p ↔ a < b)
    (hq : q ↔ b < a) {o : Ordering} {c d : β} (h : a = b → Tells o c d) :
    Tells (if p then .gt else if q then .lt else o) (toLex (-a, c)) (toLex (-b, d)) := by
  split
  · next hlt =>
    have hab := hp.mp hlt
    exact Prod.Lex.toLex_lt_toLex.mpr (Or.inl (show -b < -a by omega))
  · next hle =>
    split
    · next hgt =>
      have hba := hq.mp hgt
      exact Prod.Lex.toLex_lt_toLex.mpr (Or.inl (show -a < -b by omega))
    · next hge =>
      have hab : a = b :=
        le_antisymm (not_lt.mp fun hgt => hge (hq.mpr hgt)) (not_lt.mp fun hlt => hle (hp.mpr hlt))
      exact (show Tells .eq (-a) (-b) by rw [hab]; rfl).then fun _ => h hab

/-! ## Sorting -/

/-- `ranked` is a sorting of `xs` by rank. -/
structure Ranked [LE β] (rank : α → β) (xs ranked : List α) : Prop where
  perm : ranked.Perm xs
  sorted : ranked.Pairwise fun a b => rank a ≤ rank b

/-- **Sorting by a comparator sorts the ranks**, if the comparator is right about the values sorted. -/
theorem sorted_insertionSort [LinearOrder β] {cmp : α → α → Ordering} {rank : α → β} {xs : List α}
    (h : ∀ a ∈ xs, ∀ b ∈ xs, Tells (cmp a b) (rank a) (rank b)) :
    Ranked rank xs (xs.insertionSort fun a b => (cmp a b).isLE = true) := by
  refine ⟨List.perm_insertionSort _ xs, ?_⟩
  have hsame : (xs.insertionSort fun a b => (cmp a b).isLE = true) =
      xs.insertionSort fun a b => rank a ≤ rank b := by
    have hmap := List.map_insertionSort (r := fun a b => (cmp a b).isLE = true)
      (s := fun a b => rank a ≤ rank b) id xs fun a ha b hb => (h a ha b hb).isLE_iff
    rwa [List.map_id, List.map_id] at hmap
  rw [hsame]
  have htotal : Std.Total fun a b : α => rank a ≤ rank b := ⟨fun a b => le_total (rank a) (rank b)⟩
  have htrans : IsTrans α fun a b : α => rank a ≤ rank b := ⟨fun _ _ _ hab hbc => le_trans hab hbc⟩
  exact List.pairwise_insertionSort _ xs

/-! ## Cutting -/

variable (weight : α → ℕ)

/-- `kept` is the longest prefix of `xs` whose weights fit the budget. -/
structure LongestWithin (budget : ℕ) (xs kept : List α) : Prop where
  initial : kept <+: xs
  fits : (kept.map weight).sum ≤ budget
  longest : ∀ longer, longer <+: xs → (longer.map weight).sum ≤ budget → longer <+: kept

/-- Of nothing, nothing is kept. -/
theorem LongestWithin.nil (budget : ℕ) : LongestWithin weight budget [] [] :=
  ⟨List.prefix_rfl, Nat.zero_le _, fun _ h _ => h⟩

/-- Where the first does not fit, nothing is kept. -/
theorem LongestWithin.stop {budget : ℕ} {x : α} (h : budget < weight x) (xs : List α) :
    LongestWithin weight budget (x :: xs) [] := by
  refine ⟨List.nil_prefix, Nat.zero_le _, fun longer hlonger hfits => ?_⟩
  cases longer with
  | nil => exact List.prefix_rfl
  | cons y ys =>
    obtain rfl := (List.cons_prefix_cons.mp hlonger).1
    rw [List.map_cons, List.sum_cons] at hfits
    omega

/-- Where the first fits, the rest is kept as far as the rest of the budget goes. -/
theorem LongestWithin.cons {budget : ℕ} {x : α} {xs kept : List α}
    (h : LongestWithin weight budget xs kept) :
    LongestWithin weight (weight x + budget) (x :: xs) (x :: kept) := by
  refine ⟨List.cons_prefix_cons.mpr ⟨rfl, h.initial⟩, ?_, fun longer hlonger hfits => ?_⟩
  · rw [List.map_cons, List.sum_cons]
    exact Nat.add_le_add_left h.fits _
  · cases longer with
    | nil => exact List.nil_prefix
    | cons y ys =>
      obtain ⟨rfl, hys⟩ := List.cons_prefix_cons.mp hlonger
      rw [List.map_cons, List.sum_cons] at hfits
      exact List.cons_prefix_cons.mpr ⟨rfl, h.longest ys hys (by omega)⟩

end Lib.Ranking
