/-
  A heap with copies in it, and copying when memory may run out.

  1. **Heap** — what lies at each address.  A new copy goes to an address that was never used, so that
     what was freed stays unreadable.

  2. **Copying** — `copyAll` copies a list and clears its copies again when one of them gets no memory.
     Granted all it asks for, it gives new addresses that hold the list (`copyAll_granted`); refused, it
     leaves every cell as it was (`copyAll_refused`).

  3. **Frame** — `Keeps`: what was in use before is unchanged.
-/
import Mathlib.Data.List.Range
import Mathlib.Data.List.Nodup
import SmolClaw.Lib.Memory

namespace Lib.Cells

open Lib.Memory

universe u

/-- A heap; from `next` on nothing was ever in use. -/
structure Heap (α : Type u) where
  cells : Nat → Option α
  next : Nat
  unused : ∀ a, next ≤ a → cells a = none

variable {α : Type u}

/-- A new cell. -/
def Heap.alloc (heap : Heap α) (x : α) : Heap α where
  cells a := if a = heap.next then some x else heap.cells a
  next := heap.next + 1
  unused a ha := by
    rw [if_neg (by omega)]
    exact heap.unused a (by omega)

def Heap.free (heap : Heap α) (b : Nat) : Heap α where
  cells a := if a = b then none else heap.cells a
  next := heap.next
  unused a ha := by
    split
    · rfl
    · exact heap.unused a ha

def Heap.freeAll (heap : Heap α) (bs : List Nat) : Heap α := bs.foldl Heap.free heap

/-- The cells at these addresses hold these values. -/
def Heap.Holds (heap : Heap α) (as : List Nat) (xs : List α) : Prop := as.map heap.cells = xs.map some

/-- What was in use is unchanged. -/
def Heap.Keeps (heap after : Heap α) : Prop :=
  heap.next ≤ after.next ∧ ∀ a < heap.next, after.cells a = heap.cells a

@[simp] theorem Heap.next_freeAll (heap : Heap α) (bs : List Nat) : (heap.freeAll bs).next = heap.next := by
  induction bs generalizing heap with
  | nil => rfl
  | cons b bs ih => exact ih (heap.free b)

/-- Exactly the freed cells are gone. -/
theorem Heap.cells_freeAll (heap : Heap α) (bs : List Nat) (a : Nat) :
    (heap.freeAll bs).cells a = if a ∈ bs then none else heap.cells a := by
  induction bs generalizing heap with
  | nil => rfl
  | cons b bs ih =>
    show ((heap.free b).freeAll bs).cells a = _
    rw [ih]
    by_cases hmem : a ∈ bs
    · rw [if_pos hmem, if_pos (List.mem_cons_of_mem b hmem)]
    · rw [if_neg hmem]
      show (if a = b then none else heap.cells a) = _
      by_cases hb : a = b
      · rw [if_pos hb, if_pos (hb ▸ List.mem_cons_self)]
      · rw [if_neg hb, if_neg fun h => (List.mem_cons.mp h).elim hb hmem]

theorem Heap.cells_freeAll_of_not_mem {heap : Heap α} {bs : List Nat} {a : Nat} (h : a ∉ bs) :
    (heap.freeAll bs).cells a = heap.cells a := by rw [heap.cells_freeAll, if_neg h]

/-- What is in use lies below `next`. -/
theorem Heap.lt_next {heap : Heap α} {a : Nat} (h : heap.cells a ≠ none) : a < heap.next := by
  apply Nat.lt_of_not_le
  intro hle
  exact h (heap.unused a hle)

/-! ## Frame -/

theorem Heap.Keeps.refl (heap : Heap α) : heap.Keeps heap := ⟨Nat.le_refl _, fun _ _ => rfl⟩

theorem Heap.Keeps.trans {heap mid after : Heap α} (h : heap.Keeps mid) (h' : mid.Keeps after) :
    heap.Keeps after := by
  refine ⟨Nat.le_trans h.1 h'.1, fun a ha => ?_⟩
  have hlt := h.1
  rw [h'.2 a (by omega), h.2 a ha]

/-- Freeing new cells keeps the old ones. -/
theorem Heap.Keeps.freeAll {heap after : Heap α} (h : heap.Keeps after) {bs : List Nat}
    (hnew : ∀ b ∈ bs, heap.next ≤ b) : heap.Keeps (after.freeAll bs) := by
  refine ⟨by rw [Heap.next_freeAll]; exact h.1, fun a ha => ?_⟩
  have hout : a ∉ bs := fun hmem => by have := hnew a hmem; omega
  rw [Heap.cells_freeAll_of_not_mem hout, h.2 a ha]

theorem Heap.Keeps.freeRange {heap after : Heap α} (h : heap.Keeps after) (n : Nat) :
    heap.Keeps (after.freeAll (List.range' heap.next n)) := h.freeAll fun _ hb => (List.mem_range'_1.mp hb).1

/-- **Cells in use are read the same**, wherever they are. -/
theorem Heap.Keeps.read {heap after : Heap α} (h : heap.Keeps after) {a : Nat}
    (ha : heap.cells a ≠ none) : after.cells a = heap.cells a := h.2 a (Heap.lt_next ha)

/-! ## Copying -/

/-- A heap with the answers to the next requests. -/
structure Memory (α : Type u) where
  heap : Heap α
  grants : Grants

/-- A request that gives no cell. -/
def Memory.request (m : Memory α) : Bool × Memory α := (m.grants 0, { m with grants := m.grants.after 1 })

/-- Cells that are cleared. -/
def Memory.freeAll (m : Memory α) (as : List Nat) : Memory α := { m with heap := m.heap.freeAll as }

/-- A copy. -/
def Memory.copy (m : Memory α) (x : α) : Option Nat × Memory α :=
  if m.grants 0 then (some m.heap.next, { heap := m.heap.alloc x, grants := m.grants.after 1 })
  else (none, { m with grants := m.grants.after 1 })

/-- Copies of a list; when one of them gets no memory, those before are cleared. -/
def Memory.copyAll (m : Memory α) : List α → Option (List Nat) × Memory α
  | [] => (some [], m)
  | x :: xs =>
      match m.copy x with
      | (none, m) => (none, m)
      | (some a, m) =>
          match m.copyAll xs with
          | (none, m) => (none, m.freeAll [a])
          | (some as, m) => (some (a :: as), m)

theorem Memory.copyAll_granted :
    ∀ (xs : List α) (m : Memory α), m.grants.First xs.length →
      ∃ heap, m.copyAll xs = (some (List.range' m.heap.next xs.length), ⟨heap, m.grants.after xs.length⟩) ∧
        m.heap.Keeps heap ∧ heap.Holds (List.range' m.heap.next xs.length) xs ∧
        heap.next = m.heap.next + xs.length := by
  intro xs
  induction xs with
  | nil =>
    intro m _
    exact ⟨m.heap, by rw [List.length_nil, m.grants.after_zero]; rfl, .refl _, rfl, rfl⟩
  | cons x xs ih =>
    intro m hgrants
    rw [List.length_cons, Nat.add_comm] at hgrants
    obtain ⟨hfirst, hrest⟩ := (m.grants.first_add 1 xs.length).mp hgrants
    obtain ⟨heap, hcopy, hkeeps, hholds, hnext⟩ := ih ⟨m.heap.alloc x, m.grants.after 1⟩ hrest
    have hhead : m.copy x = (some m.heap.next, ⟨m.heap.alloc x, m.grants.after 1⟩) :=
      if_pos (m.grants.first_one.mp hfirst)
    have hsame : (m.heap.alloc x).cells m.heap.next = some x := if_pos rfl
    have hlt : m.heap.next < (m.heap.alloc x).next := Nat.lt_succ_self _
    refine ⟨heap, ?_, ?_, ?_, ?_⟩
    · rw [copyAll, hhead]
      dsimp only
      rw [hcopy, List.length_cons, List.range'_succ]
      dsimp only
      rw [Grants.after_after, Nat.add_comm 1]
      rfl
    · refine ⟨Nat.le_of_lt (Nat.lt_of_lt_of_le hlt hkeeps.1), fun a ha => ?_⟩
      rw [hkeeps.2 a (Nat.lt_succ_of_lt ha)]
      exact if_neg (Nat.ne_of_lt ha)
    · show (List.range' m.heap.next (xs.length + 1)).map heap.cells = some x :: xs.map some
      rw [List.range'_succ, List.map_cons, hkeeps.2 _ hlt, hsame]
      exact congrArg _ hholds
    · rw [hnext, List.length_cons]
      show m.heap.next + 1 + xs.length = _
      omega

theorem Memory.copyAll_refused :
    ∀ (xs : List α) (m : Memory α), ¬ m.grants.First xs.length →
      ∃ after, m.copyAll xs = (none, after) ∧ m.heap.Keeps after.heap := by
  intro xs
  induction xs with
  | nil => intro m h; exact absurd m.grants.first_zero h
  | cons x xs ih =>
    intro m hrefused
    by_cases hfirst : m.grants 0 = true
    · have hhead : m.copy x = (some m.heap.next, ⟨m.heap.alloc x, m.grants.after 1⟩) := if_pos hfirst
      have hrest : ¬ (m.grants.after 1).First xs.length := by
        intro hrest
        apply hrefused
        rw [List.length_cons, Nat.add_comm]
        exact (m.grants.first_add 1 xs.length).mpr ⟨m.grants.first_one.mpr hfirst, hrest⟩
      obtain ⟨after, hcopy, hkeeps⟩ := ih ⟨m.heap.alloc x, m.grants.after 1⟩ hrest
      have hold : m.heap.Keeps (m.heap.alloc x) :=
        ⟨Nat.le_succ _, fun a ha => if_neg (Nat.ne_of_lt ha)⟩
      refine ⟨after.freeAll [m.heap.next], ?_, (hold.trans hkeeps).freeAll fun b hb => ?_⟩
      · rw [copyAll, hhead]
        dsimp only
        rw [hcopy]
      · rw [List.mem_singleton.mp hb]
    · have hhead : m.copy x = (none, { m with grants := m.grants.after 1 }) := if_neg hfirst
      exact ⟨{ m with grants := m.grants.after 1 }, by rw [copyAll, hhead], .refl _⟩

end Lib.Cells
