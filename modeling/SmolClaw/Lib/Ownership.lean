/-
  Named resources and who owns them.

  1. **Rows** — a list of resources, each a name and a content; an owner has at most one of them.

  2. **Following** — `Follows rows own`: the resources are exactly the owned ones.  `Owned rows own` says
     besides that no two owners have a resource of one name.

  3. **Operations** — exclusive creation (`Owned.create`) and removal by the owner (`Owned.release`) keep
     this.  A resource that nobody owns breaks it (`Owned.leak`), and so does an owner that goes away and
     leaves its resource behind (`Owned.drop`).
-/
import Mathlib.Data.List.Basic
import Mathlib.Logic.Function.Basic

namespace Lib.Ownership

variable {ι κ ν : Type*} {rows : List (κ × ν)} {own : ι → Option (κ × ν)}

/-- The resources are those that somebody owns. -/
def Follows (rows : List (κ × ν)) (own : ι → Option (κ × ν)) : Prop :=
  ∀ row, row ∈ rows ↔ ∃ i, own i = some row

/-- The resources are those that somebody owns, and each name has one owner at most. -/
structure Owned (rows : List (κ × ν)) (own : ι → Option (κ × ν)) : Prop where
  follows : Follows rows own
  single : ∀ i j r s, own i = some r → own j = some s → r.1 = s.1 → i = j

/-- Nothing is there, and nobody owns anything. -/
theorem Owned.nil : Owned ([] : List (κ × ν)) fun _ : ι => none := by
  constructor
  · intro row
    refine ⟨fun h => absurd h List.not_mem_nil, ?_⟩
    rintro ⟨i, hi⟩
    cases hi
  · intro i j r s hr
    cases hr

/-- The name of an owned resource is taken. -/
theorem Follows.taken (h : Follows rows own) {i : ι} {row : κ × ν} (hi : own i = some row) :
    row.1 ∈ rows.map Prod.fst :=
  List.mem_map_of_mem ((h row).mpr ⟨i, hi⟩)

variable [DecidableEq ι]

/-- **Exclusive creation**: a new name, for an owner that had nothing. -/
theorem Owned.create (h : Owned rows own) {i : ι} (hi : own i = none) {name : κ}
    (hname : name ∉ rows.map Prod.fst) (content : ν) :
    Owned ((name, content) :: rows) (Function.update own i (some (name, content))) := by
  -- what is owned after the creation: the new resource by `i`, and what was owned before by the others
  have howned : ∀ j row, Function.update own i (some (name, content)) j = some row ↔
      (j = i ∧ row = (name, content)) ∨ (j ≠ i ∧ own j = some row) := by
    intro j row
    by_cases hj : j = i
    · subst hj
      rw [Function.update_self, Option.some.injEq]
      refine ⟨fun h => Or.inl ⟨rfl, h.symm⟩, ?_⟩
      rintro (⟨-, hrow⟩ | ⟨hne, -⟩)
      · exact hrow.symm
      · exact absurd rfl hne
    · rw [Function.update_of_ne hj]
      exact ⟨fun h => Or.inr ⟨hj, h⟩, fun h => h.elim (fun h => absurd h.1 hj) And.right⟩
  constructor
  · intro row
    rw [List.mem_cons, h.follows row]
    constructor
    · rintro (rfl | ⟨j, hj⟩)
      · exact ⟨i, (howned i _).mpr (Or.inl ⟨rfl, rfl⟩)⟩
      · have hne : j ≠ i := by
          rintro rfl
          rw [hi] at hj
          cases hj
        exact ⟨j, (howned j row).mpr (Or.inr ⟨hne, hj⟩)⟩
    · rintro ⟨j, hj⟩
      rcases (howned j row).mp hj with ⟨-, hrow⟩ | ⟨-, hrow⟩
      · exact Or.inl hrow
      · exact Or.inr ⟨j, hrow⟩
  · intro j k r s hj hk hrs
    rcases (howned j r).mp hj with ⟨rfl, rfl⟩ | ⟨-, hr⟩
    · rcases (howned k s).mp hk with ⟨rfl, -⟩ | ⟨-, hs⟩
      · rfl
      · exact absurd (h.follows.taken hs) (by rw [← hrs]; exact hname)
    · rcases (howned k s).mp hk with ⟨-, rfl⟩ | ⟨-, hs⟩
      · exact absurd (h.follows.taken hr) (by rw [hrs]; exact hname)
      · exact h.single j k r s hr hs hrs

/-- **Removal**: the owner of a resource takes it away. -/
theorem Owned.release [DecidableEq κ] (h : Owned rows own) {i : ι} {row : κ × ν}
    (hi : own i = some row) :
    Owned (rows.filter fun other => other.1 ≠ row.1) (Function.update own i none) := by
  have howned : ∀ j other,
      Function.update own i none j = some other ↔ j ≠ i ∧ own j = some other := by
    intro j other
    by_cases hj : j = i
    · subst hj
      rw [Function.update_self]
      refine ⟨fun h => ?_, fun h => absurd rfl h.1⟩
      cases h
    · rw [Function.update_of_ne hj]
      exact ⟨fun h => ⟨hj, h⟩, And.right⟩
  constructor
  · intro other
    rw [List.mem_filter, h.follows other]
    constructor
    · rintro ⟨⟨j, hj⟩, hne⟩
      refine ⟨j, (howned j other).mpr ⟨?_, hj⟩⟩
      rintro rfl
      rw [hi] at hj
      obtain rfl := Option.some.inj hj
      exact absurd rfl (of_decide_eq_true hne)
    · rintro ⟨j, hj⟩
      obtain ⟨hne, hother⟩ := (howned j other).mp hj
      -- a name has one owner
      refine ⟨⟨j, hother⟩, decide_eq_true fun hname => ?_⟩
      exact hne (h.single j i other row hother hi hname)
  · intro j k r s hj hk hrs
    exact h.single j k r s ((howned j r).mp hj).2 ((howned k s).mp hk).2 hrs

omit [DecidableEq ι] in
/-- **A leak**: a resource of a new name that nobody owns. -/
theorem Owned.leak (h : Owned rows own) {name : κ} (hname : name ∉ rows.map Prod.fst) (content : ν) :
    ¬ Follows ((name, content) :: rows) own := by
  intro hleak
  obtain ⟨i, hi⟩ := (hleak (name, content)).mp List.mem_cons_self
  exact hname (h.follows.taken hi)

/-- **A drop**: the owner of a resource goes away, and the resource stays. -/
theorem Owned.drop (h : Owned rows own) {i : ι} {row : κ × ν} (hi : own i = some row) :
    ¬ Follows rows (Function.update own i none) := by
  intro hdrop
  obtain ⟨j, hj⟩ := (hdrop row).mp ((h.follows row).mpr ⟨i, hi⟩)
  by_cases hji : j = i
  · rw [hji, Function.update_self] at hj
    cases hj
  · rw [Function.update_of_ne hji] at hj
    exact hji (h.single j i row row hj hi rfl)

end Lib.Ownership
