/-
  Searching a text for a needle, and texts in which the needle does not occur.

  1. **First occurrence** — `firstInfix needle s` cuts `s` before the first occurrence of `needle`;
     written before a needle, a text is found whole as long as no occurrence STARTS in it
     (`firstInfix_append`).

  2. **Absence** — `Free needle s`.  A byte that is not in the needle separates: no occurrence reaches
     across it (`Free.append_cons`).  An escaping that maps each byte to itself or to bytes outside the
     needle creates no occurrence (`Free.flatMap`).
-/
import Mathlib.Data.List.Infix

namespace Lib.Infix

variable {α : Type*}

/-! ## Absence -/

/-- The needle does not occur in `s`. -/
def Free (needle s : List α) : Prop := ¬ needle <:+: s

instance [DecidableEq α] (needle s : List α) : Decidable (Free needle s) :=
  inferInstanceAs (Decidable (¬ needle <:+: s))

variable {needle : List α}

theorem Free.nil (hne : needle ≠ []) : Free needle [] := fun h => hne (List.infix_nil.mp h)

theorem not_mem_of_free {x : α} {s : List α} (h : Free [x] s) : x ∉ s := by
  intro hx
  obtain ⟨a, b, rfl⟩ := List.append_of_mem hx
  exact h ⟨a, b, by rw [List.append_assoc, List.singleton_append]⟩

/-- A byte outside the needle can stand before any text. -/
theorem Free.cons {x : α} {s : List α} (hne : needle ≠ []) (hx : x ∉ needle) (hs : Free needle s) :
    Free needle (x :: s) := by
  intro h
  rcases List.infix_cons_iff.mp h with hstart | hlater
  · -- an occurrence at the front would begin with `x`
    obtain ⟨c, rest, rfl⟩ := List.exists_cons_of_ne_nil hne
    obtain ⟨rfl, -⟩ := List.cons_prefix_cons.mp hstart
    exact hx List.mem_cons_self
  · exact hs hlater

theorem Free.append_of_not_mem {u v : List α} (hne : needle ≠ []) (hu : ∀ x ∈ u, x ∉ needle)
    (hv : Free needle v) : Free needle (u ++ v) := by
  induction u with
  | nil => exact hv
  | cons x u ih =>
    exact Free.cons hne (hu x List.mem_cons_self) (ih fun y hy => hu y (List.mem_cons_of_mem x hy))

/-- Texts with no byte of the needle. -/
theorem Free.of_not_mem {u : List α} (hne : needle ≠ []) (hu : ∀ x ∈ u, x ∉ needle) :
    Free needle u := by
  have h := Free.append_of_not_mem hne hu (Free.nil hne)
  rwa [List.append_nil] at h

/-- A prefix that does not reach the separator lies before it. -/
theorem prefix_of_prefix_append_cons {x : α} (hx : x ∉ needle) {a b : List α}
    (h : needle <+: a ++ x :: b) : needle <+: a := by
  obtain ⟨t, ht⟩ := h
  rcases List.append_eq_append_iff.mp ht with ⟨u, ha, -⟩ | ⟨u, hneedle, hu⟩
  · exact ⟨u, ha.symm⟩
  · cases u with
    | nil => exact ⟨[], by rw [List.append_nil, hneedle, List.append_nil]⟩
    | cons y u =>
      obtain rfl : x = y := (List.cons.inj hu).1
      exact absurd (by rw [hneedle]; exact List.mem_append_right a List.mem_cons_self) hx

/-- **A byte outside the needle separates.** -/
theorem Free.append_cons {x : α} {a b : List α} (hx : x ∉ needle) (ha : Free needle a)
    (hb : Free needle b) : Free needle (a ++ x :: b) := by
  have hne : needle ≠ [] := by
    rintro rfl
    exact hb (List.nil_infix)
  induction a with
  | nil => exact Free.cons hne hx hb
  | cons y a ih =>
    intro h
    rcases List.infix_cons_iff.mp h with hstart | hlater
    · exact ha (prefix_of_prefix_append_cons hx (a := y :: a) hstart).isInfix
    · exact ih (fun h => ha (h.trans (List.suffix_cons y a).isInfix)) hlater

/-- **A byte that only starts the needle** separates as well. -/
theorem Free.append_head {c : α} {n p w : List α} (hc : c ∉ n) (hp : Free (c :: n) p)
    (hw : Free (c :: n) (c :: w)) : Free (c :: n) (p ++ c :: w) := by
  induction p with
  | nil => exact hw
  | cons y p ih =>
    intro h
    rcases List.infix_cons_iff.mp h with hstart | hlater
    · obtain ⟨rfl, hrest⟩ := List.cons_prefix_cons.mp hstart
      exact hp (List.cons_prefix_cons.mpr ⟨rfl, prefix_of_prefix_append_cons hc hrest⟩).isInfix
    · exact ih (fun h => hp (h.trans (List.suffix_cons y p).isInfix)) hlater

/-! ## Escaping -/

section Escaping

variable {esc : α → List α}

/-- What starts the escaped text starts the text. -/
theorem prefix_of_prefix_flatMap :
    ∀ {n s : List α}, (∀ b, esc b = [b] ∨ (esc b ≠ [] ∧ ∀ x ∈ esc b, x ∉ n)) →
      n <+: s.flatMap esc → n <+: s := by
  intro n
  induction n with
  | nil => intro s _ _; exact List.nil_prefix
  | cons c n ih =>
    intro s hesc h
    cases s with
    | nil =>
      rw [List.flatMap_nil, List.prefix_nil] at h
      exact absurd h (List.cons_ne_nil c n)
    | cons b s =>
      rw [List.flatMap_cons] at h
      rcases hesc b with hplain | ⟨hne, hout⟩
      · rw [hplain, List.singleton_append] at h
        obtain ⟨rfl, hrest⟩ := List.cons_prefix_cons.mp h
        refine List.cons_prefix_cons.mpr ⟨rfl, ih (fun d => ?_) hrest⟩
        exact (hesc d).imp id fun hd => ⟨hd.1, fun x hx hmem => hd.2 x hx (List.mem_cons_of_mem c hmem)⟩
      · -- an escape sequence would have to start with the needle's first byte, which it lacks
        obtain ⟨d, ds, hd⟩ := List.exists_cons_of_ne_nil hne
        rw [hd, List.cons_append] at h
        obtain ⟨rfl, -⟩ := List.cons_prefix_cons.mp h
        exact absurd List.mem_cons_self (hout c (by rw [hd]; exact List.mem_cons_self))

/-- **Escaping creates no occurrence.** -/
theorem Free.flatMap (hesc : ∀ b, esc b = [b] ∨ (esc b ≠ [] ∧ ∀ x ∈ esc b, x ∉ needle))
    {s : List α} (hs : Free needle s) : Free needle (s.flatMap esc) := by
  induction s with
  | nil => exact hs
  | cons b s ih =>
    have hne : needle ≠ [] := by
      rintro rfl
      exact hs List.nil_infix
    have hrest : Free needle (s.flatMap esc) :=
      ih fun h => hs (h.trans (List.suffix_cons b s).isInfix)
    rcases hesc b with hplain | ⟨-, hout⟩
    · intro h
      rw [List.flatMap_cons, hplain, List.singleton_append] at h
      rcases List.infix_cons_iff.mp h with hstart | hlater
      · have hwhole : needle <+: (b :: s).flatMap esc := by
          rw [List.flatMap_cons, hplain, List.singleton_append]
          exact hstart
        exact hs (prefix_of_prefix_flatMap hesc hwhole).isInfix
      · exact hrest hlater
    · rw [List.flatMap_cons]
      exact Free.append_of_not_mem hne hout hrest

end Escaping

/-! ## First occurrence -/

/-- The text before the first occurrence of `needle`, and the text from there on. -/
def firstInfix [DecidableEq α] (needle : List α) : List α → Option (List α × List α)
  | [] => if needle = [] then some ([], []) else none
  | c :: s =>
      if needle <+: c :: s then some ([], c :: s)
      else (firstInfix needle s).map fun p => (c :: p.1, p.2)

/-- **The first occurrence**: an earlier one would start in `a`, hence lie in `a` and the needle less
    its last byte. -/
theorem firstInfix_append [DecidableEq α] {a rest : List α} (hne : needle ≠ [])
    (hfree : Free needle (a ++ needle.dropLast)) :
    firstInfix needle (a ++ (needle ++ rest)) = some (a, needle ++ rest) := by
  induction a with
  | nil =>
    obtain ⟨c, n, rfl⟩ := List.exists_cons_of_ne_nil hne
    rw [List.nil_append, List.cons_append, firstInfix]
    exact if_pos ⟨rest, rfl⟩
  | cons c a ih =>
    have hlater : Free needle (a ++ needle.dropLast) := fun h =>
      hfree (h.trans (List.suffix_cons c _).isInfix)
    have hstart : ¬ needle <+: c :: (a ++ (needle ++ rest)) := by
      intro h
      refine hfree (List.IsPrefix.isInfix ?_)
      -- both start the text, and the needle is not the longer one
      have hlong : c :: a ++ needle.dropLast <+: c :: (a ++ (needle ++ rest)) := by
        rw [← List.cons_append]
        refine (List.prefix_append_right_inj (c :: a)).mpr ?_
        exact (List.dropLast_prefix needle).trans (List.prefix_append needle rest)
      refine List.prefix_of_prefix_length_le h hlong ?_
      rw [List.length_append, List.length_cons, List.length_dropLast]
      omega
    rw [List.cons_append, firstInfix, if_neg hstart, ih hlater]
    rfl

/-- **Text without the needle's first byte is skipped.** -/
theorem firstInfix_skip [DecidableEq α] {c : α} {n : List α} {u : List α} (hu : c ∉ u) (v : List α) :
    firstInfix (c :: n) (u ++ v) = (firstInfix (c :: n) v).map fun p => (u ++ p.1, p.2) := by
  induction u with
  | nil =>
    show firstInfix (c :: n) v = (firstInfix (c :: n) v).map id
    rw [Option.map_id, id]
  | cons d u ih =>
    rw [List.mem_cons, not_or] at hu
    have hstart : ¬ c :: n <+: d :: (u ++ v) := fun h => hu.1 (List.cons_prefix_cons.mp h).1
    rw [List.cons_append, firstInfix, if_neg hstart, ih hu.2, Option.map_map]
    rfl

/-- The needle at the front of a text. -/
theorem firstInfix_front [DecidableEq α] (hne : needle ≠ []) (rest : List α) :
    firstInfix needle (needle ++ rest) = some ([], needle ++ rest) := by
  obtain ⟨c, n, rfl⟩ := List.exists_cons_of_ne_nil hne
  rw [List.cons_append, firstInfix]
  exact if_pos ⟨rest, rfl⟩

/-- No occurrence is found exactly where there is none. -/
theorem firstInfix_eq_none [DecidableEq α] (hne : needle ≠ []) :
    ∀ {s : List α}, firstInfix needle s = none ↔ Free needle s := by
  intro s
  induction s with
  | nil => exact iff_of_true (if_neg hne) (Free.nil hne)
  | cons c s ih =>
    unfold Free
    rw [firstInfix, List.infix_cons_iff]
    by_cases hstart : needle <+: c :: s
    · rw [if_pos hstart]
      exact iff_of_false (Option.some_ne_none _) fun h => h (Or.inl hstart)
    · rw [if_neg hstart, Option.map_eq_none_iff, ih]
      exact ⟨fun hs h => h.elim hstart hs, fun h hs => h (Or.inr hs)⟩

/-- What is found is an occurrence, and none starts before it. -/
theorem firstInfix_eq_some [DecidableEq α] (hne : needle ≠ []) :
    ∀ {s a b : List α}, firstInfix needle s = some (a, b) →
      s = a ++ b ∧ needle <+: b ∧ Free needle (a ++ needle.dropLast) := by
  intro s
  induction s with
  | nil =>
    intro a b h
    rw [firstInfix, if_neg hne] at h
    cases h
  | cons c s ih =>
    intro a b h
    rw [firstInfix] at h
    by_cases hstart : needle <+: c :: s
    · rw [if_pos hstart] at h
      cases h
      refine ⟨rfl, hstart, fun hinfix => ?_⟩
      -- the needle less its last byte is too short to hold the needle
      have hlength := hinfix.length_le
      have hpos := List.length_pos_iff.mpr hne
      rw [List.nil_append, List.length_dropLast] at hlength
      omega
    · rw [if_neg hstart, Option.map_eq_some_iff] at h
      obtain ⟨⟨a', b'⟩, hfind, hsplit⟩ := h
      cases hsplit
      obtain ⟨hs, hprefix, hfree⟩ := ih hfind
      refine ⟨by rw [hs, List.cons_append], hprefix, fun hinfix => ?_⟩
      rcases List.infix_cons_iff.mp hinfix with hfront | hlater
      · have hbehind : c :: (a' ++ needle.dropLast) <+: c :: s := by
          rw [hs]
          exact List.cons_prefix_cons.mpr ⟨rfl, (List.prefix_append_right_inj a').mpr
            ((List.dropLast_prefix needle).trans hprefix)⟩
        exact hstart (hfront.trans hbehind)
      · exact hfree hlater

/-- What is found stays where it is when the text goes on. -/
theorem firstInfix_append_right [DecidableEq α] (hne : needle ≠ []) {s a b : List α}
    (h : firstInfix needle s = some (a, b)) (u : List α) :
    firstInfix needle (s ++ u) = some (a, b ++ u) := by
  obtain ⟨rfl, ⟨rest, rfl⟩, hfree⟩ := firstInfix_eq_some hne h
  rw [List.append_assoc, List.append_assoc]
  exact firstInfix_append hne hfree

end Lib.Infix
