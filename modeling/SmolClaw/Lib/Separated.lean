/-
  Separated lists: a list of pieces written out with a separator IN FRONT of every piece, the way an
  absolute path is written (`/a/b` is the pieces `a`, `b`).

  `render sep` writes, `pieces sep` reads the non-empty pieces back, and `cut sep` splits at the LAST
  separator.  The pieces a writer may use are `Plain`: non-empty and free of the separator.

  The theorem the module is for is `render_append_iff`: on plain pieces, "one text continues another at
  a piece BOUNDARY" is "one piece list is a prefix of the other".  A byte-prefix test plus a look at the
  one element behind the prefix therefore decides containment of piece lists — as long as both sides
  are written by `render`.
-/
import Mathlib.Data.List.Basic

namespace Lib.Separated

variable {α : Type*} (sep : α)

/-! ## Writing -/

/-- Every piece, each behind one separator. -/
def render (ps : List (List α)) : List α := ps.flatMap (sep :: ·)

/-- What a writer may use as a piece. -/
def Plain (p : List α) : Prop := p ≠ [] ∧ sep ∉ p

/-- A text that starts at a piece boundary: it is over, or it goes on with a separator. -/
def Boundary (l : List α) : Prop := l = [] ∨ ∃ t, l = sep :: t

@[simp] theorem render_nil : render sep ([] : List (List α)) = [] := rfl

@[simp] theorem render_cons (p : List α) (ps : List (List α)) :
    render sep (p :: ps) = sep :: (p ++ render sep ps) := rfl

theorem render_append (ps qs : List (List α)) :
    render sep (ps ++ qs) = render sep ps ++ render sep qs := by
  induction ps with
  | nil => rfl
  | cons p ps ih => simp [ih]

theorem boundary_render (ps : List (List α)) : Boundary sep (render sep ps) := by
  cases ps with
  | nil => exact Or.inl rfl
  | cons p ps => exact Or.inr ⟨_, rfl⟩

theorem Boundary.append_render {l : List α} (h : Boundary sep l) (ps : List (List α)) :
    Boundary sep (render sep ps ++ l) := by
  cases ps with
  | nil => exact h
  | cons p ps => exact Or.inr ⟨_, rfl⟩

/-! ## Stretches -/

section Stretch

variable {p : α → Bool} {s t : List α}

omit sep in
/-- A stretch that is accepted ends where an element follows that is not. -/
theorem takeWhile_stretch (hs : ∀ c ∈ s, p c = true) (ht : ∀ c ∈ t.head?, p c = false) :
    (s ++ t).takeWhile p = s := by
  rw [List.takeWhile_append_of_pos hs]
  cases t with
  | nil => rw [List.takeWhile_nil, List.append_nil]
  | cons c t => rw [List.takeWhile_cons_of_neg (by rw [ht c rfl]; exact Bool.false_ne_true), List.append_nil]

omit sep in
/-- Without the stretch, what follows is left. -/
theorem dropWhile_stretch (hs : ∀ c ∈ s, p c = true) (ht : ∀ c ∈ t.head?, p c = false) :
    (s ++ t).dropWhile p = t := by
  rw [List.dropWhile_append_of_pos hs]
  cases t with
  | nil => rfl
  | cons c t => exact List.dropWhile_cons_of_neg (by rw [ht c rfl]; exact Bool.false_ne_true)

end Stretch

/-! ## Reading the pieces back -/

variable [DecidableEq α]

/-- The non-empty pieces between separators. -/
def pieces (l : List α) : List (List α) := (l.splitOn sep).filter (· ≠ [])

variable {sep}

/-- Pieces that were written one by one, each with the separator behind it. -/
theorem splitOn_terminated {ps : List (List α)} (h : ∀ p ∈ ps, sep ∉ p) :
    (ps.flatMap (· ++ [sep])).splitOn sep = ps ++ [[]] := by
  induction ps with
  | nil => rfl
  | cons p ps ih =>
    rw [List.flatMap_cons, List.append_assoc, List.singleton_append,
      List.splitOn_append_cons_self_of_not_mem (h p List.mem_cons_self),
      ih fun q hq => h q (List.mem_cons_of_mem p hq), List.cons_append]

omit [DecidableEq α] in
/-- Pieces with the separator behind each of them are written with separators between them and one more. -/
theorem flatMap_terminated {ps : List (List α)} (h : ps ≠ []) :
    ps.flatMap (· ++ [sep]) = [sep].intercalate ps ++ [sep] := by
  induction ps with
  | nil => exact absurd rfl h
  | cons p ps ih =>
    cases ps with
    | nil => rw [List.flatMap_singleton, List.intercalate_singleton]
    | cons q ps =>
      rw [List.flatMap_cons, ih (List.cons_ne_nil q ps), List.intercalate_cons_cons]
      simp only [List.append_assoc]

omit [DecidableEq α] in
/-- What stands in pieces written with separators between them stands in a piece. -/
theorem not_mem_intercalate {x : α} (hx : x ≠ sep) {ps : List (List α)} (h : ∀ p ∈ ps, x ∉ p) :
    x ∉ [sep].intercalate ps := by
  induction ps with
  | nil => exact List.not_mem_nil
  | cons p ps ih =>
    have hrest := ih fun q hq => h q (List.mem_cons_of_mem p hq)
    cases ps with
    | nil => simpa [List.intercalate] using h p List.mem_cons_self
    | cons q ps =>
      have hcons : [sep].intercalate (p :: q :: ps) = p ++ sep :: [sep].intercalate (q :: ps) := by
        simp [List.intercalate]
      rw [hcons, List.mem_append, List.mem_cons, not_or, not_or]
      exact ⟨h p List.mem_cons_self, hx, hrest⟩

/-- A piece begins at the start of the text or behind a separator. -/
theorem mem_splitOn_starts {p l : List α} (h : p ∈ l.splitOn sep) :
    ∃ before after, l = before ++ p ++ after ∧ (before = [] ∨ before.getLast? = some sep) := by
  have hwritten : ∀ ps : List (List α), p ∈ ps → ∃ before after,
      [sep].intercalate ps = before ++ p ++ after ∧ (before = [] ∨ before.getLast? = some sep) := by
    intro ps
    induction ps with
    | nil => exact fun hp => absurd hp List.not_mem_nil
    | cons q ps ih =>
      intro hp
      rcases List.mem_cons.mp hp with rfl | hp
      · cases ps with
        | nil => exact ⟨[], [], by simp [List.intercalate], Or.inl rfl⟩
        | cons r ps => exact ⟨[], sep :: [sep].intercalate (r :: ps), by simp [List.intercalate], Or.inl rfl⟩
      · obtain ⟨before, after, hps, hstart⟩ := ih hp
        have hcons : [sep].intercalate (q :: ps) = q ++ sep :: [sep].intercalate ps := by
          obtain ⟨r, ps, rfl⟩ := List.exists_cons_of_ne_nil (List.ne_nil_of_mem hp)
          simp [List.intercalate]
        refine ⟨q ++ sep :: before, after, by rw [hcons, hps]; simp, Or.inr ?_⟩
        rcases hstart with rfl | hstart
        · simp
        · rw [List.getLast?_append, List.getLast?_cons, hstart]
          rfl
  have hstarts := hwritten (l.splitOn sep) h
  rwa [List.intercalate_splitOn sep] at hstarts

/-- The pieces of a text behind its first separator. -/
theorem pieces_append_render {p : List α} (h : sep ∉ p) :
    ∀ {ps : List (List α)}, (∀ q ∈ ps, Plain sep q) →
      pieces sep (p ++ render sep ps) = (if p = [] then ps else p :: ps) := by
  intro ps
  induction ps generalizing p with
  | nil =>
    intro _
    rw [render_nil, List.append_nil, pieces, List.splitOn_eq_singleton h]
    by_cases hp : p = [] <;> simp [hp]
  | cons q ps ih =>
    intro hps
    have hq : Plain sep q := hps q List.mem_cons_self
    have hrest := ih hq.2 fun r hr => hps r (List.mem_cons_of_mem q hr)
    rw [if_neg hq.1, pieces] at hrest
    rw [render_cons, pieces, List.splitOn_append_cons_self_of_not_mem h, List.filter_cons, hrest]
    by_cases hp : p = [] <;> simp [hp]

/-- **Round trip**: what `render` writes, `pieces` reads. -/
theorem pieces_render {ps : List (List α)} (h : ∀ p ∈ ps, Plain sep p) :
    pieces sep (render sep ps) = ps := by
  simpa using pieces_append_render (p := []) List.not_mem_nil h

/-! ## Containment -/

/-- Two separator-free stretches that end at a boundary are told apart by their text. -/
theorem append_boundary_inj {c d u v : List α} (hc : sep ∉ c) (hd : sep ∉ d)
    (hu : Boundary sep u) (hv : Boundary sep v) (h : c ++ u = d ++ v) : c = d ∧ u = v := by
  have htake : ∀ {p l : List α}, sep ∉ p → Boundary sep l → (p ++ l).takeWhile (· ≠ sep) = p := by
    intro p l hp hl
    rw [List.takeWhile_append_of_pos (by
      intro x hx
      exact decide_eq_true fun he => hp (he ▸ hx))]
    rcases hl with rfl | ⟨t, rfl⟩ <;> simp
  have hcd : c = d := by rw [← htake hc hu, h, htake hd hv]
  subst hcd
  exact ⟨rfl, List.append_cancel_left h⟩

/-- **Containment is byte-prefix up to a boundary**: a rendered list continues another one at a
    boundary exactly when its pieces continue the other's. -/
theorem render_append_iff {ps qs : List (List α)} (hp : ∀ p ∈ ps, Plain sep p)
    (hq : ∀ q ∈ qs, Plain sep q) :
    (∃ rest, render sep ps = render sep qs ++ rest ∧ Boundary sep rest) ↔ qs <+: ps := by
  constructor
  · rintro ⟨rest, heq, hb⟩
    induction qs generalizing ps with
    | nil => exact List.nil_prefix
    | cons q qs ih =>
      cases ps with
      | nil => simp at heq
      | cons p ps =>
        rw [render_cons, render_cons, List.cons_append, List.append_assoc] at heq
        -- the first pieces end at the same place: at the next separator, or where both texts end
        obtain ⟨rfl, hrest⟩ := append_boundary_inj (hp p List.mem_cons_self).2
          (hq q List.mem_cons_self).2 (boundary_render sep ps) (hb.append_render sep qs)
          (List.cons.inj heq).2
        have htail := ih (fun r hr => hp r (List.mem_cons_of_mem p hr))
          (fun r hr => hq r (List.mem_cons_of_mem p hr)) hrest
        exact List.cons_prefix_cons.mpr ⟨rfl, htail⟩
  · rintro ⟨tail, rfl⟩
    exact ⟨render sep tail, render_append sep qs tail, boundary_render sep tail⟩

/-- **Pieces end in pieces** exactly if one text is the other, or ends in a separator and the other. -/
theorem splitOn_suffix_iff {d h : List α} :
    d.splitOn sep <:+ h.splitOn sep ↔ h = d ∨ ∃ front, h = front ++ sep :: d := by
  have hwritten : ∀ ps qs : List (List α), qs ≠ [] → [sep].intercalate (ps ++ qs) = [sep].intercalate qs ∨
      ∃ front, [sep].intercalate (ps ++ qs) = front ++ sep :: [sep].intercalate qs := by
    intro ps qs hqs
    induction ps with
    | nil => exact Or.inl rfl
    | cons p ps ih =>
      have hcons : [sep].intercalate (p :: (ps ++ qs)) = p ++ sep :: [sep].intercalate (ps ++ qs) := by
        rw [List.intercalate_cons_of_ne_nil (List.append_ne_nil_of_right_ne_nil ps hqs)]
        simp
      rw [List.cons_append, hcons]
      rcases ih with hrest | ⟨front, hrest⟩
      · exact Or.inr ⟨p, by rw [hrest]⟩
      · exact Or.inr ⟨p ++ sep :: front, by rw [hrest, List.append_assoc, List.cons_append]⟩
  constructor
  · rintro ⟨ps, hps⟩
    have hall := hwritten ps (d.splitOn sep) (List.splitOn_ne_nil sep d)
    rwa [hps, List.intercalate_splitOn, List.intercalate_splitOn] at hall
  · rintro (rfl | ⟨front, rfl⟩)
    · exact List.suffix_refl _
    · rw [List.splitOn_append_cons_self]
      exact List.suffix_append _ _

/-! ## Cutting at the last separator -/

omit [DecidableEq α] in
/-- A piece between separators holds elements of the text that are no separators. -/
theorem mem_of_mem_splitOnP {p : α → Bool} {x : α} :
    ∀ {l piece : List α}, piece ∈ l.splitOnP p → x ∈ piece → x ∈ l ∧ p x = false := by
  intro l
  induction l with
  | nil =>
    intro piece hp hx
    rw [List.splitOnP_nil, List.mem_singleton] at hp
    exact absurd (hp ▸ hx) List.not_mem_nil
  | cons y l ih =>
    intro piece hp hx
    have hrest : ∀ r ∈ l.splitOnP p, x ∈ r → x ∈ y :: l ∧ p x = false := fun r hr hxr =>
      ⟨List.mem_cons_of_mem y (ih hr hxr).1, (ih hr hxr).2⟩
    rw [List.splitOnP_cons_eq_if_modifyHead] at hp
    split at hp
    · rcases List.mem_cons.mp hp with rfl | hp
      · exact absurd hx List.not_mem_nil
      · exact hrest piece hp hx
    · -- `y` is no separator: it joins the first piece of the rest
      rename_i hy
      obtain ⟨q, qs, hqs⟩ := List.exists_cons_of_ne_nil (List.splitOnP_ne_nil p l)
      rw [hqs, List.modifyHead_cons] at hp
      rw [hqs] at hrest
      rcases List.mem_cons.mp hp with rfl | hp
      · rcases List.mem_cons.mp hx with rfl | hx
        · exact ⟨List.mem_cons_self, Bool.eq_false_iff.mpr hy⟩
        · exact hrest q List.mem_cons_self hx
      · exact hrest piece (List.mem_cons_of_mem q hp) hx

omit [DecidableEq α] in
/-- Conversely, an element of the text is a separator or stands in a piece. -/
theorem mem_splitOnP_of_mem {p : α → Bool} {x : α} {l : List α} (hx : x ∈ l) (hp : p x = false) :
    ∃ piece ∈ l.splitOnP p, x ∈ piece := by
  induction l with
  | nil => exact absurd hx List.not_mem_nil
  | cons y l ih =>
    obtain ⟨q, qs, hqs⟩ := List.exists_cons_of_ne_nil (List.splitOnP_ne_nil p l)
    rw [List.splitOnP_cons_eq_if_modifyHead]
    rcases List.mem_cons.mp hx with rfl | hx
    · rw [if_neg (by rw [hp]; exact Bool.false_ne_true), hqs, List.modifyHead_cons]
      exact ⟨x :: q, List.mem_cons_self, List.mem_cons_self⟩
    · obtain ⟨piece, hpiece, hin⟩ := ih hx
      split
      · exact ⟨piece, List.mem_cons_of_mem [] hpiece, hin⟩
      · rw [hqs] at hpiece
        rw [hqs, List.modifyHead_cons]
        rcases List.mem_cons.mp hpiece with rfl | hpiece
        · exact ⟨y :: piece, List.mem_cons_self, List.mem_cons_of_mem y hin⟩
        · exact ⟨piece, List.mem_cons_of_mem (y :: q) hpiece, hin⟩

/-- The text before and after the last separator. -/
def cut (sep : α) : List α → Option (List α × List α)
  | [] => none
  | x :: l =>
      match cut sep l with
      | some (before, after) => some (x :: before, after)
      | none => if x = sep then some ([], l) else none

theorem cut_eq_none {l : List α} : cut sep l = none ↔ sep ∉ l := by
  induction l with
  | nil => simp [cut]
  | cons x l ih =>
    rw [cut]
    cases hc : cut sep l with
    | some ba =>
      have hmem : sep ∈ l := by
        by_contra hn
        rw [ih.mpr hn] at hc
        exact nomatch hc
      simp [hmem]
    | none =>
      by_cases hx : x = sep
      · simp [hx]
      · simp [hx, ih.mp hc, Ne.symm hx]

/-- **The cut**: the two parts with the separator between them are the text, and the second part has
    no separator left. -/
theorem cut_eq_some {l before after : List α} :
    cut sep l = some (before, after) ↔ l = before ++ sep :: after ∧ sep ∉ after := by
  induction l generalizing before after with
  | nil => simp [cut]
  | cons x l ih =>
    rw [cut]
    cases hc : cut sep l with
    | some ba =>
      obtain ⟨b, a⟩ := ba
      obtain ⟨rfl, ha⟩ := ih.mp hc
      constructor
      · intro h
        obtain ⟨rfl, rfl⟩ := Prod.mk.inj (Option.some.inj h)
        exact ⟨rfl, ha⟩
      -- a later cut is the last one: `x` belongs to what stands before it
      · rintro ⟨h, hafter⟩
        cases before with
        | nil =>
          have hl := (List.cons.inj h).2
          exact absurd (hl ▸ List.mem_append_right b List.mem_cons_self) hafter
        | cons y before =>
          obtain ⟨rfl, hl⟩ := List.cons.inj h
          have hcut : cut sep (b ++ sep :: a) = some (before, after) := ih.mpr ⟨hl, hafter⟩
          rw [hc] at hcut
          obtain ⟨rfl, rfl⟩ := Prod.mk.inj (Option.some.inj hcut)
          rfl
    | none =>
      have hn : sep ∉ l := cut_eq_none.mp hc
      constructor
      · intro h
        by_cases hx : x = sep
        · simp only [hx, if_true] at h
          obtain ⟨rfl, rfl⟩ := Prod.mk.inj (Option.some.inj h)
          exact ⟨by rw [hx]; rfl, hn⟩
        · simp [hx] at h
      · rintro ⟨h, hafter⟩
        cases before with
        | nil =>
          obtain ⟨rfl, rfl⟩ := List.cons.inj h
          simp
        | cons y before =>
          exact absurd ((List.cons.inj h).2 ▸ List.mem_append_right before List.mem_cons_self) hn

end Lib.Separated
