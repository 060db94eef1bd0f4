/-
  Templates: texts with holes in them.

  `hole s` tells what stands for a hole at the front of `s` and what comes behind it.  `Rendered` fills the
  holes from left to right: what is not part of a hole stays, and what fills one is not looked at again.

  1. **One result** — every template renders in one way (`Rendered.unique`).

  2. **Literals** — a text at no place of which a hole begins stays as it is, in front of anything
     (`Rendered.prepend`).

  3. **Cutting first** — `Cut` takes a template apart: literals with the hole behind each, and the text
     behind the last hole.  There is one cut (`Cut.unique`).
-/
import Mathlib.Data.List.Infix

namespace Lib.Template

universe u v

variable {α : Type u} {β : Type v} {hole : List α → Option (β × List α)} {fill : β → List α}

/-- What a template renders to. -/
inductive Rendered (hole : List α → Option (β × List α)) (fill : β → List α) : List α → List α → Prop
  | nil : Rendered hole fill [] []
  | hole {s rest out : List α} {b : β} (found : hole s = some (b, rest)) (next : Rendered hole fill rest out) :
      Rendered hole fill s (fill b ++ out)
  | literal {c : α} {s out : List α} (none : hole (c :: s) = none) (next : Rendered hole fill s out) :
      Rendered hole fill (c :: s) (c :: out)

/-- A hole is not empty: what is behind it is shorter. -/
def Shortens (hole : List α → Option (β × List α)) : Prop :=
  ∀ {s rest : List α} {b : β}, hole s = some (b, rest) → rest.length < s.length

/-- **One result.** -/
theorem Rendered.unique (hshort : Shortens hole) {s out out' : List α} (h : Rendered hole fill s out)
    (h' : Rendered hole fill s out') : out = out' := by
  induction h generalizing out' with
  | nil =>
    cases h' with
    | nil => rfl
    | hole found _ => exact absurd (hshort found) (Nat.not_lt_zero _)
  | hole found _ ih =>
    cases h' with
    | nil => exact absurd (hshort found) (Nat.not_lt_zero _)
    | hole found' next' =>
      obtain ⟨rfl, rfl⟩ := Prod.mk.inj (Option.some.inj (found.symm.trans found'))
      rw [ih next']
    | literal none' _ => exact nomatch found.symm.trans none'
  | literal none _ ih =>
    cases h' with
    | hole found' _ => exact nomatch none.symm.trans found'
    | literal _ next' => rw [ih next']

/-- **Literals stay**, in front of anything. -/
theorem Rendered.prepend {u s out : List α} (hplain : ∀ t, t ≠ [] → t <:+ u → hole (t ++ s) = none)
    (h : Rendered hole fill s out) : Rendered hole fill (u ++ s) (u ++ out) := by
  induction u with
  | nil => exact h
  | cons c u ih =>
    refine .literal (hplain (c :: u) (List.cons_ne_nil c u) (List.suffix_refl _)) (ih ?_)
    exact fun t hne ht => hplain t hne (ht.trans (List.suffix_cons c u))

/-- A template without holes. -/
theorem rendered_plain {s : List α} (hplain : ∀ t, t ≠ [] → t <:+ s → hole t = none) :
    Rendered hole fill s s := by
  have h : Rendered hole fill (s ++ []) (s ++ []) :=
    Rendered.prepend (fun t hne ht => by rw [List.append_nil]; exact hplain t hne ht) .nil
  rwa [List.append_nil] at h

/-! ## Cutting first -/

/-- In front of `s` no hole begins in `u`. -/
def PlainBefore (hole : List α → Option (β × List α)) (u s : List α) : Prop :=
  ∀ t, t ≠ [] → t <:+ u → hole (t ++ s) = none

/-- The cut of a template into literals with the hole behind each, and the text behind the last hole. -/
inductive Cut (hole : List α → Option (β × List α)) : List α → List (List α × β) → List α → Prop
  | plain {tail : List α} (plain : PlainBefore hole tail []) : Cut hole tail [] tail
  | hole {u s rest tail : List α} {b : β} {segments : List (List α × β)} (before : PlainBefore hole u s)
      (found : hole s = some (b, rest)) (next : Cut hole rest segments tail) :
      Cut hole (u ++ s) ((u, b) :: segments) tail

/-- A literal with the text that fills its hole. -/
def fillSegment (fill : β → List α) (segment : List α × β) : List α := segment.1 ++ fill segment.2

/-- A hole begins at one place first. -/
theorem PlainBefore.unique {u s u' s' : List α} {cut cut' : β × List α} (h : PlainBefore hole u s)
    (hfound : hole s = some cut) (h' : PlainBefore hole u' s') (hfound' : hole s' = some cut')
    (heq : u ++ s = u' ++ s') : u = u' ∧ s = s' := by
  rcases List.append_eq_append_iff.mp heq with ⟨t, rfl, rfl⟩ | ⟨t, rfl, rfl⟩
  · cases t with
    | nil => exact ⟨(List.append_nil u).symm, rfl⟩
    | cons c t =>
      exact nomatch (h' (c :: t) (List.cons_ne_nil c t) (List.suffix_append u _)).symm.trans hfound
  · cases t with
    | nil => exact ⟨List.append_nil u', rfl⟩
    | cons c t =>
      exact nomatch (h (c :: t) (List.cons_ne_nil c t) (List.suffix_append u' _)).symm.trans hfound'

/-- A template with a hole is not plain. -/
theorem PlainBefore.not_hole (hshort : Shortens hole) {u s : List α} {cut : β × List α}
    (h : PlainBefore hole (u ++ s) []) (hfound : hole s = some cut) : False := by
  have hne : s ≠ [] := by
    rintro rfl
    exact absurd (hshort hfound) (Nat.not_lt_zero _)
  have hnone := h s hne (List.suffix_append u s)
  rw [List.append_nil] at hnone
  exact nomatch hnone.symm.trans hfound

/-- **One cut.** -/
theorem Cut.unique (hshort : Shortens hole) {s tail tail' : List α} {segments segments' : List (List α × β)}
    (h : Cut hole s segments tail) (h' : Cut hole s segments' tail') : segments = segments' ∧ tail = tail' := by
  induction h generalizing segments' tail' with
  | plain plain =>
    cases h' with
    | plain _ => exact ⟨rfl, rfl⟩
    | hole _ found _ => exact (plain.not_hole hshort found).elim
  | @hole u s rest tail b segments before found next ih =>
    generalize heq : u ++ s = template at h'
    cases h' with
    | plain plain => exact ((heq ▸ plain).not_hole hshort found).elim
    | hole before' found' next' =>
      obtain ⟨rfl, rfl⟩ := before.unique found before' found' heq
      obtain ⟨rfl, rfl⟩ := Prod.mk.inj (Option.some.inj (found.symm.trans found'))
      obtain ⟨rfl, rfl⟩ := ih next'
      exact ⟨rfl, rfl⟩

end Lib.Template
