/-
  Lists whose elements name their predecessor, and byte encodings that can be read back.

  1. **Linked lists** — every element carries a `prev` tag and an `own` tag; a list is `Linked` from a
     starting tag when each element names the tag before it.  When the `own` tags of one linked list
     are pairwise distinct and none is the starting tag, the list admits no other linked
     arrangement: a linked list made of ITS elements is an initial part of it
     (`Linked.initial_of_mem`).  Deletions, insertions of duplicates and reorderings all break a link.

  2. **Framing** — a length-prefixed encoding is uniquely readable (`frame_append_inj`), so a
     concatenation of frames determines its parts.
-/
import Mathlib.Data.List.Basic
import Mathlib.Data.List.Nodup

namespace Lib.Chain

variable {α τ : Type*}

/-! ## Linked lists -/

/-- `Linked prev own start xs` — the first element names `start`, every later one its
    predecessor's own tag. -/
def Linked (prev own : α → τ) : τ → List α → Prop
  | _, [] => True
  | start, x :: xs => prev x = start ∧ Linked prev own (own x) xs

/-- The tag the next element of a list must name. -/
def lastTag (own : α → τ) (start : τ) (xs : List α) : τ :=
  match xs.getLast? with
  | some x => own x
  | none => start

@[simp] theorem lastTag_nil (own : α → τ) (start : τ) : lastTag own start [] = start := rfl

theorem lastTag_cons (own : α → τ) (start : τ) (x : α) (xs : List α) :
    lastTag own start (x :: xs) = lastTag own (own x) xs := by
  unfold lastTag
  rw [List.getLast?_cons]
  cases xs.getLast? <;> rfl

/-- **Appending** to a linked list: the new element names the last tag. -/
theorem linked_append_singleton {prev own : α → τ} {y : α} :
    ∀ {xs : List α} {start : τ},
      Linked prev own start (xs ++ [y]) ↔
        Linked prev own start xs ∧ prev y = lastTag own start xs := by
  intro xs
  induction xs with
  | nil => intro start; simp [Linked]
  | cons x xs ih =>
    intro start
    rw [List.cons_append, Linked, Linked, ih, lastTag_cons, and_assoc]

/-- An initial part of a linked list is linked. -/
theorem Linked.of_initial {prev own : α → τ} :
    ∀ {xs ys : List α} {start : τ}, xs <+: ys → Linked prev own start ys →
      Linked prev own start xs := by
  intro xs
  induction xs with
  | nil => intro ys start _ _; exact trivial
  | cons x xs ih =>
    intro ys start hp h
    obtain ⟨rest, rfl⟩ := hp
    exact ⟨h.1, ih ⟨rest, rfl⟩ h.2⟩

/-- An element of a linked list names the starting tag or the tag of another element. -/
theorem Linked.prev_mem {prev own : α → τ} {y : α} :
    ∀ {xs : List α} {start : τ}, Linked prev own start xs → y ∈ xs →
      prev y = start ∨ prev y ∈ xs.map own := by
  intro xs
  induction xs with
  | nil => intro start _ hy; exact absurd hy List.not_mem_nil
  | cons x xs ih =>
    intro start h hy
    rcases List.mem_cons.mp hy with rfl | hy
    · exact Or.inl h.1
    · rcases ih h.2 hy with hprev | hprev
      · exact Or.inr (by rw [hprev]; exact List.mem_cons_self)
      · exact Or.inr (List.mem_cons_of_mem _ hprev)

/-- In a linked list with distinct tags, the element that names the starting tag is the FIRST: every
    other one names the tag of its predecessor. -/
theorem Linked.eq_head {prev own : α → τ} {x y : α} {xs : List α} {start : τ}
    (h : Linked prev own start (x :: xs)) (hnd : (start :: (x :: xs).map own).Nodup)
    (hy : y ∈ x :: xs) (hprev : prev y = start) : y = x := by
  rcases List.mem_cons.mp hy with rfl | hy
  · rfl
  · have hstart : start ∉ (x :: xs).map own := (List.nodup_cons.mp hnd).1
    refine absurd ?_ hstart
    rcases Linked.prev_mem h.2 hy with hx | hx
    · rw [← hprev, hx]
      exact List.mem_cons_self
    · rw [← hprev]
      exact List.mem_cons_of_mem _ hx

/-- A linked list never returns to a tag before its start: an element taken from `x :: ys` that names
    a tag of the rest lies in the rest. -/
theorem Linked.mem_tail {prev own : α → τ} {x y : α} {xs : List α} {start : τ}
    (h : Linked prev own start (x :: xs)) (hstart : start ∉ (x :: xs).map own)
    (hy : y ∈ x :: xs) (hprev : prev y ∈ (x :: xs).map own) : y ∈ xs := by
  rcases List.mem_cons.mp hy with rfl | hy
  · exact absurd (h.1 ▸ hprev) hstart
  · exact hy

/-- **No other arrangement**: a linked list made of the elements of a linked list with distinct tags
    is an initial part of it. -/
theorem Linked.initial_of_mem {prev own : α → τ} :
    ∀ {xs ys : List α} {start : τ}, Linked prev own start xs → (start :: xs.map own).Nodup →
      Linked prev own start ys → (∀ y ∈ ys, y ∈ xs) → ys <+: xs := by
  intro xs
  induction xs with
  | nil =>
    intro ys start _ _ _ hmem
    cases ys with
    | nil => exact List.nil_prefix
    | cons y ys => exact absurd (hmem y List.mem_cons_self) List.not_mem_nil
  | cons x xs ih =>
    intro ys start hxs hnd hys hmem
    cases ys with
    | nil => exact List.nil_prefix
    | cons y ys =>
      have hyx : y = x := Linked.eq_head hxs hnd (hmem y List.mem_cons_self) hys.1
      subst hyx
      refine List.cons_prefix_cons.mpr ⟨rfl, ?_⟩
      have hstart : start ∉ (y :: xs).map own := (List.nodup_cons.mp hnd).1
      refine ih hxs.2 (List.nodup_cons.mp hnd).2 hys.2 ?_
      -- a later element of `ys` names a tag of `ys`, hence of `y :: xs`: it cannot be the first again
      intro z hz
      have hz' : z ∈ y :: xs := hmem z (List.mem_cons_of_mem _ hz)
      refine Linked.mem_tail hxs hstart hz' ?_
      rcases Linked.prev_mem hys.2 hz with hprev | hprev
      · rw [hprev]
        exact List.mem_cons_self
      · obtain ⟨w, hw, hw'⟩ := List.mem_map.mp hprev
        rw [← hw']
        exact List.mem_map_of_mem (hmem w (List.mem_cons_of_mem _ hw))

/-! ## Framing -/

/-- **A frame is uniquely readable**: a header of fixed length that determines the length of the body
    leaves no doubt where the body ends. -/
theorem frame_append_inj {header : Nat → List α} {k bound : Nat}
    (hk : ∀ n, (header n).length = k)
    (hinj : ∀ m n, m < bound → n < bound → header m = header n → m = n)
    {s t rest rest' : List α} (hs : s.length < bound) (ht : t.length < bound)
    (h : header s.length ++ s ++ rest = header t.length ++ t ++ rest') : s = t ∧ rest = rest' := by
  rw [List.append_assoc, List.append_assoc] at h
  obtain ⟨hhead, hbody⟩ := List.append_inj h ((hk _).trans (hk _).symm)
  exact List.append_inj hbody (hinj _ _ hs ht hhead)

end Lib.Chain
