/-
  Lists used as tables: at most one row for each key.

  1. **Rows** — `Keyed key xs`: no two rows of `xs` have the same key.

  2. **Operations** — `upsert` replaces the row of a key in place or appends a new one; `amend` changes
     the first row that satisfies a test.  Both keep a table a table, and so does filtering.

  3. **Look-up** — `lookup` finds the row of a key; after `upsert` it finds the new row, and every other
     key finds what it found before.

  4. **Loading** — `upsert` row by row: into the empty table this is the list itself (`load_nil`), and
     loading rows that a view `π` cannot tell from the rows already there changes nothing that `π`
     sees (`load_same`).  A table is what it was exactly if the last row of each key is the row it has
     (`load_eq_self`).

  5. **Sorting** — sorting by a key leaves the rows of one key in their order (`filter_sorted`).
-/
import Mathlib.Data.List.Basic
import Mathlib.Data.List.Nodup
import Mathlib.Data.List.Sort

namespace Lib.Table

variable {α κ ν : Type*}

/-- No two rows have the same key. -/
def Keyed (key : α → κ) (xs : List α) : Prop := (xs.map key).Nodup

/-- Replace the first row with the key of `x`, or append `x`. -/
def upsert [DecidableEq κ] (key : α → κ) (x : α) : List α → List α
  | [] => [x]
  | y :: ys => if key y = key x then x :: ys else y :: upsert key x ys

/-- Change the first row that satisfies `p`. -/
def amend (p : α → Bool) (f : α → α) : List α → List α
  | [] => []
  | y :: ys => if p y then f y :: ys else y :: amend p f ys

/-! ## The rows after an operation -/

/-- A row after `upsert` is the new one or was there before. -/
theorem mem_upsert [DecidableEq κ] {key : α → κ} {x z : α} {xs : List α}
    (h : z ∈ upsert key x xs) : z = x ∨ z ∈ xs := by
  induction xs with
  | nil => exact Or.inl (List.mem_singleton.mp h)
  | cons y ys ih =>
    rw [upsert] at h
    split at h
    · rcases List.mem_cons.mp h with rfl | h
      · exact Or.inl rfl
      · exact Or.inr (List.mem_cons_of_mem y h)
    · rcases List.mem_cons.mp h with rfl | h
      · exact Or.inr List.mem_cons_self
      · exact (ih h).imp id (List.mem_cons_of_mem y)

/-- A new key appends. -/
theorem upsert_of_not_mem [DecidableEq κ] {key : α → κ} {x : α} {xs : List α}
    (h : key x ∉ xs.map key) : upsert key x xs = xs ++ [x] := by
  induction xs with
  | nil => rfl
  | cons y ys ih =>
    rw [List.map_cons, List.mem_cons, not_or] at h
    rw [upsert, if_neg (Ne.symm h.1), ih h.2, List.cons_append]

/-- A key that is there is not added again. -/
theorem map_key_upsert [DecidableEq κ] {key : α → κ} {x : α} {xs : List α} (h : key x ∈ xs.map key) :
    (upsert key x xs).map key = xs.map key := by
  induction xs with
  | nil => exact absurd h List.not_mem_nil
  | cons y ys ih =>
    rw [upsert]
    split
    · next hyx => rw [List.map_cons, List.map_cons, hyx]
    · next hne =>
      rw [List.map_cons, List.map_cons, ih ((List.mem_cons.mp h).resolve_left (Ne.symm hne))]

/-- A key that is there keeps its place: through a view `π` that determines the key and sees the new
    row as the old one, nothing changes. -/
theorem map_upsert_of_mem [DecidableEq κ] {key : α → κ} {π : α → ν}
    (hπ : ∀ a b, π a = π b → key a = key b) {x : α} {xs : List α} (hk : Keyed key xs)
    (h : π x ∈ xs.map π) : (upsert key x xs).map π = xs.map π := by
  induction xs with
  | nil => exact absurd h List.not_mem_nil
  | cons y ys ih =>
    obtain ⟨hy, hys⟩ := List.nodup_cons.mp hk
    rcases List.mem_cons.mp h with heq | hmem
    · rw [upsert, if_pos (hπ _ _ heq).symm, List.map_cons, List.map_cons, heq]
    · -- the row that `x` looks like is further on, so the first key is another one
      have hne : key y ≠ key x := by
        intro hyx
        obtain ⟨z, hz, hzx⟩ := List.mem_map.mp hmem
        exact hy (List.mem_map.mpr ⟨z, hz, (hπ _ _ hzx).trans hyx.symm⟩)
      rw [upsert, if_neg hne, List.map_cons, List.map_cons, ih hys hmem]

/-- A row after `amend` is a changed one or was there before. -/
theorem mem_amend {p : α → Bool} {f : α → α} {z : α} {xs : List α} (h : z ∈ amend p f xs) :
    (∃ y ∈ xs, p y = true ∧ z = f y) ∨ z ∈ xs := by
  induction xs with
  | nil => exact Or.inr h
  | cons y ys ih =>
    rw [amend] at h
    split at h
    · rename_i hp
      rcases List.mem_cons.mp h with rfl | h
      · exact Or.inl ⟨y, List.mem_cons_self, hp, rfl⟩
      · exact Or.inr (List.mem_cons_of_mem y h)
    · rcases List.mem_cons.mp h with rfl | h
      · exact Or.inr List.mem_cons_self
      · rcases ih h with ⟨w, hw, hpw, rfl⟩ | hz
        · exact Or.inl ⟨w, List.mem_cons_of_mem y hw, hpw, rfl⟩
        · exact Or.inr (List.mem_cons_of_mem y hz)

/-- A change that keeps the key keeps all keys. -/
theorem map_key_amend {key : α → κ} {p : α → Bool} {f : α → α} (hf : ∀ a, key (f a) = key a)
    (xs : List α) : (amend p f xs).map key = xs.map key := by
  induction xs with
  | nil => rfl
  | cons y ys ih =>
    rw [amend]
    split
    · rw [List.map_cons, List.map_cons, hf]
    · rw [List.map_cons, List.map_cons, ih]

/-! ## Tables stay tables -/

theorem Keyed.nil {key : α → κ} : Keyed key [] := List.nodup_nil

theorem Keyed.upsert [DecidableEq κ] {key : α → κ} {xs : List α} (hk : Keyed key xs) (x : α) :
    Keyed key (upsert key x xs) := by
  by_cases hx : key x ∈ xs.map key
  · unfold Keyed
    rw [map_key_upsert hx]
    exact hk
  · rw [upsert_of_not_mem hx, Keyed, List.map_append, List.nodup_append]
    refine ⟨hk, List.nodup_singleton _, ?_⟩
    intro a ha b hb hab
    rw [List.map_singleton, List.mem_singleton] at hb
    exact hx (by rw [← hb, ← hab]; exact ha)

theorem Keyed.amend {key : α → κ} {xs : List α} (hk : Keyed key xs) {p : α → Bool} {f : α → α}
    (hf : ∀ a, key (f a) = key a) : Keyed key (amend p f xs) := by
  unfold Keyed
  rw [map_key_amend hf]
  exact hk

theorem Keyed.filter {key : α → κ} {xs : List α} (hk : Keyed key xs) (p : α → Bool) :
    Keyed key (xs.filter p) :=
  List.Nodup.sublist (List.Sublist.map key List.filter_sublist) hk

theorem Keyed.perm {key : α → κ} {xs ys : List α} (hk : Keyed key xs) (h : xs.Perm ys) :
    Keyed key ys :=
  (h.map key).nodup_iff.mp hk

/-- In a table a key finds one row, whatever the order of the rows. -/
theorem Keyed.eq_of_mem {key : α → κ} {xs : List α} (hk : Keyed key xs) {a b : α} (ha : a ∈ xs)
    (hb : b ∈ xs) (h : key a = key b) : a = b :=
  List.inj_on_of_nodup_map hk ha hb h

/-- In a table, changing the first row of a key is changing every row of it. -/
theorem Keyed.amend_eq_map {key : α → κ} {xs : List α} (hk : Keyed key xs) {p : α → Bool} {f : α → α} {k : κ}
    (hp : ∀ x, p x = true → key x = k) : Table.amend p f xs = xs.map fun x => if p x then f x else x := by
  induction xs with
  | nil => rfl
  | cons y ys ih =>
    obtain ⟨hy, hys⟩ := List.nodup_cons.mp hk
    rw [Table.amend, List.map_cons]
    split
    · next hpy =>
      -- no row behind `y` has its key
      have hrest : (ys.map fun x => if p x then f x else x) = ys := by
        conv_rhs => rw [← List.map_id ys]
        refine List.map_congr_left fun x hx => ?_
        have hpx : ¬ p x = true := fun hpx =>
          hy (List.mem_map.mpr ⟨x, hx, (hp x hpx).trans (hp y hpy).symm⟩)
        rw [if_neg hpx]
        rfl
      rw [hrest]
    · rw [ih hys]

/-! ## Look-up -/

/-- The first row with the key `k`. -/
def lookup [DecidableEq κ] (key : α → κ) (k : κ) (xs : List α) : Option α :=
  xs.find? fun x => key x = k

theorem lookup_upsert_self [DecidableEq κ] {key : α → κ} (x : α) (xs : List α) :
    lookup key (key x) (upsert key x xs) = some x := by
  induction xs with
  | nil => exact List.find?_cons_of_pos (by simp)
  | cons y ys ih =>
    rw [upsert]
    split
    · exact List.find?_cons_of_pos (by simp)
    · rename_i hne
      rw [lookup, List.find?_cons_of_neg (by simpa using hne)]
      exact ih

theorem lookup_upsert_ne [DecidableEq κ] {key : α → κ} {k : κ} {x : α} (hk : k ≠ key x) (xs : List α) :
    lookup key k (upsert key x xs) = lookup key k xs := by
  induction xs with
  | nil => exact List.find?_cons_of_neg (by simpa using Ne.symm hk)
  | cons y ys ih =>
    rw [upsert]
    split
    · rename_i hy
      have hyk : key y ≠ k := fun h => hk (h.symm.trans hy)
      rw [lookup, lookup, List.find?_cons_of_neg (by simpa using Ne.symm hk),
        List.find?_cons_of_neg (by simpa using hyk)]
    · by_cases hyk : key y = k
      · rw [lookup, lookup, List.find?_cons_of_pos (by simpa using hyk),
          List.find?_cons_of_pos (by simpa using hyk)]
      · rw [lookup, lookup, List.find?_cons_of_neg (by simpa using hyk),
          List.find?_cons_of_neg (by simpa using hyk)]
        exact ih

/-- In a table, a row is found under its key and nowhere else. -/
theorem lookup_eq_some [DecidableEq κ] {key : α → κ} {k : κ} {x : α} {xs : List α}
    (hk : Keyed key xs) : lookup key k xs = some x ↔ x ∈ xs ∧ key x = k := by
  constructor
  · intro h
    exact ⟨List.mem_of_find?_eq_some h, by simpa using List.find?_some h⟩
  · rintro ⟨hmem, rfl⟩
    cases hfind : lookup key (key x) xs with
    | none =>
      have hnone := List.find?_eq_none.mp hfind x hmem
      exact absurd (decide_eq_true rfl) hnone
    | some y =>
      have hy : key y = key x := by simpa using List.find?_some hfind
      rw [hk.eq_of_mem (List.mem_of_find?_eq_some hfind) hmem hy]

theorem lookup_perm [DecidableEq κ] {key : α → κ} {k : κ} {xs ys : List α} (hk : Keyed key xs)
    (h : xs.Perm ys) : lookup key k ys = lookup key k xs := by
  cases hx : lookup key k xs with
  | none =>
    rw [lookup, List.find?_eq_none] at hx ⊢
    exact fun y hy => hx y (h.mem_iff.mpr hy)
  | some x =>
    obtain ⟨hmem, hkey⟩ := (lookup_eq_some hk).mp hx
    exact (lookup_eq_some (hk.perm h)).mpr ⟨h.mem_iff.mp hmem, hkey⟩

/-- What a key finds after `upsert`. -/
theorem lookup_upsert [DecidableEq κ] {key : α → κ} (k : κ) (x : α) (xs : List α) :
    lookup key k (upsert key x xs) = if key x = k then some x else lookup key k xs := by
  split
  next h =>
    rw [← h]
    exact lookup_upsert_self x xs
  next h => exact lookup_upsert_ne (Ne.symm h) xs

/-- **Two tables that answer alike have the same rows.** -/
theorem Keyed.perm_of_lookup [DecidableEq κ] {key : α → κ} {xs ys : List α} (hx : Keyed key xs)
    (hy : Keyed key ys) (h : ∀ k, lookup key k xs = lookup key k ys) : xs.Perm ys := by
  refine (List.perm_ext_iff_of_nodup (hx.of_map key) (hy.of_map key)).mpr fun a => ?_
  have hmem : ∀ {zs : List α}, Keyed key zs → (a ∈ zs ↔ lookup key (key a) zs = some a) :=
    fun hz => ⟨fun ha => (lookup_eq_some hz).mpr ⟨ha, rfl⟩, fun ha => ((lookup_eq_some hz).mp ha).1⟩
  rw [hmem hx, hmem hy, h]

/-! ## Loading -/

/-- The rows `xs`, put one after the other into the table `t`. -/
def load [DecidableEq κ] (key : α → κ) (t xs : List α) : List α :=
  xs.foldl (fun t x => upsert key x t) t

/-- Loading new keys appends them in order. -/
theorem load_append [DecidableEq κ] {key : α → κ} :
    ∀ (xs t : List α), Keyed key (t ++ xs) → load key t xs = t ++ xs := by
  intro xs
  induction xs with
  | nil => intro t _; exact (List.append_nil t).symm
  | cons x xs ih =>
    intro t h
    have hx : key x ∉ t.map key := by
      rw [Keyed, List.map_append, List.nodup_append] at h
      intro hmem
      exact h.2.2 _ hmem _ List.mem_cons_self rfl
    show load key (upsert key x t) xs = _
    rw [upsert_of_not_mem hx, ih (t ++ [x]) (by rwa [List.append_assoc]), List.append_assoc,
      List.singleton_append]

/-- **Loading a list of distinct keys into the empty table is that list.** -/
theorem load_nil [DecidableEq κ] {key : α → κ} {xs : List α} (hk : Keyed key xs) :
    load key [] xs = xs :=
  load_append xs [] hk

/-- **Loading again changes nothing**, as far as a view can tell that sees every row in the table. -/
theorem load_same [DecidableEq κ] {key : α → κ} {π : α → ν}
    (hπ : ∀ a b, π a = π b → key a = key b) :
    ∀ (xs t : List α), Keyed key t → (∀ x ∈ xs, π x ∈ t.map π) →
      (load key t xs).map π = t.map π := by
  intro xs
  induction xs with
  | nil => intro t _ _; rfl
  | cons x xs ih =>
    intro t hk h
    have hx := map_upsert_of_mem hπ hk (h x List.mem_cons_self)
    show (load key (upsert key x t) xs).map π = _
    rw [ih (upsert key x t) (hk.upsert x), hx]
    -- the rows still to come are seen in the table as it is now: the view has not changed
    intro y hy
    rw [hx]
    exact h y (List.mem_cons_of_mem x hy)

/-- What loading leaves at the head of a table, and behind it. -/
theorem load_cons [DecidableEq κ] {key : α → κ} (xs : List α) :
    ∀ (y : α) (ys : List α),
      load key (y :: ys) xs =
        (lookup key (key y) xs.reverse).getD y :: load key ys (xs.filter fun x => key x ≠ key y) := by
  induction xs with
  | nil => intro y ys; rfl
  | cons x xs ih =>
    intro y ys
    show load key (upsert key x (y :: ys)) xs = _
    rw [upsert, List.reverse_cons, lookup, List.find?_append]
    split
    · next hy =>
      -- `x` takes the head, and a later row of its key takes it from `x`
      rw [ih x ys, List.filter_cons_of_neg (by simp [hy]), List.find?_cons_of_pos (by simp [hy]), hy]
      cases hlast : lookup key (key x) xs.reverse with
      | none => rw [show xs.reverse.find? (fun z => decide (key z = key x)) = none from hlast]; rfl
      | some z => rw [show xs.reverse.find? (fun z => decide (key z = key x)) = some z from hlast]; rfl
    · next hy =>
      have hyx : key x ≠ key y := Ne.symm hy
      rw [ih y (upsert key x ys), List.filter_cons_of_pos (by simpa using hyx),
        List.find?_cons_of_neg (by simpa using hyx), List.find?_nil, Option.or_none]
      rfl

/-- The rows of another key are found as before when those of one key are left out. -/
theorem lookup_filter [DecidableEq κ] {key : α → κ} (k l : κ) (xs : List α) :
    lookup key k (xs.filter fun x => key x ≠ l) = if k = l then none else lookup key k xs := by
  split
  · next h =>
    refine List.find?_eq_none.mpr fun x hx => ?_
    have hne := (List.mem_filter.mp hx).2
    simpa [h] using hne
  · next h =>
    induction xs with
    | nil => rfl
    | cons x xs ih =>
      rw [List.filter_cons]
      split
      · rw [lookup, lookup, List.find?_cons, List.find?_cons]
        split
        · rfl
        · exact ih
      · next hx =>
        have hl : key x = l := by simpa using hx
        rw [ih, lookup, lookup, List.find?_cons_of_neg (by simpa [hl] using Ne.symm h)]

/-- **Loading leaves a table as it is** exactly if the last row of each key is the row of the table. -/
theorem load_eq_self [DecidableEq κ] {key : α → κ} (t : List α) :
    ∀ xs : List α, load key t xs = t ↔
      ∀ k x, lookup key k xs.reverse = some x → lookup key k t = some x := by
  induction t with
  | nil =>
    intro xs
    cases xs with
    | nil => exact ⟨fun _ _ _ h => h, fun _ => rfl⟩
    | cons x xs =>
      constructor
      · intro h
        -- the first row is put, and a table does not get empty again
        rw [show load key [] (x :: xs) = load key [x] xs from rfl, load_cons] at h
        cases h
      · intro h
        cases hlast : lookup key (key x) (x :: xs).reverse with
        | none =>
          have hnone := List.find?_eq_none.mp hlast x (List.mem_reverse.mpr List.mem_cons_self)
          exact absurd (decide_eq_true rfl) hnone
        | some z => cases h _ _ hlast
  | cons y ys ih =>
    intro xs
    rw [load_cons, List.cons.injEq, ih]
    constructor
    · rintro ⟨hhead, htail⟩ k x hx
      rw [lookup, List.find?_cons]
      by_cases hk : key y = k
      · rw [decide_eq_true hk]
        rw [hk, hx] at hhead
        exact congrArg some hhead.symm
      · rw [decide_eq_false hk]
        refine htail k x ?_
        rw [← List.filter_reverse, lookup_filter, if_neg (Ne.symm hk)]
        exact hx
    · intro h
      constructor
      · cases hlast : lookup key (key y) xs.reverse with
        | none => rfl
        | some z =>
          have hz := h _ _ hlast
          rw [lookup, List.find?_cons_of_pos (by simp)] at hz
          exact (Option.some.inj hz).symm
      · intro k x hx
        rw [← List.filter_reverse, lookup_filter] at hx
        split at hx
        · cases hx
        · next hk =>
          have hfound := h k x hx
          rwa [lookup, List.find?_cons_of_neg (by simpa using Ne.symm hk)] at hfound

/-! ## Sorting -/

/-- **Sorting by a key leaves rows that share a key in their order.** -/
theorem filter_sorted {r : κ → κ → Prop} [DecidableRel r] (hr : ∀ k, r k k) {key : α → κ} {p : α → Bool}
    {xs : List α} (hp : ∀ a ∈ xs, ∀ b ∈ xs, p a = true → p b = true → key a = key b) :
    (xs.insertionSort fun a b => r (key a) (key b)).filter p = xs.filter p := by
  have hsorted : (xs.filter p).Pairwise fun a b => r (key a) (key b) := by
    refine List.pairwise_of_forall_mem_list fun a ha b hb => ?_
    obtain ⟨hax, hpa⟩ := List.mem_filter.mp ha
    obtain ⟨hbx, hpb⟩ := List.mem_filter.mp hb
    rw [hp a hax b hbx hpa hpb]
    exact hr _
  have hsub := (List.sublist_insertionSort hsorted List.filter_sublist).filter p
  rw [List.filter_filter, List.filter_congr fun a _ => Bool.and_self (p a)] at hsub
  have hlen := ((List.perm_insertionSort (fun a b => r (key a) (key b)) xs).filter p).length_eq
  exact (hsub.eq_of_length hlen.symm).symm

end Lib.Table
