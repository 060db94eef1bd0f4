/-
  Programs that ask for memory, and what they do when they do not get it.

  A program is run with a stream of answers, `Grants`: whether each of its next requests is granted.
  `Requests e p n a` says all there is to say about a program that does nothing else than ask: granted
  its `n` requests it returns `a`, and the first one that is refused ends it with the error `e`.
  `Requests.bind` adds the requests of two programs up, so a count for each call gives the count of a
  whole function.
-/
import Mathlib.Data.Nat.Basic

namespace Lib.Memory

universe u

/-- Whether each of the next requests is granted. -/
abbrev Grants := Nat → Bool

/-- What is left of the answers behind `n` requests. -/
def Grants.after (g : Grants) (n : Nat) : Grants := fun k => g (n + k)

/-- The first `n` requests are granted. -/
def Grants.First (g : Grants) (n : Nat) : Prop := ∀ k < n, g k = true

instance (g : Grants) (n : Nat) : Decidable (g.First n) :=
  inferInstanceAs (Decidable (∀ k < n, g k = true))

/-- A program that may ask for memory. -/
def Program (E α : Type u) := Grants → Except E α × Grants

instance {E : Type u} : Monad (Program E) where
  pure a := fun g => (.ok a, g)
  bind p f := fun g =>
    match p g with
    | (.ok a, g) => f a g
    | (.error e, g) => (.error e, g)

variable {E α β : Type u} {e : E}

/-- One request. -/
def request (e : E) : Program E PUnit := fun g => (if g 0 then .ok ⟨⟩ else .error e, g.after 1)

/-- **A program that makes `n` requests and returns `a`**, or fails with `e` at the first that is refused. -/
structure Requests (e : E) (p : Program E α) (n : Nat) (a : α) : Prop where
  granted : ∀ g : Grants, g.First n → p g = (.ok a, g.after n)
  refused : ∀ g : Grants, ¬ g.First n → (p g).1 = .error e

@[simp] theorem Grants.after_zero (g : Grants) : g.after 0 = g := funext fun k => congrArg g (Nat.zero_add k)

theorem Grants.after_after (g : Grants) (n m : Nat) : (g.after n).after m = g.after (n + m) :=
  funext fun k => congrArg g (Nat.add_assoc n m k).symm

theorem Grants.first_zero (g : Grants) : g.First 0 := fun k hk => absurd hk (Nat.not_lt_zero k)

theorem Grants.first_one (g : Grants) : g.First 1 ↔ g 0 = true := by
  constructor
  · intro h
    exact h 0 Nat.one_pos
  · intro h k hk
    rw [Nat.lt_one_iff.mp hk]
    exact h

/-- Requests are granted one part after the other. -/
theorem Grants.first_add (g : Grants) (n m : Nat) : g.First (n + m) ↔ g.First n ∧ (g.after n).First m := by
  constructor
  · intro h
    exact ⟨fun k hk => h k (by omega), fun k hk => h (n + k) (by omega)⟩
  · rintro ⟨hn, hm⟩ k hk
    by_cases hlt : k < n
    · exact hn k hlt
    · have hrest := hm (k - n) (by omega)
      rwa [Grants.after, Nat.add_sub_cancel' (Nat.le_of_not_lt hlt)] at hrest

theorem requests_pure (a : α) : Requests e (pure a : Program E α) 0 a where
  granted g _ := by rw [g.after_zero]; rfl
  refused g h := absurd g.first_zero h

theorem requests_request : Requests e (request e) 1 ⟨⟩ where
  granted g h := by
    show (if g 0 then _ else _, _) = _
    rw [if_pos (g.first_one.mp h)]
  refused g h := by
    show (if g 0 then _ else _) = _
    rw [if_neg fun h0 => h (g.first_one.mpr h0)]

/-- **The requests of two programs add up.** -/
theorem Requests.bind {p : Program E α} {f : α → Program E β} {n m : Nat} {a : α} {b : β}
    (hp : Requests e p n a) (hf : Requests e (f a) m b) : Requests e (p >>= f) (n + m) b where
  granted g h := by
    obtain ⟨hn, hm⟩ := (g.first_add n m).mp h
    show (match p g with | (.ok a, g) => f a g | (.error e, g) => (.error e, g)) = _
    rw [hp.granted g hn]
    show f a (g.after n) = _
    rw [hf.granted _ hm, g.after_after]
  refused g h := by
    show (match p g with | (.ok a, g) => f a g | (.error e, g) => (.error e, g)).1 = _
    by_cases hn : g.First n
    · rw [hp.granted g hn]
      exact hf.refused _ fun hm => h ((g.first_add n m).mpr ⟨hn, hm⟩)
    · have herror := hp.refused g hn
      generalize p g = outcome at herror ⊢
      obtain ⟨result, rest⟩ := outcome
      obtain rfl : result = .error e := herror
      rfl

/-- What is made of a result asks for nothing more. -/
theorem Requests.map {p : Program E α} {n : Nat} {a : α} (hp : Requests e p n a) (f : α → β) :
    Requests e (p >>= fun a => pure (f a)) n (f a) :=
  Requests.bind (m := 0) (f := fun a => pure (f a)) hp (requests_pure (f a))

/-- **Whether a program succeeds** is whether its requests are granted. -/
theorem Requests.result {p : Program E α} {n : Nat} {a : α} (h : Requests e p n a) (g : Grants) :
    (p g).1 = if g.First n then .ok a else .error e := by
  split
  · next hn => rw [h.granted g hn]
  · next hn => exact h.refused g hn

end Lib.Memory
