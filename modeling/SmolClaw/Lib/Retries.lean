/-
  Two retry loops, one inside of the other, with the same number of retries.

  1. **Loops** — attempts are numbered from 0.  The inner loop repeats after an attempt that says `again`,
     with `m` repetitions in a round; the outer one starts a new round after a last attempt that says
     `anew`, with `m` new rounds.  `lastAttempt` is the number of the last attempt of all.

  2. **Reach** — `lastAttempt_spec`: every attempt but the last is repeated by one of the loops, and up to
     `m` attempts are repeated as long as they ask for it.

  3. **Budget** — `lastAttempt_le_iff`: the two loops together stay within `m` repetitions exactly if one
     of the first attempts asks for none, or only one of the loops is at work.
-/
import Mathlib.Data.Nat.Basic

namespace Lib.Retries

variable (again anew : Nat → Bool) (m : Nat)

/-- The last attempt of a round that begins with attempt `i`, with `left` repetitions. -/
def roundEnd : Nat → Nat → Nat
  | 0, i => i
  | left + 1, i => if again i then roundEnd left (i + 1) else i

/-- The last attempt of all, for a round that begins with attempt `i`, with `left` new rounds. -/
def lastAttempt : Nat → Nat → Nat
  | 0, i => roundEnd again m i
  | left + 1, i =>
      if anew (roundEnd again m i) then lastAttempt left (roundEnd again m i + 1) else roundEnd again m i

variable {again anew m}

/-! ## One round -/

variable (again) in
/-- A round goes on as long as its attempts say so, and ends with one that does not or with the last
    repetition. -/
theorem roundEnd_spec (left : Nat) :
    ∀ i, i ≤ roundEnd again left i ∧ (∀ k, i ≤ k → k < roundEnd again left i → again k = true) ∧
      (again (roundEnd again left i) = true → roundEnd again left i = i + left) := by
  induction left with
  | zero =>
    intro i
    exact ⟨Nat.le_refl i, fun k hk hlt => absurd hlt (Nat.not_lt.mpr hk), fun _ => rfl⟩
  | succ left ih =>
    intro i
    rw [roundEnd]
    split
    · next hagain =>
      obtain ⟨hle, hbefore, hend⟩ := ih (i + 1)
      refine ⟨by omega, fun k hk hlt => ?_, fun h => by have := hend h; omega⟩
      by_cases hki : k = i
      · rw [hki]
        exact hagain
      · exact hbefore k (by omega) hlt
    · next hagain =>
      exact ⟨Nat.le_refl i, fun k hk hlt => absurd hlt (Nat.not_lt.mpr hk), fun h => absurd h hagain⟩

/-- A round whose attempts all go on has all its repetitions. -/
theorem roundEnd_all {left : Nat} : ∀ {i : Nat}, (∀ k, i ≤ k → k < i + left → again k = true) →
    roundEnd again left i = i + left := by
  induction left with
  | zero => intro i _; rfl
  | succ left ih =>
    intro i h
    rw [roundEnd, if_pos (h i (Nat.le_refl i) (by omega)), ih fun k hk hlt => h k (by omega) (by omega)]
    omega

/-! ## All rounds -/

variable (again anew m) in
/-- **Reach**: the attempts in front of the last one were all repeated, and one of the first `m` that was
    the last did not ask for another. -/
theorem lastAttempt_spec (left : Nat) :
    ∀ i, m ≤ left + i →
      i ≤ lastAttempt again anew m left i ∧
      (∀ k, i ≤ k → k < lastAttempt again anew m left i → again k = true ∨ anew k = true) ∧
      (lastAttempt again anew m left i < m →
        again (lastAttempt again anew m left i) = false ∧
          anew (lastAttempt again anew m left i) = false) := by
  induction left with
  | zero =>
    intro i hi
    obtain ⟨hle, hbefore, -⟩ := roundEnd_spec again m i
    rw [lastAttempt]
    exact ⟨hle, fun k hk hlt => Or.inl (hbefore k hk hlt), fun hlt => by omega⟩
  | succ left ih =>
    intro i hi
    obtain ⟨hle, hbefore, hend⟩ := roundEnd_spec again m i
    rw [lastAttempt]
    split
    · next hanew =>
      obtain ⟨hle', hbefore', hlast⟩ := ih (roundEnd again m i + 1) (by omega)
      refine ⟨by omega, fun k hk hlt => ?_, hlast⟩
      rcases Nat.lt_trichotomy k (roundEnd again m i) with h | rfl | h
      · exact Or.inl (hbefore k hk h)
      · exact Or.inr hanew
      · exact hbefore' k (by omega) hlt
    · next hanew =>
      refine ⟨hle, fun k hk hlt => Or.inl (hbefore k hk hlt), fun hlt => ?_⟩
      rw [← Bool.not_eq_true, ← Bool.not_eq_true]
      exact ⟨fun h => by have := hend h; omega, hanew⟩

/-- When every one of the first attempts asks for another, rounds to spare lead beyond the budget. -/
theorem lt_lastAttempt (left : Nat) (hon : ∀ k ≤ m, again k = true ∨ anew k = true) :
    ∀ i, 1 ≤ i → m < left + i → m < lastAttempt again anew m left i := by
  induction left with
  | zero =>
    intro i _ hi
    have hle := (roundEnd_spec again m i).1
    rw [lastAttempt]
    omega
  | succ left ih =>
    intro i hpos hi
    obtain ⟨hle, -, hend⟩ := roundEnd_spec again m i
    rw [lastAttempt]
    by_cases hin : roundEnd again m i ≤ m
    · -- the round has not used up its repetitions, so it is the outer loop that goes on
      have hanew : anew (roundEnd again m i) = true := by
        refine (hon _ hin).resolve_left fun h => ?_
        have := hend h
        omega
      rw [if_pos hanew]
      exact ih _ (by omega) (by omega)
    · split
      · have hnext := ih (roundEnd again m i + 1) (by omega) (by omega)
        exact hnext
      · omega

/-- When every one of the first attempts asks for another, and each had a round of its own so far, the
    budget is kept exactly if the inner loop stays idle. -/
theorem lastAttempt_le_single (left : Nat) (hon : ∀ k ≤ m, again k = true ∨ anew k = true) :
    ∀ i, 1 ≤ i → left + i = m →
      (lastAttempt again anew m left i ≤ m ↔ ∀ k, i ≤ k → k ≤ m → again k = false) := by
  induction left with
  | zero =>
    intro i hpos hi
    obtain ⟨hle, -, hend⟩ := roundEnd_spec again m i
    rw [lastAttempt]
    have him : i = m := by omega
    cases hagain : again i with
    | false =>
      have hone : roundEnd again m i = i := by
        obtain ⟨n, rfl⟩ : ∃ n, m = n + 1 := ⟨m - 1, by omega⟩
        rw [roundEnd, if_neg (by rw [hagain]; exact Bool.false_ne_true)]
      refine iff_of_true (by omega) fun k hk hkm => ?_
      rw [show k = i by omega, hagain]
    | true =>
      refine iff_of_false (fun hin => ?_) fun h => ?_
      · have hlast : roundEnd again m i = i := by omega
        have := hend (by rw [hlast]; exact hagain)
        omega
      · have := h i (Nat.le_refl i) (by omega)
        rw [hagain] at this
        cases this
  | succ left ih =>
    intro i hpos hi
    obtain ⟨n, hn⟩ : ∃ n, m = n + 1 := ⟨m - 1, by omega⟩
    rw [lastAttempt]
    cases hagain : again i with
    | false =>
      have hone : roundEnd again m i = i := by
        rw [hn, roundEnd, if_neg (by rw [hagain]; exact Bool.false_ne_true)]
      have hanew : anew i = true := (hon i (by omega)).resolve_left (by rw [hagain]; exact Bool.false_ne_true)
      rw [hone, if_pos hanew, ih (i + 1) (by omega) (by omega)]
      constructor
      · intro h k hk hkm
        by_cases hki : k = i
        · rw [hki, hagain]
        · exact h k (by omega) hkm
      · intro h k hk hkm
        exact h k (by omega) hkm
    | true =>
      refine iff_of_false (fun hin => ?_) fun h => ?_
      · -- the round takes two attempts at least, and a round is to spare
        have htwo : i + 1 ≤ roundEnd again m i := by
          rw [hn, roundEnd, if_pos hagain]
          exact (roundEnd_spec again n (i + 1)).1
        obtain ⟨-, -, hend⟩ := roundEnd_spec again m i
        by_cases hround : roundEnd again m i ≤ m
        · have hanew : anew (roundEnd again m i) = true := by
            refine (hon _ hround).resolve_left fun h => ?_
            have := hend h
            omega
          rw [if_pos hanew] at hin
          have := lt_lastAttempt left hon (roundEnd again m i + 1) (by omega) (by omega)
          omega
        · split at hin
          · have hle := lt_lastAttempt left hon (roundEnd again m i + 1) (by omega) (by omega)
            omega
          · omega
      · have := h i (Nat.le_refl i) (by omega)
        rw [hagain] at this
        cases this

/-- **The budget of both loops** is kept exactly if there are no retries, one of the first `m + 1` attempts
    asks for no other, none of them asks the inner loop, or all but the last ask the inner loop and the
    last does not ask the outer one. -/
theorem lastAttempt_le_iff :
    lastAttempt again anew m m 0 ≤ m ↔
      m = 0 ∨ (∃ k ≤ m, again k = false ∧ anew k = false) ∨ (∀ k ≤ m, again k = false) ∨
        ((∀ k < m, again k = true) ∧ anew m = false) := by
  by_cases hstop : ∃ k ≤ m, again k = false ∧ anew k = false
  · refine iff_of_true ?_ (Or.inr (Or.inl hstop))
    obtain ⟨k, hk, hagain, hanew⟩ := hstop
    by_contra hlt
    have hreach : ∀ k, 0 ≤ k → k < lastAttempt again anew m m 0 → again k = true ∨ anew k = true :=
      (lastAttempt_spec again anew m m 0 (by omega)).2.1
    rcases hreach k (Nat.zero_le k) (by omega) with h | h
    · rw [hagain] at h
      cases h
    · rw [hanew] at h
      cases h
  have hon : ∀ k ≤ m, again k = true ∨ anew k = true := by
    intro k hk
    by_contra hno
    rw [not_or, Bool.not_eq_true, Bool.not_eq_true] at hno
    exact hstop ⟨k, hk, hno⟩
  rw [or_iff_right hstop]
  cases hm : m with
  | zero => exact iff_of_true (Nat.le_refl 0) (Or.inl rfl)
  | succ n =>
    rw [← hm, or_iff_right (by omega : ¬ m = 0), hm, lastAttempt, ← hm]
    obtain ⟨-, hbefore, hend⟩ := roundEnd_spec again m 0
    cases hagain : again 0 with
    | false =>
      have hone : roundEnd again m 0 = 0 := by
        rw [hm, roundEnd, if_neg (by rw [hagain]; exact Bool.false_ne_true)]
      have hanew : anew 0 = true :=
        (hon 0 (Nat.zero_le m)).resolve_left (by rw [hagain]; exact Bool.false_ne_true)
      rw [hone, if_pos hanew, lastAttempt_le_single n hon 1 (Nat.le_refl 1) (by omega)]
      constructor
      · intro h
        refine Or.inl fun k hk => ?_
        by_cases hk0 : k = 0
        · rw [hk0, hagain]
        · exact h k (by omega) hk
      · rintro (h | ⟨h, -⟩) k hk hkm
        · exact h k hkm
        · have := h 0 (by omega)
          rw [hagain] at this
          cases this
    | true =>
      rw [or_iff_right fun h => by have := h 0 (Nat.zero_le m); rw [hagain] at this; cases this]
      by_cases hall : ∀ k < m, again k = true
      · have hround : roundEnd again m 0 = m := by
          rw [roundEnd_all fun k _ hlt => hall k (by omega), Nat.zero_add]
        rw [hround, and_iff_right hall]
        cases hanew : anew m with
        | false => exact iff_of_true (by rw [if_neg Bool.false_ne_true]) rfl
        | true =>
          rw [if_pos rfl]
          refine iff_of_false (fun hin => ?_) fun h => by cases h
          have := lt_lastAttempt n hon (m + 1) (by omega) (by omega)
          omega
      · refine iff_of_false (fun hin => ?_) fun h => hall h.1
        -- the round ends in front of its last repetition, and rounds are to spare
        have hearly : roundEnd again m 0 < m := by
          by_contra hlate
          exact hall fun k hk => hbefore k (Nat.zero_le k) (by omega)
        have hanew : anew (roundEnd again m 0) = true := by
          refine (hon _ (by omega)).resolve_left fun h => ?_
          have := hend h
          omega
        rw [if_pos hanew] at hin
        have hfirst : 1 ≤ roundEnd again m 0 := by
          by_contra hzero
          have hlast := hend
          rw [show roundEnd again m 0 = 0 by omega] at hlast
          have := hlast hagain
          omega
        have := lt_lastAttempt n hon (roundEnd again m 0 + 1) (by omega) (by omega)
        omega

end Lib.Retries
