/-
  A rate limit with a fixed window: a counter that starts anew when the window is over.

  The window does not slide, and it starts with the first attempt after the last one was over, so two
  full windows may stand next to each other.  Over ANY stretch of `T` time units the attempts that pass
  are at most `limit * (T / width + 2)`: one window that was open before the stretch, and then one more
  for every `width` units begun in it.

  `Counted` is the invariant: it says for one stretch how many attempts have passed in it, as a bound in
  the START of the current window.  Each attempt keeps it (`Counted.attempt`), and so does time that
  goes by (`Counted.wait`).
-/
import Mathlib.Algebra.Order.Ring.Int

namespace Lib.FixedWindow

/-- When the window started, and the attempts that passed since. -/
structure Window where
  started : Int
  count : Nat

/-- The window an attempt meets: a new one where the old one is over, or the clock was set back. -/
def Window.roll (width : Nat) (now : Int) (w : Window) : Window :=
  if now < w.started ∨ (width : Int) ≤ now - w.started then ⟨now, 0⟩ else w

/-- An attempt: the window it leaves, and whether it passes. -/
def Window.attempt (width limit : Nat) (now : Int) (w : Window) : Window × Bool :=
  let w := w.roll width now
  if limit ≤ w.count then (w, false) else (⟨w.started, w.count + 1⟩, true)

/-- `n` attempts have passed in the stretch of `length` units from `first`, and the last one seen was at
    `last`. -/
structure Counted (width limit : Nat) (first : Int) (length : Nat) (w : Window) (last : Int) (n : Nat) :
    Prop where
  le_limit : w.count ≤ limit
  started_le : w.started ≤ last
  before : last < first → n = 0
  /-- The window was open before the stretch. -/
  early : w.started < first → n ≤ w.count
  /-- The window was opened in the stretch, or behind it. -/
  late : first ≤ w.started → n ≤ w.count + limit * (1 + (w.started - first).toNat / width)
  bound : n ≤ limit * (length / width + 2)

variable {width limit length : Nat} {first last now : Int} {w : Window} {n : Nat}

/-- Nothing has passed. -/
theorem Counted.zero (h : w.count ≤ limit) (hstarted : w.started ≤ last) :
    Counted width limit first length w last 0 :=
  ⟨h, hstarted, fun _ => rfl, fun _ => Nat.zero_le _, fun _ => Nat.zero_le _, Nat.zero_le _⟩

/-- Time goes by. -/
theorem Counted.wait (h : Counted width limit first length w last n) (hle : last ≤ now) :
    Counted width limit first length w now n :=
  ⟨h.le_limit, h.started_le.trans hle, fun hlt => h.before (lt_of_le_of_lt hle hlt), h.early, h.late, h.bound⟩

/-- Fewer may be counted. -/
theorem Counted.mono (h : Counted width limit first length w last n) {m : Nat} (hm : m ≤ n) :
    Counted width limit first length w last m :=
  ⟨h.le_limit, h.started_le, fun hlt => Nat.le_zero.mp ((h.before hlt) ▸ hm), fun he => hm.trans (h.early he),
    fun hl => hm.trans (h.late hl), hm.trans h.bound⟩

/-- A window opened at least `width` later lets one more window's worth pass. -/
theorem next_window (hwidth : 0 < width) {a b : Nat} (h : a + width ≤ b) : 1 + a / width ≤ b / width := by
  have hdiv : (a + width) / width ≤ b / width := Nat.div_le_div_right h
  rw [Nat.add_div_right a hwidth] at hdiv
  omega

/-- **A new window**: what has passed is paid for by the windows that are over. -/
theorem Counted.roll (hwidth : 0 < width) (h : Counted width limit first length w last n)
    (hle : last ≤ now) : Counted width limit first length (w.roll width now) now n := by
  have hwait := h.wait hle
  rw [Window.roll]
  split
  · next hover =>
    refine ⟨Nat.zero_le _, le_refl now, hwait.before, fun hearly => Nat.le_of_eq (hwait.before hearly), ?_,
      h.bound⟩
    intro hlate
    show n ≤ 0 + limit * (1 + (now - first).toNat / width)
    rcases lt_or_ge w.started first with hopen | hopen
    · have hn := h.early hopen
      have hfull := h.le_limit
      have hone : limit * 1 ≤ limit * (1 + (now - first).toNat / width) :=
        Nat.mul_le_mul_left limit (Nat.le_add_right 1 _)
      omega
    · have hn := h.late hopen
      have hfull := h.le_limit
      have hstarted := h.started_le
      have hnext := next_window hwidth (a := (w.started - first).toNat) (b := (now - first).toNat) (by omega)
      have hpaid : limit * (1 + (1 + (w.started - first).toNat / width))
          ≤ limit * (1 + (now - first).toNat / width) :=
        Nat.mul_le_mul_left limit (Nat.add_le_add_left hnext 1)
      rw [Nat.mul_add limit 1, Nat.mul_one] at hpaid
      omega
  · exact hwait

/-- **An attempt keeps the count**, in the stretch or outside. -/
theorem Counted.attempt (hwidth : 0 < width) (h : Counted width limit first length w last n)
    (hle : last ≤ now) :
    Counted width limit first length (w.attempt width limit now).1 now
      (n + if (w.attempt width limit now).2 = true ∧ first ≤ now ∧ now ≤ first + length then 1 else 0) := by
  have hroll := h.roll hwidth hle
  rw [Window.attempt]
  generalize w.roll width now = v at hroll
  split
  · rw [if_neg (by simp), Nat.add_zero]
    exact hroll
  · next hroom =>
    have hcount : v.count + 1 ≤ limit := by omega
    have hstarted := hroll.started_le
    refine ⟨hcount, hstarted, ?_, ?_, ?_, ?_⟩
    · intro hbefore
      rw [hroll.before hbefore, if_neg (by omega)]
    · intro hopen
      have hn := hroll.early hopen
      show _ ≤ v.count + 1
      split <;> omega
    · intro hopen
      have hn := hroll.late hopen
      show _ ≤ v.count + 1 + limit * (1 + (v.started - first).toNat / width)
      split <;> omega
    · split
      · next hin =>
        -- the window of an attempt in the stretch started no later than the stretch ends
        rcases lt_or_ge v.started first with hopen | hopen
        · have hn := hroll.early hopen
          have hone : limit * 1 ≤ limit * (length / width + 2) :=
            Nat.mul_le_mul_left limit (Nat.le_add_left 1 (length / width + 1))
          omega
        · have hn := hroll.late hopen
          have hdiv : (v.started - first).toNat / width ≤ length / width :=
            Nat.div_le_div_right (by omega)
          have htwo : limit * (1 + (v.started - first).toNat / width + 1) ≤ limit * (length / width + 2) :=
            Nat.mul_le_mul_left limit (by rw [Nat.add_comm 1]; exact Nat.add_le_add_right hdiv 2)
          rw [Nat.mul_add limit _ 1, Nat.mul_one] at htwo
          omega
      · exact hroll.bound

end Lib.FixedWindow
