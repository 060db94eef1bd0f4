/-
  Sextets: bytes regrouped into numbers of six bits, and back.

  1. **Both ways** — `sextets` cuts three bytes into four numbers, a rest of one or two bytes into two or
     three; `bytesOf` puts bytes together again, and DROPS the bits behind the last whole byte.

  2. **Reading back** — `bytesOf_sextets`: nothing is lost on the way out.

  3. **Whole** — on the way back nothing is lost exactly if no bit is dropped (`sextets_bytesOf_iff`): there
     is no single number behind the last group of four, and the bits behind the last byte are zero.
-/
import Mathlib.Data.List.Basic

namespace Lib.Sextets

/-- Three bytes make four numbers below 64. -/
def sextets : List UInt8 → List Nat
  | a :: b :: c :: rest =>
      a.toNat / 4 :: (a.toNat % 4 * 16 + b.toNat / 16) :: (b.toNat % 16 * 4 + c.toNat / 64) ::
        c.toNat % 64 :: sextets rest
  | [a, b] => [a.toNat / 4, a.toNat % 4 * 16 + b.toNat / 16, b.toNat % 16 * 4]
  | [a] => [a.toNat / 4, a.toNat % 4 * 16]
  | [] => []

/-- The whole bytes in the bits of the numbers. -/
def bytesOf : List Nat → List UInt8
  | w :: x :: y :: z :: rest =>
      UInt8.ofNat (w * 4 + x / 16) :: UInt8.ofNat (x % 16 * 16 + y / 4) :: UInt8.ofNat (y % 4 * 64 + z) ::
        bytesOf rest
  | [w, x, y] => [UInt8.ofNat (w * 4 + x / 16), UInt8.ofNat (x % 16 * 16 + y / 4)]
  | [w, x] => [UInt8.ofNat (w * 4 + x / 16)]
  | [_] => []
  | [] => []

/-- No bit is dropped behind the last whole byte. -/
def Whole : List Nat → Prop
  | _ :: _ :: _ :: _ :: rest => Whole rest
  | [_, _, y] => y % 4 = 0
  | [_, x] => x % 16 = 0
  | [_] => False
  | [] => True

theorem sextets_lt (bytes : List UInt8) : ∀ v ∈ sextets bytes, v < 64 := by
  have hbyte : ∀ b : UInt8, b.toNat < 256 := fun b => b.toNat_lt
  fun_induction sextets bytes with
  | case1 a b c rest ih =>
    have ha := hbyte a
    have hb := hbyte b
    have hc := hbyte c
    intro v hv
    simp only [List.mem_cons] at hv
    rcases hv with rfl | rfl | rfl | rfl | hv
    · omega
    · omega
    · omega
    · omega
    · exact ih v hv
  | case2 a b =>
    have ha := hbyte a
    have hb := hbyte b
    intro v hv
    simp only [List.mem_cons, List.not_mem_nil, or_false] at hv
    omega
  | case3 a =>
    have ha := hbyte a
    intro v hv
    simp only [List.mem_cons, List.not_mem_nil, or_false] at hv
    omega
  | case4 => exact fun v hv => absurd hv List.not_mem_nil

/-- A byte from the number it was cut up as. -/
theorem ofNat_of_eq {b : UInt8} {n : Nat} (h : n = b.toNat) : UInt8.ofNat n = b := by
  rw [h, UInt8.ofNat_toNat]

/-- **Nothing is lost** on the way out. -/
theorem bytesOf_sextets (bytes : List UInt8) : bytesOf (sextets bytes) = bytes := by
  have hbyte : ∀ b : UInt8, b.toNat < 256 := fun b => b.toNat_lt
  fun_induction sextets bytes with
  | case1 a b c rest ih =>
    have ha := hbyte a
    have hb := hbyte b
    have hc := hbyte c
    rw [bytesOf, ih, ofNat_of_eq (b := a) (by omega), ofNat_of_eq (b := b) (by omega),
      ofNat_of_eq (b := c) (by omega)]
  | case2 a b =>
    have ha := hbyte a
    have hb := hbyte b
    rw [bytesOf, ofNat_of_eq (b := a) (by omega), ofNat_of_eq (b := b) (by omega)]
  | case3 a =>
    have ha := hbyte a
    rw [bytesOf, ofNat_of_eq (b := a) (by omega)]
  | case4 => rfl

theorem sextets_length (bytes : List UInt8) :
    (sextets bytes).length = bytes.length + (bytes.length + 2) / 3 := by
  fun_induction sextets bytes with
  | case1 a b c rest ih =>
    simp only [List.length_cons, ih]
    omega
  | case2 | case3 => simp
  | case4 => rfl

theorem bytesOf_ne_nil_iff (vs : List Nat) : bytesOf vs ≠ [] ↔ 2 ≤ vs.length := by
  fun_cases bytesOf vs with
  | case1 w x y z rest => exact iff_of_true (List.cons_ne_nil _ _) (by simp)
  | case2 w x y => exact iff_of_true (List.cons_ne_nil _ _) (by simp)
  | case3 w x => exact iff_of_true (List.cons_ne_nil _ _) (by simp)
  | case4 w => exact iff_of_false (fun h => h rfl) (by simp)
  | case5 => exact iff_of_false (fun h => h rfl) (by simp)

/-- **Nothing is lost** on the way back exactly if no bit is dropped. -/
theorem sextets_bytesOf_iff {vs : List Nat} (hvs : ∀ v ∈ vs, v < 64) :
    sextets (bytesOf vs) = vs ↔ Whole vs := by
  have hbyte : ∀ n, n < 256 → (UInt8.ofNat n).toNat = n := fun n hn => UInt8.toNat_ofNat_of_lt' hn
  fun_induction bytesOf vs with
  | case1 w x y z rest ih =>
    simp only [List.forall_mem_cons] at hvs
    obtain ⟨hw, hx, hy, hz, hrest⟩ := hvs
    refine Iff.trans ?_ (ih hrest)
    rw [sextets, hbyte _ (by omega), hbyte _ (by omega), hbyte _ (by omega)]
    have hw' : (w * 4 + x / 16) / 4 = w := by omega
    have hx' : (w * 4 + x / 16) % 4 * 16 + (x % 16 * 16 + y / 4) / 16 = x := by omega
    have hy' : (x % 16 * 16 + y / 4) % 16 * 4 + (y % 4 * 64 + z) / 64 = y := by omega
    have hz' : (y % 4 * 64 + z) % 64 = z := by omega
    rw [hw', hx', hy', hz']
    simp only [List.cons.injEq, true_and]
  | case2 w x y =>
    simp only [List.forall_mem_cons] at hvs
    obtain ⟨hw, hx, hy, -⟩ := hvs
    rw [sextets, hbyte _ (by omega), hbyte _ (by omega), Whole]
    simp only [List.cons.injEq, and_true]
    omega
  | case3 w x =>
    simp only [List.forall_mem_cons] at hvs
    obtain ⟨hw, hx, -⟩ := hvs
    rw [sextets, hbyte _ (by omega), Whole]
    simp only [List.cons.injEq, and_true]
    omega
  | case4 w => exact iff_of_false (fun h => List.cons_ne_nil _ _ h.symm) id
  | case5 => exact iff_of_true rfl trivial

end Lib.Sextets
