import Mathlib.Logic.Function.Basic
import Mathlib.Tactic.Common

/-!
# The steps of a mixing hash

A hash of this kind is a row of steps on a machine word, each of which can be undone: xor with a part of
the input, multiplication by an odd constant, and xor of the word with itself shifted to the right.
`xorShift_injective` is the last of them, for words of any width.
-/

namespace Yijinjing.Lib

open Function

/-- A word is not lost when it is xored with itself shifted right: its bits come back from the top. -/
theorem xorShift_injective {w r : ℕ} (hr : 0 < r) : Injective fun x : BitVec w => x ^^^ (x >>> r) := by
  intro x y hxy
  -- the bit `i` is undone with the bit `r + i`, which is nearer to the top
  have hbit : ∀ k i, w ≤ i + k → x.getLsbD i = y.getLsbD i := by
    intro k
    induction k with
    | zero =>
      intro i hi
      rw [BitVec.getLsbD_of_ge x i (by omega), BitVec.getLsbD_of_ge y i (by omega)]
    | succ k ih =>
      intro i hi
      have hxor := congrArg (fun z : BitVec w => z.getLsbD i) hxy
      simp only [BitVec.getLsbD_xor, BitVec.getLsbD_ushiftRight] at hxor
      rw [ih (r + i) (by omega)] at hxor
      simpa using hxor
  exact BitVec.eq_of_getLsbD_eq fun i _ => hbit w i (by omega)

theorem UInt32.xorShift_injective {r : UInt32} (hr : 0 < r.toNat) (hlt : r.toNat < 32) :
    Injective fun x : UInt32 => x ^^^ (x >>> r) := by
  intro x y hxy
  have e := congrArg UInt32.toBitVec hxy
  simp only [UInt32.toBitVec_xor, UInt32.toBitVec_shiftRight] at e
  have hmod : (r.toBitVec % 32).toNat = r.toNat := by simpa using Nat.mod_eq_of_lt hlt
  exact UInt32.toBitVec_inj.mp (Lib.xorShift_injective (by omega) e)

/-- Multiplication by a constant that has an inverse. -/
theorem UInt32.mul_injective {m m' : UInt32} (h : m * m' = 1) : Injective fun x : UInt32 => x * m := by
  intro x y hxy
  calc x = x * m * m' := by rw [UInt32.mul_assoc, h, UInt32.mul_one]
    _ = y * m * m' := congrArg (· * m') hxy
    _ = y := by rw [UInt32.mul_assoc, h, UInt32.mul_one]

end Yijinjing.Lib
