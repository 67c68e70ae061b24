import Mathlib.Data.Int.Notation
import Mathlib.Tactic.Common
import Mathlib.Tactic.NormNum

/-!
# Signed integers of C

A signed operation gives its result if it can be represented, and is undefined otherwise (`int32Of`,
`int64Of`).  A conversion to a narrower type keeps the low bits (`toInt_toInt32_eq`).
-/

namespace Yijinjing.Lib

/-- The result of an operation on `int`. -/
def int32Of (n : ℤ) : Option Int32 := if -2 ^ 31 ≤ n ∧ n < 2 ^ 31 then some (Int32.ofInt n) else none

/-- The result of an operation on `int64_t`. -/
def int64Of (n : ℤ) : Option Int64 := if -2 ^ 63 ≤ n ∧ n < 2 ^ 63 then some (Int64.ofInt n) else none

variable {n : ℤ}

theorem int32Of_eq_some {x : Int32} : int32Of n = some x ↔ x.toInt = n := by
  unfold int32Of
  have hlo := x.le_toInt
  have hhi := x.toInt_lt
  split
  · rename_i h
    rw [Option.some.injEq, ← Int32.toInt_inj, Int32.toInt_ofInt_of_le h.1 h.2, eq_comm]
  · rename_i h
    refine iff_of_false (by simp) fun hx => h ?_
    omega

theorem int64Of_eq_some {x : Int64} : int64Of n = some x ↔ x.toInt = n := by
  unfold int64Of
  have hlo := x.le_toInt
  have hhi := x.toInt_lt
  split
  · rename_i h
    rw [Option.some.injEq, ← Int64.toInt_inj, Int64.toInt_ofInt_of_le h.1 h.2, eq_comm]
  · rename_i h
    refine iff_of_false (by simp) fun hx => h ?_
    omega

theorem exists_int32Of (hlo : -2 ^ 31 ≤ n) (hhi : n < 2 ^ 31) : ∃ x, int32Of n = some x ∧ x.toInt = n :=
  ⟨Int32.ofInt n, if_pos ⟨hlo, hhi⟩, Int32.toInt_ofInt_of_le hlo hhi⟩

theorem exists_int64Of (hlo : -2 ^ 63 ≤ n) (hhi : n < 2 ^ 63) : ∃ x, int64Of n = some x ∧ x.toInt = n :=
  ⟨Int64.ofInt n, if_pos ⟨hlo, hhi⟩, Int64.toInt_ofInt_of_le hlo hhi⟩

/-- A conversion takes away a multiple of `2 ^ 32`. -/
theorem toInt_toInt32_eq (x : Int64) :
    x.toInt32.toInt = x.toInt - 2 ^ 32 * ((x.toInt + 2 ^ 31) / 2 ^ 32) := by
  rw [Int64.toInt_toInt32, Int.bmod_def]
  split <;> omega

end Yijinjing.Lib
