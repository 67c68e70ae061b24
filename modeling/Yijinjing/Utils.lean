import Yijinjing.Lib.Bytes

/-!
# Constants, address arithmetic and the hash of `utils/`

`constants.h`, the macro `ADDRESS_ADD` of `YJJ_DECLARE.h`, and `MurmurHash2` of `Hash.hpp`.
-/

namespace Yijinjing

open Lib

def hashSeed : UInt32 := 97

def journalShortNameMaxLength : ℕ := 30
def journalFolderMaxLength : ℕ := 100

def timeFromFirst : Int64 := 0
def timeToLast : Int64 := -1

def kb : ℕ := 1024
def mb : ℕ := kb * kb

/-- `JOURNAL_PAGE_SIZE` -/
def journalPageSize : ℕ := 128 * mb
/-- `PAGE_MIN_HEADROOM` -/
def pageMinHeadroom : ℕ := 2 * mb

theorem journalPageSize_eq : journalPageSize = 134217728 := by decide
theorem pageMinHeadroom_eq : pageMinHeadroom = 2097152 := by decide

/-- `ADDRESS_ADD(x, delta)`: the sum in `uintptr_t`, with `delta` sign-extended.  Addresses are
offsets from the buffer. -/
def addressAdd (x : ℕ) (delta : Int32) : ℕ := (((x : ℤ) + delta.toInt) % 2 ^ 64).toNat

theorem addressAdd_ofNat {x n : ℕ} (hn : n < 2 ^ 31) (hx : x < 2 ^ 32) :
    addressAdd x (Int32.ofNat n) = x + n := by
  unfold addressAdd
  rw [Int32.toInt_ofNat_of_lt hn, Int.emod_eq_of_lt (by omega) (by omega)]
  omega

/-! ### `MurmurHash2` -/

def murmurM : UInt32 := 0x5bd1e995

/-- One turn of the loop: four bytes of the key mixed into `h`. -/
def murmurMix (h k : UInt32) : UInt32 :=
  let k := k * murmurM
  let k := k ^^^ (k >>> 24)
  let k := k * murmurM
  (h * murmurM) ^^^ k

/-- The loop over the four-byte groups and the `switch` on what is left. -/
def murmurBody : UInt32 → List UInt8 → UInt32
  | h, b0 :: b1 :: b2 :: b3 :: rest =>
    murmurBody (murmurMix h (UInt32.ofNat (leValue [b0, b1, b2, b3]))) rest
  | h, [b0, b1, b2] => (((h ^^^ (b2.toUInt32 <<< 16)) ^^^ (b1.toUInt32 <<< 8)) ^^^ b0.toUInt32) * murmurM
  | h, [b0, b1] => ((h ^^^ (b1.toUInt32 <<< 8)) ^^^ b0.toUInt32) * murmurM
  | h, [b0] => (h ^^^ b0.toUInt32) * murmurM
  | h, [] => h

def murmurHash2 (key : List UInt8) (seed : UInt32) : UInt32 :=
  let h := murmurBody (seed ^^^ UInt32.ofNat key.length) key
  let h := h ^^^ (h >>> 13)
  let h := h * murmurM
  h ^^^ (h >>> 15)

end Yijinjing
