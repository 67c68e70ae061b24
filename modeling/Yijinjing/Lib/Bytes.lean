import Mathlib.Data.List.Basic
import Mathlib.Tactic.Common
import Mathlib.Tactic.NormNum

/-!
# Byte memory and little-endian scalars

A memory is a byte for every address.  `store` writes a block of bytes at an address, `load` reads
one back, and the two laws of a memory are `load_store` (what was written is read) and
`load_store_disjoint` (a block that does not meet the written one is unchanged).

A `Scalar` is a type with a fixed-width encoding that decodes back; `loadAs` and `storeAs` read and
write one.  The machine integers of the source languages are instances, little-endian.
-/

namespace Yijinjing.Lib

/-! ### Little-endian numbers -/

/-- The `n` low bytes of `v`, least significant first. -/
def leBytes : ℕ → ℕ → List UInt8
  | 0, _ => []
  | n + 1, v => UInt8.ofNat v :: leBytes n (v / 256)

/-- The number with the given bytes, least significant first. -/
def leValue : List UInt8 → ℕ
  | [] => 0
  | b :: bs => b.toNat + 256 * leValue bs

@[simp] theorem length_leBytes (n v : ℕ) : (leBytes n v).length = n := by
  induction n generalizing v with
  | zero => rfl
  | succ n ih => simp [leBytes, ih]

theorem leValue_leBytes (n v : ℕ) : leValue (leBytes n v) = v % 256 ^ n := by
  induction n generalizing v with
  | zero => simp [leBytes, leValue, Nat.mod_one]
  | succ n ih =>
    have hb : (UInt8.ofNat v).toNat = v % 256 := by simp
    rw [leBytes, leValue, ih, hb, pow_succ', Nat.mod_mul]

theorem leValue_leBytes_of_lt {n v : ℕ} (h : v < 256 ^ n) : leValue (leBytes n v) = v := by
  rw [leValue_leBytes, Nat.mod_eq_of_lt h]

theorem leValue_lt (bs : List UInt8) : leValue bs < 256 ^ bs.length := by
  induction bs with
  | nil => simp [leValue]
  | cons b bs ih =>
    have hb := b.toNat_lt
    rw [leValue, List.length_cons, pow_succ']
    omega

theorem leBytes_leValue (bs : List UInt8) : leBytes bs.length (leValue bs) = bs := by
  induction bs with
  | nil => rfl
  | cons b bs ih =>
    have hb := b.toNat_lt
    have hlow : UInt8.ofNat (b.toNat + 256 * leValue bs) = b := by
      refine UInt8.toNat_inj.mp ?_
      simp
    have hhigh : (b.toNat + 256 * leValue bs) / 256 = leValue bs := by omega
    rw [List.length_cons, leValue, leBytes, hlow, hhigh, ih]

/-! ### Fixed-width scalars -/

/-- A type whose values have an encoding of a fixed number of bytes that decodes back. -/
class Scalar (β : Type) where
  width : ℕ
  encode : β → List UInt8
  decode : List UInt8 → β
  length_encode (v : β) : (encode v).length = width
  decode_encode (v : β) : decode (encode v) = v

attribute [simp] Scalar.length_encode Scalar.decode_encode

instance : Scalar UInt8 where
  width := 1
  encode v := [v]
  decode bs := bs.headD 0
  length_encode _ := rfl
  decode_encode _ := rfl

instance : Scalar UInt32 where
  width := 4
  encode v := leBytes 4 v.toNat
  decode bs := UInt32.ofNat (leValue bs)
  length_encode _ := length_leBytes _ _
  decode_encode v := by
    rw [leValue_leBytes_of_lt (by have := v.toNat_lt; omega), UInt32.ofNat_toNat]

instance : Scalar Int16 where
  width := 2
  encode v := leBytes 2 v.toUInt16.toNat
  decode bs := (UInt16.ofNat (leValue bs)).toInt16
  length_encode _ := length_leBytes _ _
  decode_encode v := by
    rw [leValue_leBytes_of_lt (by have := v.toUInt16.toNat_lt; omega), UInt16.ofNat_toNat,
      Int16.toInt16_toUInt16]

instance : Scalar Int32 where
  width := 4
  encode v := leBytes 4 v.toUInt32.toNat
  decode bs := (UInt32.ofNat (leValue bs)).toInt32
  length_encode _ := length_leBytes _ _
  decode_encode v := by
    rw [leValue_leBytes_of_lt (by have := v.toUInt32.toNat_lt; omega), UInt32.ofNat_toNat,
      Int32.toInt32_toUInt32]

instance : Scalar Int64 where
  width := 8
  encode v := leBytes 8 v.toUInt64.toNat
  decode bs := (UInt64.ofNat (leValue bs)).toInt64
  length_encode _ := length_leBytes _ _
  decode_encode v := by
    rw [leValue_leBytes_of_lt (by have := v.toUInt64.toNat_lt; omega), UInt64.ofNat_toNat,
      Int64.toInt64_toUInt64]

/-- A scalar of four bytes is read from its own encoding only. -/
theorem encode_decode_int32 {bs : List UInt8} (h : bs.length = 4) :
    Scalar.encode (Scalar.decode bs : Int32) = bs := by
  have hlt := leValue_lt bs
  rw [h] at hlt
  have hval : (Scalar.decode bs : Int32).toUInt32.toNat = leValue bs := by
    show ((UInt32.ofNat (leValue bs)).toInt32.toUInt32).toNat = leValue bs
    rw [UInt32.toUInt32_toInt32, UInt32.toNat_ofNat_of_lt' (by omega)]
  show leBytes 4 (Scalar.decode bs : Int32).toUInt32.toNat = bs
  rw [hval, ← h]
  exact leBytes_leValue bs

@[simp] theorem width_uint8 : Scalar.width UInt8 = 1 := rfl
@[simp] theorem width_uint32 : Scalar.width UInt32 = 4 := rfl
@[simp] theorem width_int16 : Scalar.width Int16 = 2 := rfl
@[simp] theorem width_int32 : Scalar.width Int32 = 4 := rfl
@[simp] theorem width_int64 : Scalar.width Int64 = 8 := rfl

/-! ### Memory -/

/-- A byte for every address. -/
abbrev Mem := ℕ → UInt8

namespace Mem

variable {β γ : Type} [Scalar β] [Scalar γ]

/-- The `n` bytes from address `a` on. -/
def load (m : Mem) (a n : ℕ) : List UInt8 := (List.range n).map fun k => m (a + k)

/-- Write a block of bytes from address `a` on. -/
def store (m : Mem) (a : ℕ) (bs : List UInt8) : Mem :=
  fun i => if a ≤ i ∧ i < a + bs.length then bs.getD (i - a) 0 else m i

def loadAs (β : Type) [Scalar β] (m : Mem) (a : ℕ) : β :=
  Scalar.decode (m.load a (Scalar.width β))

def storeAs (m : Mem) (a : ℕ) (v : β) : Mem := m.store a (Scalar.encode v)

@[simp] theorem length_load (m : Mem) (a n : ℕ) : (m.load a n).length = n := by simp [load]

theorem store_outside (m : Mem) {a i : ℕ} {bs : List UInt8} (h : i < a ∨ a + bs.length ≤ i) :
    m.store a bs i = m i := by
  unfold store
  rw [if_neg (by omega)]

theorem storeAs_outside (m : Mem) {a i : ℕ} (v : β) (h : i < a ∨ a + Scalar.width β ≤ i) :
    m.storeAs a v i = m i :=
  m.store_outside (by rwa [Scalar.length_encode])

/-- Blocks that do not meet can be written in either order. -/
theorem store_comm (m : Mem) {a b : ℕ} {bs cs : List UInt8}
    (h : a + bs.length ≤ b ∨ b + cs.length ≤ a) :
    (m.store a bs).store b cs = (m.store b cs).store a bs := by
  funext i
  by_cases ha : a ≤ i ∧ i < a + bs.length
  · have hb : i < b ∨ b + cs.length ≤ i := by omega
    rw [store_outside _ hb]
    simp only [store, if_pos ha]
  · have ha' : i < a ∨ a + bs.length ≤ i := by omega
    rw [store_outside _ ha']
    simp only [store, if_neg ha]

theorem store_byte (m : Mem) (a : ℕ) (v : UInt8) : m.store a [v] a = v := by simp [store]

theorem storeAs_byte (m : Mem) (a : ℕ) (v : UInt8) : m.storeAs a v a = v := m.store_byte a v

theorem load_congr {m m' : Mem} {a n : ℕ} (h : ∀ i, a ≤ i → i < a + n → m i = m' i) :
    m.load a n = m'.load a n := by
  refine List.map_congr_left fun k hk => ?_
  have hk' := List.mem_range.mp hk
  exact h (a + k) (by omega) (by omega)

theorem loadAs_congr {m m' : Mem} {a : ℕ}
    (h : ∀ i, a ≤ i → i < a + Scalar.width β → m i = m' i) : m.loadAs β a = m'.loadAs β a := by
  unfold loadAs
  rw [load_congr h]

theorem load_store (m : Mem) (a : ℕ) (bs : List UInt8) :
    (m.store a bs).load a bs.length = bs := by
  refine List.ext_getElem (by simp) fun k h1 h2 => ?_
  simp [load, store, h2]

theorem load_store_disjoint (m : Mem) {a b n : ℕ} {bs : List UInt8}
    (h : b + n ≤ a ∨ a + bs.length ≤ b) : (m.store a bs).load b n = m.load b n :=
  load_congr fun _ _ _ => m.store_outside (by omega)

@[simp] theorem loadAs_storeAs (m : Mem) (a : ℕ) (v : β) : (m.storeAs a v).loadAs β a = v := by
  have h := m.load_store a (Scalar.encode v)
  rw [Scalar.length_encode] at h
  unfold loadAs storeAs
  rw [h, Scalar.decode_encode]

theorem loadAs_storeAs_disjoint (m : Mem) {a b : ℕ} (v : γ)
    (h : b + Scalar.width β ≤ a ∨ a + Scalar.width γ ≤ b) :
    (m.storeAs a v).loadAs β b = m.loadAs β b :=
  loadAs_congr fun _ _ _ => m.storeAs_outside v (by omega)

theorem loadAs_store_disjoint (m : Mem) {a b : ℕ} {bs : List UInt8}
    (h : b + Scalar.width β ≤ a ∨ a + bs.length ≤ b) :
    (m.store a bs).loadAs β b = m.loadAs β b :=
  loadAs_congr fun _ _ _ => m.store_outside (by omega)

theorem load_storeAs_disjoint (m : Mem) {a b n : ℕ} (v : γ)
    (h : b + n ≤ a ∨ a + Scalar.width γ ≤ b) : (m.storeAs a v).load b n = m.load b n :=
  load_congr fun _ _ _ => m.storeAs_outside v (by omega)

end Mem

end Yijinjing.Lib
