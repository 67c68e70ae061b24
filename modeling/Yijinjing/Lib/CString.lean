import Yijinjing.Lib.Bytes

/-!
# C strings in a memory

`m.At a bs` says that the bytes from address `a` on are `bs`.  A C string is stored with its terminator
and read up to the first zero (`cString`); `cString_eq_some_iff` says what a read gives in terms of `At`.
-/

namespace Yijinjing.Lib

namespace Mem

variable {m : Mem} {a b n : ℕ} {bs cs s s' : List UInt8}

/-! ### Blocks of bytes -/

/-- The bytes from `a` on are `bs`. -/
def At (m : Mem) (a : ℕ) (bs : List UInt8) : Prop := ∀ i (h : i < bs.length), m (a + i) = bs[i]

@[simp] theorem at_nil : m.At a [] := fun _ h => absurd h (Nat.not_lt_zero _)

theorem at_cons {v : UInt8} : m.At a (v :: bs) ↔ m a = v ∧ m.At (a + 1) bs := by
  constructor
  · intro h
    refine ⟨h 0 (Nat.succ_pos _), fun i hi => ?_⟩
    have hval := h (i + 1) (Nat.succ_lt_succ hi)
    rwa [← Nat.add_assoc, Nat.add_right_comm] at hval
  · rintro ⟨h0, h⟩ i hi
    cases i with
    | zero => exact h0
    | succ i =>
      have hval := h i (Nat.lt_of_succ_lt_succ hi)
      rwa [Nat.add_right_comm, Nat.add_assoc] at hval

theorem at_append : m.At a (bs ++ cs) ↔ m.At a bs ∧ m.At (a + bs.length) cs := by
  induction bs generalizing a with
  | nil => simp
  | cons v bs ih =>
    rw [List.cons_append, at_cons, ih, at_cons, List.length_cons, and_assoc, Nat.add_right_comm, Nat.add_assoc]

theorem at_singleton {v : UInt8} : m.At a [v] ↔ m a = v := by simp [at_cons]

theorem At.congr {m' : Mem} (h : m.At a bs) (heq : ∀ i, a ≤ i → i < a + bs.length → m i = m' i) :
    m'.At a bs := fun i hi => (heq (a + i) (by omega) (by omega)).symm.trans (h i hi)

theorem at_store (m : Mem) (a : ℕ) (bs : List UInt8) : (m.store a bs).At a bs := by
  intro i hi
  simp [store, hi]

theorem At.store (h : m.At a bs) (hout : a + bs.length ≤ b ∨ b + cs.length ≤ a) : (m.store b cs).At a bs :=
  h.congr fun i _ _ => (m.store_outside (by omega)).symm

theorem At.storeAs {β : Type} [Scalar β] (h : m.At a bs) (v : β)
    (hout : a + bs.length ≤ b ∨ b + Scalar.width β ≤ a) : (m.storeAs b v).At a bs :=
  At.store h (by rwa [Scalar.length_encode])

theorem At.load (h : m.At a bs) : m.load a bs.length = bs := by
  refine List.ext_getElem (by simp) fun i h1 h2 => ?_
  simp only [Mem.load, List.getElem_map, List.getElem_range]
  exact h i h2

theorem At.loadAs {β : Type} [Scalar β] {v : β} (h : m.At a (Scalar.encode v)) : m.loadAs β a = v := by
  have hload := h.load
  rw [Scalar.length_encode] at hload
  unfold Mem.loadAs
  rw [hload, Scalar.decode_encode]

/-- `memcpy` from another memory. -/
theorem copy_apply (m m' : Mem) {i : ℕ} (hi : i < n) : m'.store b (m.load a n) (b + i) = m (a + i) := by
  have hval := at_store m' b (m.load a n) i (by rwa [length_load])
  rw [hval]
  simp [Mem.load]

theorem At.copy {m' : Mem} {c : ℕ} (h : m.At (a + c) bs) (hle : c + bs.length ≤ n) :
    (m'.store b (m.load a n)).At (b + c) bs := by
  intro i hi
  rw [Nat.add_assoc, copy_apply m m' (by omega), ← Nat.add_assoc]
  exact h i hi

/-- A scalar is read in a copy as in the original. -/
theorem copy_loadAs {β : Type} [Scalar β] (m m' : Mem) {c : ℕ} (hle : c + Scalar.width β ≤ n) :
    (m'.store b (m.load a n)).loadAs β (b + c) = m.loadAs β (a + c) := by
  unfold Mem.loadAs
  refine congrArg _ (List.map_congr_left fun k hk => ?_)
  have hk := List.mem_range.mp hk
  rw [Nat.add_assoc, copy_apply m m' (by omega), Nat.add_assoc]

/-- A message that is copied from the front on reads as the original as far as it was copied. -/
theorem copy_prefix (m m' : Mem) {i : ℕ} (hi : i < n) : m'.store 0 (m.load 0 n) i = m i := by
  have h := copy_apply m m' (a := 0) (b := 0) hi
  rwa [Nat.zero_add] at h

theorem copy_prefix_loadAs {β : Type} [Scalar β] (m m' : Mem) (hle : a + Scalar.width β ≤ n) :
    (m'.store 0 (m.load 0 n)).loadAs β a = m.loadAs β a :=
  loadAs_congr fun _ _ hi => copy_prefix m m' (Nat.lt_of_lt_of_le hi hle)

theorem At.copy_prefix (h : m.At a bs) (m' : Mem) (hle : a + bs.length ≤ n) :
    (m'.store 0 (m.load 0 n)).At a bs :=
  h.congr fun _ _ hi => (Mem.copy_prefix m m' (Nat.lt_of_lt_of_le hi hle)).symm

/-! ### C strings -/

/-- `memcpy` of a C string with its terminator. -/
def storeCString (m : Mem) (a : ℕ) (s : List UInt8) : Mem := m.store a (s ++ [0])

/-- The C string at an address; `none` if there is no terminator among so many bytes. -/
def cString (m : Mem) : ℕ → ℕ → Option (List UInt8)
  | 0, _ => none
  | n + 1, a => if m a = 0 then some [] else (cString m n (a + 1)).map (m a :: ·)

theorem cString_eq_some_iff : m.cString n a = some s ↔ s.length < n ∧ 0 ∉ s ∧ m.At a (s ++ [0]) := by
  induction n generalizing a s with
  | zero => simp [cString]
  | succ n ih =>
    rw [cString]
    split
    · rename_i hzero
      constructor
      · intro h
        obtain rfl := Option.some.inj h
        exact ⟨Nat.succ_pos _, List.not_mem_nil, at_singleton.mpr hzero⟩
      · rintro ⟨-, hmem, hat⟩
        cases s with
        | nil => rfl
        | cons v s =>
          rw [List.cons_append, at_cons, hzero] at hat
          exact absurd (hat.1 ▸ List.mem_cons_self) hmem
    · rename_i hne
      rw [Option.map_eq_some_iff]
      constructor
      · rintro ⟨t, ht, rfl⟩
        obtain ⟨hlen, hmem, hat⟩ := ih.mp ht
        refine ⟨Nat.succ_lt_succ hlen, ?_, ?_⟩
        · rw [List.mem_cons, not_or]
          exact ⟨Ne.symm hne, hmem⟩
        · rw [List.cons_append, at_cons]
          exact ⟨rfl, hat⟩
      · rintro ⟨hlen, hmem, hat⟩
        cases s with
        | nil => exact absurd (at_singleton.mp hat) hne
        | cons v s =>
          rw [List.cons_append, at_cons] at hat
          obtain ⟨rfl, hat⟩ := hat
          rw [List.mem_cons, not_or] at hmem
          exact ⟨s, ih.mpr ⟨Nat.lt_of_succ_lt_succ hlen, hmem.2, hat⟩, rfl⟩

/-- There is only one C string at an address. -/
theorem at_cString_unique (hs : m.At a (s ++ [0])) (hs' : m.At a (s' ++ [0])) (h : 0 ∉ s) (h' : 0 ∉ s') :
    s = s' := by
  have hread : m.cString (s.length + s'.length + 1) a = some s := cString_eq_some_iff.mpr ⟨by omega, h, hs⟩
  have hread' : m.cString (s.length + s'.length + 1) a = some s' := cString_eq_some_iff.mpr ⟨by omega, h', hs'⟩
  exact Option.some.inj (hread.symm.trans hread')

end Mem

end Yijinjing.Lib
