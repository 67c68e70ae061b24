import Yijinjing.Journal.Page

/-!
# Where the stores into a frame go

Every store of a `Frame` method writes one block of bytes at one address (`FrameStore.exec_eq`).  The
fields of a frame lie apart, so that their stores can be made in any order.
-/

namespace Yijinjing

open Lib

/-! ### The block of a store -/

namespace FrameStore

/-- The address that the store writes to, of the frame at `a`. -/
def address (b : Mem) (a : ℕ) : FrameStore → ℕ
  | .msgType _ => a + 17
  | .lastFlag _ => a + 19
  | .data _ => a + basicFrameHeaderLength
  | .frameLength _ => a + 9
  | .hashCode _ => a + 13
  | .nano _ => a + 1
  | .nextStatus _ => Frame.getNextEntry b a
  | .status _ => a

/-- The bytes that it writes. -/
def bytes : FrameStore → List UInt8
  | .msgType v => Scalar.encode v
  | .lastFlag v => Scalar.encode v
  | .data bs => bs
  | .frameLength v => Scalar.encode v
  | .hashCode v => Scalar.encode v
  | .nano v => Scalar.encode v
  | .nextStatus v => Scalar.encode v
  | .status v => Scalar.encode v

theorem exec_eq (a : ℕ) (b : Mem) (s : FrameStore) : s.exec a b = b.store (s.address b a) s.bytes := by
  cases s <;> rfl

end FrameStore

/-! ### The order of the stores -/

/-- Either order of the two stores leaves the same bytes. -/
def FrameStore.Commutes (s t : FrameStore) : Prop :=
  ∀ a b, t.exec a (s.exec a b) = s.exec a (t.exec a b)

theorem FrameStore.Commutes.refl (s : FrameStore) : s.Commutes s := fun _ _ => rfl

theorem FrameStore.Commutes.symm {s t : FrameStore} (h : s.Commutes t) : t.Commutes s :=
  fun a b => (h a b).symm

/-- Where a field lies in its frame; the statuses are no fields. -/
def FrameStore.offset : FrameStore → Option ℕ
  | .msgType _ => some 17
  | .lastFlag _ => some 19
  | .data _ => some basicFrameHeaderLength
  | .frameLength _ => some 9
  | .hashCode _ => some 13
  | .nano _ => some 1
  | .nextStatus _ => none
  | .status _ => none

theorem FrameStore.address_of_offset {s : FrameStore} {i : ℕ} (h : s.offset = some i) (b : Mem) (a : ℕ) :
    s.address b a = a + i := by
  cases s <;> cases h <;> rfl

/-- Two different fields do not meet. -/
theorem FrameStore.apart {s t : FrameStore} {i j : ℕ} (hs : s.offset = some i) (ht : t.offset = some j)
    (hij : i ≠ j) : i + s.bytes.length ≤ j ∨ j + t.bytes.length ≤ i := by
  cases s <;> cases t <;> cases hs <;> cases ht <;> simp [bytes, basicFrameHeaderLength] at hij ⊢

theorem FrameStore.commutes_of_ne {s t : FrameStore} {i j : ℕ} (hs : s.offset = some i)
    (ht : t.offset = some j) (hij : i ≠ j) : s.Commutes t := by
  intro a b
  have hapart := FrameStore.apart hs ht hij
  simp only [exec_eq, address_of_offset hs, address_of_offset ht]
  exact b.store_comm (by omega)

/-- Stores into different fields can be made in any order. -/
theorem foldl_exec_perm {ss ts : List FrameStore} (hperm : ss.Perm ts)
    (hfields : ∀ s ∈ ss, s.offset.isSome) (hnodup : (ss.map FrameStore.offset).Nodup) (a : ℕ) (b : Mem) :
    ss.foldl (FrameStore.exec a) b = ts.foldl (FrameStore.exec a) b := by
  refine hperm.foldl_eq' (fun s hs t ht c => ?_) b
  by_cases hst : s = t
  · rw [hst]
  · obtain ⟨i, hi⟩ := Option.isSome_iff_exists.mp (hfields s hs)
    obtain ⟨j, hj⟩ := Option.isSome_iff_exists.mp (hfields t ht)
    have hij : i ≠ j := fun h =>
      hst (List.inj_on_of_nodup_map hnodup hs ht (by rw [hi, hj, h]))
    exact (FrameStore.commutes_of_ne hi hj hij a c)

end Yijinjing
