import Yijinjing.Lib.Mixing
import Yijinjing.Utils

/-!
# What `MurmurHash2` tells apart

Every step of `MurmurHash2` can be undone, so two runs that differ at one place only never meet again:
two seeds give two hashes of a key (`murmurHash2_injective_seed`), and so do two keys of one length that
differ inside one of the four-byte groups, or inside the up to three bytes behind them
(`murmurHash2_eq_iff`).
-/

namespace Yijinjing

open Lib Function

theorem murmurM_inverse : murmurM * 0xe59b19bd = 1 := by decide

theorem mul_murmurM_injective : Injective fun x : UInt32 => x * murmurM :=
  Lib.UInt32.mul_injective murmurM_inverse

theorem murmurMix_injective_left (k : UInt32) : Injective fun h => murmurMix h k := by
  intro h h' e
  exact mul_murmurM_injective ((UInt32.xor_left_inj _).mp e)

theorem murmurMix_injective_right (h : UInt32) : Injective fun k => murmurMix h k := by
  intro k k' e
  have hmul := mul_murmurM_injective ((UInt32.xor_right_inj (h * murmurM)).mp e)
  exact mul_murmurM_injective (Lib.UInt32.xorShift_injective (r := 24) (by decide) (by decide) hmul)

/-! ### The bytes of a group -/

section Bytes

variable {b0 b1 b2 b3 c0 c1 c2 c3 : UInt8}

theorem leValue_four_injective
    (h : UInt32.ofNat (leValue [b0, b1, b2, b3]) = UInt32.ofNat (leValue [c0, c1, c2, c3])) :
    b0 = c0 ∧ b1 = c1 ∧ b2 = c2 ∧ b3 = c3 := by
  have hb : leValue [b0, b1, b2, b3] < 2 ^ 32 := by simpa using leValue_lt [b0, b1, b2, b3]
  have hc : leValue [c0, c1, c2, c3] < 2 ^ 32 := by simpa using leValue_lt [c0, c1, c2, c3]
  have hnat := congrArg UInt32.toNat h
  rw [UInt32.toNat_ofNat_of_lt' hb, UInt32.toNat_ofNat_of_lt' hc] at hnat
  have hbytes : [b0, b1, b2, b3] = [c0, c1, c2, c3] := by
    rw [← leBytes_leValue [b0, b1, b2, b3], ← leBytes_leValue [c0, c1, c2, c3], hnat]
    rfl
  simpa using hbytes

/-- The bytes that are shifted and xored into a word can be read off its bits. -/
theorem tail_injective
    (h : b2.toUInt32 <<< 16 ^^^ b1.toUInt32 <<< 8 ^^^ b0.toUInt32 =
      c2.toUInt32 <<< 16 ^^^ c1.toUInt32 <<< 8 ^^^ c0.toUInt32) : b0 = c0 ∧ b1 = c1 ∧ b2 = c2 := by
  have hbit : ∀ i, (b2.toUInt32 <<< 16 ^^^ b1.toUInt32 <<< 8 ^^^ b0.toUInt32).toBitVec.getLsbD i =
      (c2.toUInt32 <<< 16 ^^^ c1.toUInt32 <<< 8 ^^^ c0.toUInt32).toBitVec.getLsbD i := fun i => by rw [h]
  refine ⟨?_, ?_, ?_⟩ <;> refine UInt8.toBitVec_inj.mp (BitVec.eq_of_getLsbD_eq fun i hi => ?_)
  · simpa [hi, show i < 16 by omega, show i < 32 by omega] using hbit i
  · simpa [hi, show i + 8 < 32 by omega, show i + 8 < 16 by omega, show ¬ i + 8 < 8 by omega] using hbit (i + 8)
  · simpa [hi, show i + 16 < 32 by omega, show ¬ i + 16 < 16 by omega, show ¬ i + 16 < 8 by omega] using hbit (i + 16)

end Bytes

/-! ### The loop and the last bytes -/

/-- Two keys of one length that agree outside of the bytes `4 * i` to `4 * i + 3`. -/
structure AgreeOutside (i : ℕ) (key key' : List UInt8) : Prop where
  length : key.length = key'.length
  agree : ∀ j, j / 4 ≠ i → key[j]? = key'[j]?

namespace AgreeOutside

variable {i : ℕ} {b0 b1 b2 b3 c0 c1 c2 c3 : UInt8} {key key' rest rest' : List UInt8}

/-- They have the same shape. -/
theorem exists_group (h : AgreeOutside i (b0 :: b1 :: b2 :: b3 :: rest) key') :
    ∃ c0 c1 c2 c3 rest', key' = c0 :: c1 :: c2 :: c3 :: rest' := by
  have hlen := h.length
  match key' with
  | c0 :: c1 :: c2 :: c3 :: rest' => exact ⟨c0, c1, c2, c3, rest', rfl⟩
  | [] | [_] | [_, _] | [_, _, _] => simp at hlen

theorem rest_eq (h : AgreeOutside 0 (b0 :: b1 :: b2 :: b3 :: rest) (c0 :: c1 :: c2 :: c3 :: rest')) :
    rest = rest' := by
  refine List.ext_getElem? fun j => ?_
  simpa using h.agree (j + 4) (by omega)

theorem group_eq (h : AgreeOutside (i + 1) (b0 :: b1 :: b2 :: b3 :: rest) (c0 :: c1 :: c2 :: c3 :: rest')) :
    b0 = c0 ∧ b1 = c1 ∧ b2 = c2 ∧ b3 = c3 := by
  have h0 := h.agree 0 (by omega)
  have h1 := h.agree 1 (by omega)
  have h2 := h.agree 2 (by omega)
  have h3 := h.agree 3 (by omega)
  simp only [List.getElem?_cons_zero, List.getElem?_cons_succ, Option.some.injEq] at h0 h1 h2 h3
  exact ⟨h0, h1, h2, h3⟩

theorem next (h : AgreeOutside (i + 1) (b0 :: b1 :: b2 :: b3 :: rest) (c0 :: c1 :: c2 :: c3 :: rest')) :
    AgreeOutside i rest rest' where
  length := by simpa using h.length
  agree j hj := by simpa using h.agree (j + 4) (by omega)

end AgreeOutside

/-- What the `switch` xors into the hash. -/
def tailWord : List UInt8 → UInt32
  | [b0, b1, b2] => b2.toUInt32 <<< 16 ^^^ b1.toUInt32 <<< 8 ^^^ b0.toUInt32
  | [b0, b1] => b1.toUInt32 <<< 8 ^^^ b0.toUInt32
  | [b0] => b0.toUInt32
  | _ => 0

theorem murmurBody_tail (h : UInt32) {key : List UInt8} (hne : key ≠ []) (hlt : key.length < 4) :
    murmurBody h key = (h ^^^ tailWord key) * murmurM := by
  match key with
  | [_] => rfl
  | [_, _] => simp only [murmurBody, tailWord, UInt32.xor_assoc]
  | [_, _, _] => simp only [murmurBody, tailWord, UInt32.xor_assoc]

theorem tailWord_injective {key key' : List UInt8} (hlen : key.length = key'.length)
    (hlt : key.length < 4) (e : tailWord key = tailWord key') : key = key' := by
  match key, key' with
  | [], [] => rfl
  | [b0], [c0] =>
    obtain ⟨h0, -, -⟩ := @tail_injective b0 0 0 c0 0 0 (by simpa [tailWord] using e)
    rw [h0]
  | [b0, b1], [c0, c1] =>
    obtain ⟨h0, h1, -⟩ := @tail_injective b0 b1 0 c0 c1 0 (by simpa [tailWord] using e)
    rw [h0, h1]
  | [b0, b1, b2], [c0, c1, c2] =>
    obtain ⟨h0, h1, h2⟩ := tail_injective e
    rw [h0, h1, h2]

/-! ### The hash -/

theorem murmurBody_injective_short {key : List UInt8} (hlt : key.length < 4) :
    Injective fun h => murmurBody h key := by
  intro h h' e
  by_cases hnil : key = []
  · subst hnil
    exact e
  · dsimp only at e
    rw [murmurBody_tail h hnil hlt, murmurBody_tail h' hnil hlt] at e
    exact (UInt32.xor_left_inj _).mp (mul_murmurM_injective e)

theorem murmurBody_injective : ∀ key, Injective fun h => murmurBody h key
  | _ :: _ :: _ :: _ :: rest => fun _ _ e => murmurMix_injective_left _ (murmurBody_injective rest e)
  | [_, _, _] => murmurBody_injective_short (by simp)
  | [_, _] => murmurBody_injective_short (by simp)
  | [_] => murmurBody_injective_short (by simp)
  | [] => murmurBody_injective_short (by simp)

theorem AgreeOutside.eq_of_short {key key' : List UInt8} {i : ℕ} {h : UInt32} (hagree : AgreeOutside i key key')
    (hlt : key.length < 4) (e : murmurBody h key = murmurBody h key') : key = key' := by
  have hlen := hagree.length
  by_cases hnil : key = []
  · rw [hnil] at hlen ⊢
    exact (List.length_eq_zero_iff.mp hlen.symm).symm
  · have hnil' : key' ≠ [] := by
      rintro rfl
      exact hnil (List.length_eq_zero_iff.mp hlen)
    rw [murmurBody_tail h hnil hlt, murmurBody_tail h hnil' (hlen ▸ hlt)] at e
    exact tailWord_injective hlen hlt ((UInt32.xor_right_inj h).mp (mul_murmurM_injective e))

/-- The group at which the keys differ comes out of the hash of the rest. -/
theorem AgreeOutside.eq_of_murmurBody_eq : ∀ {key key' : List UInt8} {i : ℕ} {h : UInt32},
    AgreeOutside i key key' → murmurBody h key = murmurBody h key' → key = key'
  | _ :: _ :: _ :: _ :: rest, key', 0, h, hagree, e => by
    obtain ⟨c0, c1, c2, c3, rest', rfl⟩ := hagree.exists_group
    obtain rfl := hagree.rest_eq
    have hmix := murmurBody_injective rest e
    obtain ⟨rfl, rfl, rfl, rfl⟩ := leValue_four_injective (murmurMix_injective_right h hmix)
    rfl
  | _ :: _ :: _ :: _ :: rest, key', i + 1, h, hagree, e => by
    obtain ⟨c0, c1, c2, c3, rest', rfl⟩ := hagree.exists_group
    obtain ⟨rfl, rfl, rfl, rfl⟩ := hagree.group_eq
    rw [AgreeOutside.eq_of_murmurBody_eq hagree.next e]
  | [_, _, _], key', _, h, hagree, e => hagree.eq_of_short (by simp) e
  | [_, _], key', _, h, hagree, e => hagree.eq_of_short (by simp) e
  | [_], key', _, h, hagree, e => hagree.eq_of_short (by simp) e
  | [], key', _, h, hagree, e => hagree.eq_of_short (by simp) e

/-- The last steps, on the hash alone. -/
theorem finish_injective :
    Injective fun h : UInt32 => (h ^^^ (h >>> 13)) * murmurM ^^^ (((h ^^^ (h >>> 13)) * murmurM) >>> 15) := by
  intro h h' e
  have hmul := Lib.UInt32.xorShift_injective (r := 15) (by decide) (by decide) e
  exact Lib.UInt32.xorShift_injective (r := 13) (by decide) (by decide) (mul_murmurM_injective hmul)

/-- **Two seeds give two hashes of every key.** -/
theorem murmurHash2_injective_seed (key : List UInt8) : Injective (murmurHash2 key) := by
  intro seed seed' e
  exact (UInt32.xor_left_inj _).mp (murmurBody_injective key (finish_injective e))

/-- **A change inside one group of four bytes always changes the hash.** -/
theorem AgreeOutside.murmurHash2_eq_iff {i : ℕ} {key key' : List UInt8} (h : AgreeOutside i key key')
    (seed : UInt32) : murmurHash2 key seed = murmurHash2 key' seed ↔ key = key' := by
  refine ⟨fun e => ?_, fun e => by rw [e]⟩
  unfold murmurHash2 at e
  have hbody := finish_injective e
  rw [h.length] at hbody
  exact h.eq_of_murmurBody_eq hbody

/-- **`MurmurHash2` separates seeds, and keys that differ inside one group.** -/
theorem murmurHash2_separates :
    (∀ key, Injective (murmurHash2 key)) ∧
      ∀ i key key' seed, AgreeOutside i key key' →
        (murmurHash2 key seed = murmurHash2 key' seed ↔ key = key') :=
  ⟨murmurHash2_injective_seed, fun _ _ _ seed h => h.murmurHash2_eq_iff seed⟩

/-- One letter of a path is another one, in the third of its groups; a tail follows. -/
theorem murmurHash2_separates_group : murmurHash2 "/tmp/yjj.1.test".toUTF8.toList hashSeed ≠
    murmurHash2 "/tmp/yjj.2.test".toUTF8.toList hashSeed := by
  have hlen : "/tmp/yjj.1.test".toUTF8.toList.length = 15 ∧ "/tmp/yjj.2.test".toUTF8.toList.length = 15 := by
    decide +kernel
  have hbytes : ∀ j < 15, j / 4 ≠ 2 →
      "/tmp/yjj.1.test".toUTF8.toList[j]? = "/tmp/yjj.2.test".toUTF8.toList[j]? := by decide +kernel
  have hagree : AgreeOutside 2 "/tmp/yjj.1.test".toUTF8.toList "/tmp/yjj.2.test".toUTF8.toList := by
    refine ⟨hlen.1.trans hlen.2.symm, fun j hj => ?_⟩
    rcases Nat.lt_or_ge j 15 with hlt | hge
    · exact hbytes j hlt hj
    · rw [List.getElem?_eq_none (hlen.1.trans_le hge), List.getElem?_eq_none (hlen.2.trans_le hge)]
  intro h
  exact absurd ((murmurHash2_separates.2 2 _ _ hashSeed hagree).mp h) (by decide +kernel)

end Yijinjing
