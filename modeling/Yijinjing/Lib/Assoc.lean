import Mathlib.Data.List.AList

/-!
# Tables with list values

An `AList` whose values are, or hold, lists: `pooled f s` is everything in the lists of all its entries.
What an insertion or an erasure does to the pool is said up to the order of the entries.
-/

namespace Yijinjing.Lib

variable {κ α : Type*} {β : Type*} [DecidableEq κ] {s : AList fun _ : κ => β} {k : κ} {b b' : β}

/-- The lists of all entries of a table, one behind the other. -/
def pooled (f : β → List α) (s : AList fun _ : κ => β) : List α := s.entries.flatMap fun x => f x.2

variable {f : β → List α}

theorem mem_pooled {x : α} : x ∈ pooled f s ↔ ∃ k b, s.lookup k = some b ∧ x ∈ f b := by
  simp only [pooled, List.mem_flatMap]
  constructor
  · rintro ⟨⟨k, b⟩, hmem, hx⟩
    exact ⟨k, b, AList.mem_lookup_iff.mpr hmem, hx⟩
  · rintro ⟨k, b, hk, hx⟩
    exact ⟨⟨k, b⟩, AList.mem_lookup_iff.mp hk, hx⟩

omit [DecidableEq κ] in
@[simp] theorem pooled_empty : pooled f (∅ : AList fun _ : κ => β) = [] := rfl

/-- The entry of a key can be taken out. -/
theorem entries_perm (h : s.lookup k = some b) : s.entries.Perm (⟨k, b⟩ :: (s.erase k).entries) := by
  have hmem : k ∈ s.entries.keys := AList.lookup_isSome.mp (by rw [h]; rfl)
  obtain ⟨b', l₁, l₂, -, hl, he⟩ := List.exists_of_kerase hmem
  have hb' : s.lookup k = some b' := AList.mem_lookup_iff.mpr (by rw [hl]; simp)
  obtain rfl := Option.some.inj (h.symm.trans hb')
  have her : (s.erase k).entries = l₁ ++ l₂ := he
  rw [her, hl]
  exact List.perm_middle

theorem pooled_perm (h : s.lookup k = some b) : (pooled f s).Perm (f b ++ pooled f (s.erase k)) :=
  (entries_perm h).flatMap_right _

theorem pooled_insert (b : β) : pooled f (s.insert k b) = f b ++ pooled f (s.erase k) := by
  unfold pooled
  rw [AList.entries_insert]
  rfl

theorem erase_of_lookup_none (h : s.lookup k = none) : s.erase k = s :=
  AList.ext (List.kerase_of_notMem_keys (AList.lookup_eq_none.mp h))

end Yijinjing.Lib
