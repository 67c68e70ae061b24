import Mathlib.Data.List.Sort
import Mathlib.Tactic.Common

/-!
# Merging lists by their heads

Some lists are emptied by taking the head of one of them again and again (`Interleaves`).  Whatever the
lists are, each of their entries is taken once and every list keeps its order (`Interleaves.perm`,
`Interleaves.sublist`).

They are merged if a least head is taken each time, on ties that of the first list (`FirstMin`, `Merges`).
If the lists are sorted, this is the stable sort of their entries, one list behind the other
(`Merges.eq_insertionSort`).
-/

namespace Yijinjing.Lib

variable {α : Type*} (r : α → α → Prop)

/-- The entries in some order in which they can be taken. -/
inductive Interleaves : List (List α) → List α → Prop
  | done {ls : List (List α)} : (∀ l ∈ ls, l = []) → Interleaves ls []
  | take {ls : List (List α)} {k : ℕ} {x : α} {xs out : List α} :
      ls[k]? = some (x :: xs) → Interleaves (ls.set k xs) out → Interleaves ls (x :: out)

/-- The list `k` is `x :: xs`, and `x` is least among the heads and below those of the lists before. -/
structure FirstMin (ls : List (List α)) (k : ℕ) (x : α) (xs : List α) : Prop where
  head : ls[k]? = some (x :: xs)
  least : ∀ (j : ℕ) y ys, ls[j]? = some (y :: ys) → r x y
  first : ∀ (j : ℕ) y ys, j < k → ls[j]? = some (y :: ys) → ¬ r y x

/-- The entries in the order in which they are taken. -/
inductive Merges : List (List α) → List α → Prop
  | done {ls : List (List α)} : (∀ l ∈ ls, l = []) → Merges ls []
  | take {ls : List (List α)} {k : ℕ} {x : α} {xs out : List α} :
      FirstMin r ls k x xs → Merges (ls.set k xs) out → Merges ls (x :: out)

variable {r} {ls : List (List α)} {k : ℕ} {x y : α} {xs ys out : List α}

/-! ### Lists entry by entry -/

/-- One entry is changed in both lists. -/
theorem forall₂_set {β γ : Type*} {R : β → γ → Prop} {bs : List β} {cs : List γ} (h : List.Forall₂ R bs cs)
    (k : ℕ) {b : β} {c : γ} (hk : k < bs.length → R b c) : List.Forall₂ R (bs.set k b) (cs.set k c) := by
  induction h generalizing k with
  | nil => exact .nil
  | cons hab htail ih =>
    cases k with
    | zero => exact .cons (hk (Nat.succ_pos _)) htail
    | succ k => exact .cons hab (ih k fun hlt => hk (Nat.succ_lt_succ hlt))

theorem forall₂_getElem? {β γ : Type*} {R : β → γ → Prop} {bs : List β} {cs : List γ}
    (h : List.Forall₂ R bs cs) {k : ℕ} {b : β} (hb : bs[k]? = some b) : ∃ c, cs[k]? = some c ∧ R b c := by
  induction h generalizing k with
  | nil => cases hb
  | cons hab htail ih =>
    cases k with
    | zero =>
      obtain rfl := Option.some.inj hb
      exact ⟨_, rfl, hab⟩
    | succ k => exact ih hb

theorem exists_forall₂ {β γ : Type*} {R : β → γ → Prop} {bs : List β} (h : ∀ b ∈ bs, ∃ c, R b c) :
    ∃ cs, List.Forall₂ R bs cs := by
  induction bs with
  | nil => exact ⟨[], .nil⟩
  | cons b bs ih =>
    obtain ⟨c, hc⟩ := h b List.mem_cons_self
    obtain ⟨cs, hcs⟩ := ih fun b' hb' => h b' (List.mem_cons_of_mem b hb')
    exact ⟨c :: cs, .cons hc hcs⟩

/-! ### One more list -/

theorem getElem?_append_singleton {l : List α} {j : ℕ} {ys : List α} (h : (ls ++ [l])[j]? = some ys) :
    ls[j]? = some ys ∨ j = ls.length ∧ l = ys := by
  rcases Nat.lt_trichotomy j ls.length with hlt | rfl | hgt
  · rw [List.getElem?_append_left hlt] at h
    exact .inl h
  · rw [List.getElem?_concat_length] at h
    exact .inr ⟨rfl, Option.some.inj h⟩
  · rw [List.getElem?_eq_none (by simp; omega)] at h
    cases h

theorem FirstMin.lt (h : FirstMin r ls k x xs) : k < ls.length := (List.getElem?_eq_some_iff.mp h.head).1

/-- A further list whose head, if it has one, is not below the least. -/
theorem FirstMin.keep {l : List α} (h : FirstMin r ls k x xs) (hl : ∀ y ys, l = y :: ys → r x y) :
    FirstMin r (ls ++ [l]) k x xs where
  head := by rw [List.getElem?_append_left h.lt, h.head]
  least j y ys hj := by
    rcases getElem?_append_singleton hj with hj | ⟨-, rfl⟩
    · exact h.least j y ys hj
    · exact hl y ys rfl
  first j y ys hlt hj := by
    rw [List.getElem?_append_left (Nat.lt_trans hlt h.lt)] at hj
    exact h.first j y ys hlt hj

/-- A further list whose head is below the least. -/
theorem FirstMin.replace [IsTrans α r] [Std.Total r] (h : FirstMin r ls k x xs) (hlt : ¬ r x y) :
    FirstMin r (ls ++ [y :: ys]) ls.length y ys where
  head := List.getElem?_concat_length
  least j z zs hj := by
    have hyx : r y x := (Std.Total.total x y).resolve_left hlt
    rcases getElem?_append_singleton hj with hj | ⟨-, he⟩
    · exact trans_of r hyx (h.least j z zs hj)
    · obtain rfl := (List.cons.inj he).1
      exact refl_of r _
  first j z zs hj hz hzy := by
    rw [List.getElem?_append_left hj] at hz
    exact hlt (trans_of r (h.least j z zs hz) hzy)

/-- The first list that has a head. -/
theorem FirstMin.new [Std.Total r] (h : ∀ l ∈ ls, l = []) : FirstMin r (ls ++ [y :: ys]) ls.length y ys where
  head := List.getElem?_concat_length
  least j z zs hj := by
    rcases getElem?_append_singleton hj with hj | ⟨-, he⟩
    · cases h _ (List.mem_of_getElem? hj)
    · obtain rfl := (List.cons.inj he).1
      exact refl_of r _
  first j z zs hj hz := by
    rw [List.getElem?_append_left hj] at hz
    cases h _ (List.mem_of_getElem? hz)

/-! ### What is merged -/

/-- The entry that is taken and the others. -/
theorem flatten_perm_of_getElem? (h : ls[k]? = some (x :: xs)) : ls.flatten.Perm (x :: (ls.set k xs).flatten) := by
  obtain ⟨hk, hget⟩ := List.getElem?_eq_some_iff.mp h
  have hsplit : ls = ls.take k ++ (x :: xs) :: ls.drop (k + 1) := by
    rw [← hget, ← List.drop_eq_getElem_cons hk, List.take_append_drop]
  have hset : ls.set k xs = ls.take k ++ xs :: ls.drop (k + 1) := List.set_eq_take_cons_drop xs hk
  rw [hset]
  conv_lhs => rw [hsplit]
  simp only [List.flatten_append, List.flatten_cons, List.cons_append]
  exact List.perm_middle

/-- **Each entry is taken once.** -/
theorem Interleaves.perm (h : Interleaves ls out) : out.Perm ls.flatten := by
  induction h with
  | done hnil => rw [List.flatten_eq_nil_iff.mpr hnil]
  | take hk _ ih => exact (ih.cons _).trans (flatten_perm_of_getElem? hk).symm

/-- **Each list keeps its order.** -/
theorem Interleaves.sublist (h : Interleaves ls out) {l : List α} (hl : l ∈ ls) : l.Sublist out := by
  induction h generalizing l with
  | done hnil => rw [hnil l hl]
  | @take ls k x xs out hk _ ih =>
    obtain ⟨j, hj, rfl⟩ := List.getElem_of_mem hl
    by_cases hjk : k = j
    · subst hjk
      rw [(List.getElem?_eq_some_iff.mp hk).2]
      exact (ih (List.mem_set hj xs)).cons_cons x
    · have hset : (ls.set k xs)[j]? = some ls[j] := by
        rw [List.getElem?_set_ne hjk, List.getElem?_eq_getElem hj]
      exact (ih (List.mem_of_getElem? hset)).cons x

/-! ### Sorted lists -/

variable [DecidableRel r]

/-- A least entry that is below all of `ys` stays in front when they are inserted. -/
theorem insertionSort_append_cons {ls ls' : List α} (hys : ∀ y ∈ ys, ¬ r y x)
    (h : ls.insertionSort r = x :: ls'.insertionSort r) :
    (ys ++ ls).insertionSort r = x :: (ys ++ ls').insertionSort r := by
  induction ys with
  | nil => exact h
  | cons y ys ih =>
    rw [List.cons_append, List.cons_append, List.insertionSort_cons, List.insertionSort_cons,
      ih fun z hz => hys z (List.mem_cons_of_mem y hz)]
    exact List.orderedInsert_of_not_le r _ (hys y List.mem_cons_self)

variable [IsTrans α r]

/-- The head that is taken is the first entry of the stable sort. -/
theorem FirstMin.insertionSort (h : FirstMin r ls k x xs) (hls : ∀ l ∈ ls, l.Pairwise r) :
    ls.flatten.insertionSort r = x :: (ls.set k xs).flatten.insertionSort r := by
  induction ls generalizing k with
  | nil => cases h.head
  | cons l ls ih =>
    have hl := hls l List.mem_cons_self
    have hls' : ∀ l' ∈ ls, l'.Pairwise r := fun l' hl' => hls l' (List.mem_cons_of_mem l hl')
    cases k with
    | zero =>
      obtain rfl : l = x :: xs := Option.some.inj h.head
      rw [List.flatten_cons, List.cons_append]
      refine List.insertionSort_cons_of_forall_rel r fun y hy => ?_
      rcases List.mem_append.mp hy with hy | hy
      · exact List.rel_of_pairwise_cons hl hy
      · obtain ⟨l', hl', hy⟩ := List.mem_flatten.mp hy
        obtain ⟨j, hj⟩ := List.getElem?_of_mem hl'
        cases l' with
        | nil => cases hy
        | cons z zs =>
          have hxz : r x z := h.least (j + 1) z zs hj
          rcases List.mem_cons.mp hy with rfl | hy
          · exact hxz
          · exact trans_of r hxz (List.rel_of_pairwise_cons (hls' _ hl') hy)
    | succ k =>
      have hmin : FirstMin r ls k x xs :=
        ⟨h.head, fun j => h.least (j + 1), fun j y ys hj => h.first (j + 1) y ys (Nat.succ_lt_succ hj)⟩
      refine insertionSort_append_cons (fun y hy hyx => ?_) (ih hmin hls')
      cases l with
      | nil => cases hy
      | cons z zs =>
        -- the head of an earlier list is above `x`, and so is everything behind it
        refine h.first 0 z zs (Nat.succ_pos k) rfl ?_
        rcases List.mem_cons.mp hy with rfl | hy
        · exact hyx
        · exact trans_of r (List.rel_of_pairwise_cons hl hy) hyx

/-- **Sorted lists are merged to the stable sort of their entries.** -/
theorem Merges.eq_insertionSort (h : Merges r ls out) (hls : ∀ l ∈ ls, l.Pairwise r) :
    out = ls.flatten.insertionSort r := by
  induction h with
  | done hnil =>
    rw [List.flatten_eq_nil_iff.mpr hnil]
    rfl
  | take hmin _ ih =>
    rw [hmin.insertionSort hls, ih]
    intro l hl
    rcases List.mem_or_eq_of_mem_set hl with hl | rfl
    · exact hls l hl
    · exact (hls _ (List.mem_of_getElem? hmin.head)).of_cons

end Yijinjing.Lib
