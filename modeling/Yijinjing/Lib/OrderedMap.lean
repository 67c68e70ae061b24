import Mathlib.Data.List.AList
import Mathlib.Data.List.Induction
import Mathlib.Order.Basic
import Mathlib.Order.Defs.Unbundled
import Mathlib.Order.Lattice
import Mathlib.Tactic.Common

/-!
# Maps ordered by a comparison

`OrderedMap κ ν lt` is a `std::map`: it has its entries in the order of `lt`, and compares keys by `lt` only,
so that two keys are the same to it if neither comes before the other (`Equivalent`).  `find_insert` and
`find_erase` say what is found after one operation, and `find_run` after any number of them.  A map whose
comparison tells two keys apart by a function of them is a table under that function (`Represents`).
-/

namespace Yijinjing.Lib

variable {κ ν : Type*} {lt : κ → κ → Prop}

/-! ### Equivalent keys -/

/-- Neither of the keys comes before the other. -/
def Equivalent (lt : κ → κ → Prop) (a b : κ) : Prop := ¬ lt a b ∧ ¬ lt b a

instance [DecidableRel lt] (a b : κ) : Decidable (Equivalent lt a b) := by
  unfold Equivalent
  infer_instance

section Order

variable {a b c : κ}

theorem Equivalent.symm (h : Equivalent lt a b) : Equivalent lt b a := ⟨h.2, h.1⟩

theorem not_equivalent_of_lt (h : lt a b) : ¬ Equivalent lt a b := fun he => he.1 h

theorem not_equivalent_of_gt (h : lt b a) : ¬ Equivalent lt a b := fun he => he.2 h

variable [IsStrictWeakOrder κ lt]

theorem Equivalent.trans (hab : Equivalent lt a b) (hbc : Equivalent lt b c) : Equivalent lt a c :=
  IsStrictWeakOrder.incomp_trans a b c hab hbc

theorem lt_of_lt_of_equivalent (h : lt a b) (hbc : Equivalent lt b c) : lt a c := by
  by_contra hac
  by_cases hca : lt c a
  · exact hbc.2 (trans_of lt hca h)
  · exact not_equivalent_of_lt h (Equivalent.trans ⟨hac, hca⟩ hbc.symm)

theorem lt_of_equivalent_of_lt (hab : Equivalent lt a b) (h : lt b c) : lt a c := by
  by_contra hac
  by_cases hca : lt c a
  · exact hab.2 (trans_of lt h hca)
  · exact not_equivalent_of_lt h (Equivalent.trans hab.symm ⟨hac, hca⟩)

end Order

instance isStrictWeakOrder_lt {κ : Type*} [LinearOrder κ] : IsStrictWeakOrder κ (· < ·) where
  irrefl := lt_irrefl
  trans _ _ _ := lt_trans
  incomp_trans a b c hab hbc := by
    simp only [not_lt] at hab hbc ⊢
    exact ⟨hbc.1.trans hab.1, hab.2.trans hbc.2⟩

theorem equivalent_lt_iff {κ : Type*} [LinearOrder κ] {a b : κ} : Equivalent (· < ·) a b ↔ a = b := by
  unfold Equivalent
  rw [not_lt, not_lt]
  exact ⟨fun h => le_antisymm h.2 h.1, fun h => ⟨h.ge, h.le⟩⟩

/-! ### The map -/

/-- The entries are in strictly ascending order. -/
structure OrderedMap (κ ν : Type*) (lt : κ → κ → Prop) where
  entries : List (κ × ν)
  sorted : entries.Pairwise fun x y => lt x.1 y.1

namespace OrderedMap

variable {es : List (κ × ν)} {k q : κ} {v : ν}

def empty : OrderedMap κ ν lt := ⟨[], .nil⟩

section Entries

variable (lt) [DecidableRel lt]

/-- The value of the key in these entries. -/
def findIn (k : κ) : List (κ × ν) → Option ν
  | [] => none
  | (k', v) :: es => if lt k' k then findIn k es else if lt k k' then none else some v

/-- An entry that is there keeps its key. -/
def insertIn (k : κ) (v : ν) : List (κ × ν) → List (κ × ν)
  | [] => [(k, v)]
  | (k', v') :: es =>
    if lt k' k then (k', v') :: insertIn k v es
    else if lt k k' then (k, v) :: (k', v') :: es
    else (k', v) :: es

def eraseIn (k : κ) : List (κ × ν) → List (κ × ν)
  | [] => []
  | (k', v') :: es =>
    if lt k' k then (k', v') :: eraseIn k es
    else if lt k k' then (k', v') :: es
    else es

end Entries

section Facts

variable [DecidableRel lt] [IsStrictWeakOrder κ lt]

omit [IsStrictWeakOrder κ lt] in
/-- What is put in front of the entries stays in front of them with the new one. -/
theorem forall_insertIn {a : κ} (hk : lt a k) (hes : ∀ x ∈ es, lt a x.1) : ∀ x ∈ insertIn lt k v es, lt a x.1 := by
  induction es with
  | nil =>
    intro x hx
    obtain rfl := List.mem_singleton.mp hx
    exact hk
  | cons e es ih =>
    obtain ⟨k', v'⟩ := e
    obtain ⟨hk', hes'⟩ := List.forall_mem_cons.mp hes
    rw [insertIn]
    split
    · exact List.forall_mem_cons.mpr ⟨hk', ih hes'⟩
    · split
      · exact List.forall_mem_cons.mpr ⟨hk, hes⟩
      · exact List.forall_mem_cons.mpr ⟨hk', hes'⟩

theorem insertIn_sorted (hs : es.Pairwise fun x y => lt x.1 y.1) :
    (insertIn lt k v es).Pairwise fun x y => lt x.1 y.1 := by
  induction es with
  | nil => exact List.pairwise_singleton _ _
  | cons e es ih =>
    obtain ⟨k', v'⟩ := e
    obtain ⟨hhead, htail⟩ := List.pairwise_cons.mp hs
    rw [insertIn]
    split
    · rename_i hlt
      exact List.pairwise_cons.mpr ⟨forall_insertIn hlt hhead, ih htail⟩
    · split
      · rename_i hlt
        refine List.pairwise_cons.mpr ⟨List.forall_mem_cons.mpr ⟨hlt, fun x hx => ?_⟩, hs⟩
        exact trans_of lt hlt (hhead x hx)
      · exact List.pairwise_cons.mpr ⟨hhead, htail⟩

omit [IsStrictWeakOrder κ lt] in
theorem eraseIn_sublist (k : κ) (es : List (κ × ν)) : (eraseIn lt k es).Sublist es := by
  induction es with
  | nil => exact .slnil
  | cons e es ih =>
    obtain ⟨k', v'⟩ := e
    rw [eraseIn]
    split
    · exact ih.cons_cons _
    · split
      · exact .refl _
      · exact List.sublist_cons_self _ _

theorem findIn_of_lt (h : ∀ x ∈ es, lt q x.1) : findIn lt q es = none := by
  cases es with
  | nil => rfl
  | cons e es =>
    obtain ⟨k', v'⟩ := e
    have hlt := (List.forall_mem_cons.mp h).1
    rw [findIn, if_neg (asymm_of lt hlt), if_pos hlt]

theorem findIn_insertIn : findIn lt q (insertIn lt k v es) = if Equivalent lt k q then some v else findIn lt q es := by
  induction es with
  | nil =>
    rw [insertIn, findIn, findIn]
    by_cases hkq : lt k q
    · rw [if_pos hkq, if_neg (not_equivalent_of_lt hkq), findIn]
    · by_cases hqk : lt q k
      · rw [if_neg hkq, if_pos hqk, if_neg (not_equivalent_of_gt hqk)]
      · rw [if_neg hkq, if_neg hqk, if_pos ⟨hkq, hqk⟩]
  | cons e es ih =>
    obtain ⟨k', v'⟩ := e
    rw [insertIn]
    by_cases hk'k : lt k' k
    · rw [if_pos hk'k, findIn, findIn, ih]
      by_cases hk'q : lt k' q
      · rw [if_pos hk'q, if_pos hk'q]
      · -- a key that is not behind `k'` is not `k`
        have hne : ¬ Equivalent lt k q := fun he => hk'q (lt_of_lt_of_equivalent hk'k he)
        rw [if_neg hk'q, if_neg hk'q, if_neg hne]
    · rw [if_neg hk'k]
      by_cases hkk' : lt k k'
      · rw [if_pos hkk', findIn]
        by_cases hkq : lt k q
        · rw [if_pos hkq, if_neg (not_equivalent_of_lt hkq)]
        · rw [if_neg hkq]
          by_cases hqk : lt q k
          · have hqk' : lt q k' := trans_of lt hqk hkk'
            rw [if_pos hqk, if_neg (not_equivalent_of_gt hqk), findIn, if_neg (asymm_of lt hqk'), if_pos hqk']
          · rw [if_neg hqk, if_pos ⟨hkq, hqk⟩]
      · have heq : Equivalent lt k' k := ⟨hk'k, hkk'⟩
        rw [if_neg hkk', findIn, findIn]
        by_cases hk'q : lt k' q
        · have hne : ¬ Equivalent lt k q := fun he => (heq.trans he).1 hk'q
          rw [if_pos hk'q, if_pos hk'q, if_neg hne]
        · rw [if_neg hk'q, if_neg hk'q]
          by_cases hqk' : lt q k'
          · have hne : ¬ Equivalent lt k q := fun he => (heq.trans he).2 hqk'
            rw [if_pos hqk', if_pos hqk', if_neg hne]
          · rw [if_neg hqk', if_pos (heq.symm.trans ⟨hk'q, hqk'⟩)]

theorem findIn_eraseIn (hs : es.Pairwise fun x y => lt x.1 y.1) :
    findIn lt q (eraseIn lt k es) = if Equivalent lt k q then none else findIn lt q es := by
  induction es with
  | nil =>
    rw [eraseIn, findIn]
    split <;> rfl
  | cons e es ih =>
    obtain ⟨k', v'⟩ := e
    obtain ⟨hhead, htail⟩ := List.pairwise_cons.mp hs
    rw [eraseIn]
    by_cases hk'k : lt k' k
    · rw [if_pos hk'k, findIn, findIn, ih htail]
      by_cases hk'q : lt k' q
      · rw [if_pos hk'q, if_pos hk'q]
      · have hne : ¬ Equivalent lt k q := fun he => hk'q (lt_of_lt_of_equivalent hk'k he)
        rw [if_neg hk'q, if_neg hk'q, if_neg hne]
    · rw [if_neg hk'k]
      by_cases hkk' : lt k k'
      · rw [if_pos hkk']
        by_cases he : Equivalent lt k q
        · -- the key would have to be in front of `k'`
          have hqk' : lt q k' := lt_of_equivalent_of_lt he.symm hkk'
          rw [if_pos he, findIn, if_neg (asymm_of lt hqk'), if_pos hqk']
        · rw [if_neg he]
      · have heq : Equivalent lt k' k := ⟨hk'k, hkk'⟩
        rw [if_neg hkk', findIn]
        by_cases hk'q : lt k' q
        · have hne : ¬ Equivalent lt k q := fun he => (heq.trans he).1 hk'q
          rw [if_pos hk'q, if_neg hne]
        · rw [if_neg hk'q]
          have hqes : ∀ x ∈ es, lt q x.1 := by
            intro x hx
            by_cases hqk' : lt q k'
            · exact trans_of lt hqk' (hhead x hx)
            · exact lt_of_equivalent_of_lt ⟨hqk', hk'q⟩ (hhead x hx)
          rw [findIn_of_lt hqes]
          by_cases hqk' : lt q k'
          · rw [if_pos hqk']
            split <;> rfl
          · rw [if_pos (heq.symm.trans ⟨hk'q, hqk'⟩)]

end Facts

/-! ### Operations -/

section Operations

variable [DecidableRel lt] [IsStrictWeakOrder κ lt] (m : OrderedMap κ ν lt)

/-- `m.find(k)`, and the value it is found with. -/
def find (k : κ) : Option ν := findIn lt k m.entries

/-- `m[k] = v` -/
def insert (k : κ) (v : ν) : OrderedMap κ ν lt := ⟨insertIn lt k v m.entries, insertIn_sorted m.sorted⟩

/-- `m.erase(m.find(k))` -/
def erase (k : κ) : OrderedMap κ ν lt := ⟨eraseIn lt k m.entries, m.sorted.sublist (eraseIn_sublist k m.entries)⟩

omit [IsStrictWeakOrder κ lt] in
@[simp] theorem find_empty (k : κ) : (empty : OrderedMap κ ν lt).find k = none := rfl

theorem find_insert (k q : κ) (v : ν) : (m.insert k v).find q = if Equivalent lt k q then some v else m.find q :=
  findIn_insertIn

theorem find_erase (k q : κ) : (m.erase k).find q = if Equivalent lt k q then none else m.find q :=
  findIn_eraseIn m.sorted

/-- One operation on a map. -/
inductive Op (κ ν : Type*) where
  | insert (k : κ) (v : ν)
  | erase (k : κ)

def Op.key : Op κ ν → κ
  | .insert k _ => k
  | .erase k => k

/-- What the operation leaves under its key. -/
def Op.value : Op κ ν → Option ν
  | .insert _ v => some v
  | .erase _ => none

def exec : Op κ ν → OrderedMap κ ν lt
  | .insert k v => m.insert k v
  | .erase k => m.erase k

/-- The map after the operations. -/
def run (ops : List (Op κ ν)) : OrderedMap κ ν lt := ops.foldl exec m

theorem find_exec (op : Op κ ν) (q : κ) :
    (m.exec op).find q = if Equivalent lt op.key q then op.value else m.find q := by
  cases op with
  | insert k v => exact m.find_insert k q v
  | erase k => exact m.find_erase k q

/-- The operations leave the value: the last one on such a key has inserted it. -/
def Leaves (lt : κ → κ → Prop) (ops : List (Op κ ν)) (q : κ) (v : ν) : Prop :=
  ∃ before k after, ops = before ++ .insert k v :: after ∧ Equivalent lt k q ∧
    ∀ op ∈ after, ¬ Equivalent lt op.key q

omit [DecidableRel lt] [IsStrictWeakOrder κ lt] in
theorem not_leaves_nil {q : κ} {v : ν} : ¬ Leaves lt [] q v := by
  rintro ⟨before, k, after, h, -⟩
  simp at h

omit [DecidableRel lt] [IsStrictWeakOrder κ lt] in
/-- The last operation is on such a key. -/
theorem leaves_concat_of_equivalent {ops : List (Op κ ν)} {op : Op κ ν} {q : κ} {v : ν}
    (he : Equivalent lt op.key q) : Leaves lt (ops ++ [op]) q v ↔ op.value = some v := by
  constructor
  · rintro ⟨before, k, after, heq, -, hafter⟩
    rcases List.eq_nil_or_concat' after with rfl | ⟨after, last, rfl⟩
    · obtain ⟨-, hop⟩ := List.append_inj' heq rfl
      obtain rfl := List.singleton_inj.mp hop
      rfl
    · rw [← List.cons_append, ← List.append_assoc] at heq
      obtain ⟨-, hop⟩ := List.append_inj' heq rfl
      obtain rfl := List.singleton_inj.mp hop
      exact absurd he (hafter op (List.mem_append_right _ List.mem_cons_self))
  · intro hv
    cases op with
    | insert k v' =>
      obtain rfl := Option.some.inj hv
      exact ⟨ops, k, [], rfl, he, fun _ h => nomatch h⟩
    | erase k => cases hv

omit [DecidableRel lt] [IsStrictWeakOrder κ lt] in
/-- The last operation is on another key. -/
theorem leaves_concat_of_not {ops : List (Op κ ν)} {op : Op κ ν} {q : κ} {v : ν}
    (he : ¬ Equivalent lt op.key q) : Leaves lt (ops ++ [op]) q v ↔ Leaves lt ops q v := by
  constructor
  · rintro ⟨before, k, after, heq, hk, hafter⟩
    rcases List.eq_nil_or_concat' after with rfl | ⟨after, last, rfl⟩
    · obtain ⟨-, hop⟩ := List.append_inj' heq rfl
      obtain rfl := List.singleton_inj.mp hop
      exact absurd hk he
    · rw [← List.cons_append, ← List.append_assoc] at heq
      obtain ⟨rfl, -⟩ := List.append_inj' heq rfl
      exact ⟨before, k, after, rfl, hk, fun op' hop => hafter op' (List.mem_append_left _ hop)⟩
  · rintro ⟨before, k, after, rfl, hk, hafter⟩
    refine ⟨before, k, after ++ [op], by simp, hk, fun op' hop => ?_⟩
    rcases List.mem_append.mp hop with hop | hop
    · exact hafter op' hop
    · exact List.mem_singleton.mp hop ▸ he

/-- **A key is found exactly if the last operation on such a key has inserted it.** -/
theorem find_run (ops : List (Op κ ν)) (q : κ) (v : ν) :
    ((empty : OrderedMap κ ν lt).run ops).find q = some v ↔ Leaves lt ops q v := by
  induction ops using List.reverseRecOn with
  | nil => exact iff_of_false (by simp [run]) not_leaves_nil
  | append_singleton ops op ih =>
    have hrun : (empty : OrderedMap κ ν lt).run (ops ++ [op]) = (empty.run ops).exec op := by
      simp [run]
    rw [hrun, find_exec]
    by_cases he : Equivalent lt op.key q
    · rw [if_pos he, leaves_concat_of_equivalent he]
    · rw [if_neg he, leaves_concat_of_not he, ih]

end Operations

/-! ### Tables -/

section Tables

variable [DecidableRel lt] [IsStrictWeakOrder κ lt] {ι : Type*} [DecidableEq ι] (key : κ → ι)
  {m : OrderedMap κ ν lt} {s : AList fun _ : ι => ν}

/-- The table has what is found in the map. -/
def Represents (m : OrderedMap κ ν lt) (s : AList fun _ : ι => ν) : Prop := ∀ k, m.find k = s.lookup (key k)

variable {key}

omit [IsStrictWeakOrder κ lt] in
theorem Represents.empty : Represents key (OrderedMap.empty : OrderedMap κ ν lt) (∅ : AList fun _ : ι => ν) :=
  fun _ => rfl

theorem Represents.insert (hr : Represents key m s) (hkey : ∀ a b, Equivalent lt a b ↔ key a = key b) (k : κ) (v : ν) :
    Represents key (m.insert k v) (s.insert (key k) v) := by
  intro q
  rw [find_insert, hr q]
  by_cases h : key k = key q
  · rw [if_pos ((hkey k q).mpr h), h, AList.lookup_insert]
  · rw [if_neg fun he => h ((hkey k q).mp he), AList.lookup_insert_ne (Ne.symm h)]

theorem Represents.erase (hr : Represents key m s) (hkey : ∀ a b, Equivalent lt a b ↔ key a = key b) (k : κ) :
    Represents key (m.erase k) (s.erase (key k)) := by
  intro q
  rw [find_erase, hr q]
  by_cases h : key k = key q
  · rw [if_pos ((hkey k q).mpr h), h, AList.lookup_erase]
  · rw [if_neg fun he => h ((hkey k q).mp he), AList.lookup_erase_ne (Ne.symm h)]

end Tables

end OrderedMap

end Yijinjing.Lib
