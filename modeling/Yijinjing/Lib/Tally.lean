import Mathlib.Data.List.Nodup

/-!
# Counting the members of a list that have a property

What becomes of `l.countP p` when the property changes at one member of `l`, or at members that are not
in `l`.
-/

namespace Yijinjing.Lib

variable {α : Type*} {p q : α → Prop} [DecidablePred p] [DecidablePred q] {l : List α} {a : α}

theorem countP_congr_iff (h : ∀ x ∈ l, (p x ↔ q x)) :
    l.countP (fun x => decide (p x)) = l.countP (fun x => decide (q x)) :=
  List.countP_congr fun x hx => by simpa using h x hx

/-- The property changes at one member only. -/
theorem countP_point (hn : l.Nodup) (ha : a ∈ l) (h : ∀ x ∈ l, x ≠ a → (p x ↔ q x)) :
    l.countP (fun x => decide (q x)) + (if p a then 1 else 0) =
      l.countP (fun x => decide (p x)) + (if q a then 1 else 0) := by
  induction l with
  | nil => cases ha
  | cons b l ih =>
    obtain ⟨hb, hn'⟩ := List.nodup_cons.mp hn
    rw [List.countP_cons, List.countP_cons]
    by_cases hab : a = b
    · subst hab
      have hrest : l.countP (fun x => decide (p x)) = l.countP (fun x => decide (q x)) :=
        countP_congr_iff fun x hx => h x (List.mem_cons_of_mem a hx) fun hxa => hb (hxa ▸ hx)
      rw [hrest]
      simp only [decide_eq_true_eq]
      omega
    · have hmem : a ∈ l := (List.mem_cons.mp ha).resolve_left hab
      have hrec := ih hn' hmem fun x hx => h x (List.mem_cons_of_mem b hx)
      have hhead : p b ↔ q b := h b List.mem_cons_self (Ne.symm hab)
      simp only [decide_eq_true_eq, hhead]
      omega

theorem countP_pos_of_mem (ha : a ∈ l) (hp : p a) : 0 < l.countP fun x => decide (p x) :=
  List.countP_pos_iff.mpr ⟨a, ha, decide_eq_true hp⟩

/-- At most one member has the property exactly when any two that have it are one. -/
theorem countP_le_one_iff (hn : l.Nodup) : l.countP (fun x => decide (p x)) ≤ 1 ↔
    ∀ x ∈ l, ∀ y ∈ l, p x → p y → x = y := by
  induction l with
  | nil => simp
  | cons b l ih =>
    obtain ⟨hb, hn'⟩ := List.nodup_cons.mp hn
    rw [List.countP_cons]
    by_cases hpb : p b
    · have hzero : l.countP (fun x => decide (p x)) + 1 ≤ 1 ↔ ∀ x ∈ l, ¬ decide (p x) = true := by
        rw [← List.countP_eq_zero]
        omega
      rw [if_pos (decide_eq_true hpb), hzero]
      constructor
      · intro hnone x hx y hy hpx hpy
        have at_head : ∀ z ∈ b :: l, p z → z = b := fun z hz hpz =>
          (List.mem_cons.mp hz).resolve_right fun hz' => hnone z hz' (decide_eq_true hpz)
        rw [at_head x hx hpx, at_head y hy hpy]
      · intro hall x hx hpx
        have hxb := hall x (List.mem_cons_of_mem b hx) b List.mem_cons_self (of_decide_eq_true hpx) hpb
        exact hb (hxb ▸ hx)
    · rw [if_neg (by simpa using hpb), Nat.add_zero, ih hn']
      constructor
      · intro hall x hx y hy hpx hpy
        have in_tail : ∀ z ∈ b :: l, p z → z ∈ l := fun z hz hpz =>
          (List.mem_cons.mp hz).resolve_left fun hzb => hpb (hzb ▸ hpz)
        exact hall x (in_tail x hx hpx) y (in_tail y hy hpy) hpx hpy
      · intro hall x hx y hy
        exact hall x (List.mem_cons_of_mem b hx) y (List.mem_cons_of_mem b hy)

end Yijinjing.Lib
