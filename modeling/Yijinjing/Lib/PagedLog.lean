import Mathlib.Data.List.Infix
import Mathlib.Logic.Relation
import Mathlib.Tactic.Common

/-!
# Logs kept in pages

A log of entries in a row of pages, of which only the last one grows.  A reader's place is a page and
a number of entries passed there; `taken` is what it has passed and `left` what is still ahead.
Growth of the log (`Grows`, labelled with the entries that came in; `Grown` for any number of steps)
leaves `taken` alone and appends to `left`.
-/

namespace Yijinjing.Lib

variable {α : Type*}

/-- One step of growth: nothing, an entry on the last page, or a new empty page. -/
inductive Grows : List (List α) → List α → List (List α) → Prop
  | same (ps : List (List α)) : Grows ps [] ps
  | push (ps : List (List α)) (p : List α) (x : α) : Grows (ps ++ [p]) [x] (ps ++ [p ++ [x]])
  | page (ps : List (List α)) : Grows ps [] (ps ++ [[]])

theorem Grows.flatten {ps qs : List (List α)} {xs : List α} (h : Grows ps xs qs) :
    qs.flatten = ps.flatten ++ xs := by
  cases h <;> simp

/-- The entries before the place `(i, j)`. -/
def taken (ps : List (List α)) (i j : ℕ) : List α := (ps.take i).flatten ++ (ps.getD i []).take j

/-- The entries from the place `(i, j)` on. -/
def left (ps : List (List α)) (i j : ℕ) : List α :=
  (ps.getD i []).drop j ++ (ps.drop (i + 1)).flatten

/-- A place inside the log. -/
def InLog (ps : List (List α)) (i j : ℕ) : Prop := i < ps.length ∧ j ≤ (ps.getD i []).length

variable {ps qs : List (List α)} {xs : List α} {i j : ℕ}

theorem taken_append_left (j : ℕ) (hi : i < ps.length) : taken ps i j ++ left ps i j = ps.flatten := by
  have hd : ps.drop i = ps[i] :: ps.drop (i + 1) := List.drop_eq_getElem_cons hi
  have hg : ps.getD i [] = ps[i] := by simp [List.getD, hi]
  conv_rhs => rw [← List.take_append_drop i ps, List.flatten_append, hd, List.flatten_cons]
  unfold taken left
  rw [hg, List.append_assoc, ← List.append_assoc (ps[i].take j), List.take_append_drop]

@[simp] theorem taken_zero : taken ps 0 0 = [] := by simp [taken]

theorem taken_succ (hj : j < (ps.getD i []).length) :
    taken ps i (j + 1) = taken ps i j ++ [(ps.getD i [])[j]] := by
  unfold taken
  rw [List.take_succ_eq_append_getElem hj, List.append_assoc]

/-- At the end of a page the place is the start of the next one. -/
theorem taken_next_page (hi : i < ps.length) (hj : j = (ps.getD i []).length) :
    taken ps i j = taken ps (i + 1) 0 := by
  have hg : ps.getD i [] = ps[i] := by simp [List.getD, hi]
  unfold taken
  rw [hj, List.take_length, hg, List.take_succ_eq_append_getElem hi, List.flatten_append]
  simp

/-- At the end of the last page everything is taken. -/
theorem taken_end (hi : i + 1 = ps.length) (hj : j = (ps.getD i []).length) :
    taken ps i j = ps.flatten := by
  rw [taken_next_page (by omega) hj, hi]
  simp [taken]

theorem getD_append_of_lt (hi : i < ps.length) : (ps ++ qs).getD i [] = ps.getD i [] := by
  simp [List.getD, List.getElem?_append_left hi]

theorem Grows.length_le (h : Grows ps xs qs) : ps.length ≤ qs.length := by
  cases h <;> simp

/-- A page that is not the last one stays as it is. -/
theorem Grows.getD_of_lt (h : Grows ps xs qs) (hi : i + 1 < ps.length) :
    qs.getD i [] = ps.getD i [] := by
  cases h with
  | same => rfl
  | push ps p x =>
    have hi' : i < ps.length := by simp at hi; omega
    rw [getD_append_of_lt hi', getD_append_of_lt hi']
  | page => exact getD_append_of_lt (by omega)

/-- Growth only adds entries at the end of a page. -/
theorem Grows.row_prefix (h : Grows ps xs qs) (hi : i < ps.length) : ps.getD i [] <+: qs.getD i [] := by
  cases h with
  | same => exact List.prefix_refl _
  | push ps p x =>
    rcases Nat.lt_or_ge i ps.length with hlt | hge
    · rw [getD_append_of_lt hlt, getD_append_of_lt hlt]
    · obtain rfl : i = ps.length := by simp at hi; omega
      simp only [List.getD, List.getElem?_concat_length, Option.getD_some]
      exact List.prefix_append p [x]
  | page => rw [getD_append_of_lt hi]

/-- Growth leaves the entries before a place of its page alone. -/
theorem Grows.take_eq (h : Grows ps xs qs) (hp : InLog ps i j) :
    (qs.getD i []).take j = (ps.getD i []).take j := by
  obtain ⟨ys, hys⟩ := h.row_prefix hp.1
  rw [← hys, List.take_append_of_le_length hp.2]

theorem Grows.inLog (h : Grows ps xs qs) (hp : InLog ps i j) : InLog qs i j :=
  ⟨Nat.lt_of_lt_of_le hp.1 h.length_le, Nat.le_trans hp.2 (h.row_prefix hp.1).length_le⟩

/-- Growth leaves what a reader has taken alone. -/
theorem Grows.taken_eq (h : Grows ps xs qs) (hp : InLog ps i j) : taken qs i j = taken ps i j := by
  unfold taken
  rw [h.take_eq hp]
  have hi := hp.1
  cases h with
  | same => rfl
  | push ps p x =>
    have hi' : i ≤ ps.length := by simp at hi; omega
    rw [List.take_append_of_le_length hi', List.take_append_of_le_length hi']
  | page => rw [List.take_append_of_le_length (by omega)]

/-! ### What is ahead -/

theorem left_cons (hj : j < (ps.getD i []).length) :
    left ps i j = (ps.getD i [])[j] :: left ps i (j + 1) := by
  unfold left
  rw [List.drop_eq_getElem_cons hj, List.cons_append]

theorem left_next_page (hi : i + 1 < ps.length) (hj : j = (ps.getD i []).length) :
    left ps i j = left ps (i + 1) 0 := by
  have hd : ps.drop (i + 1) = ps[i + 1] :: ps.drop (i + 1 + 1) := List.drop_eq_getElem_cons hi
  have hg : ps.getD (i + 1) [] = ps[i + 1] := by simp [List.getD, hi]
  unfold left
  rw [hj, List.drop_length, hd, hg, List.flatten_cons, List.drop_zero, List.nil_append]

theorem left_end (hi : i + 1 = ps.length) (hj : j = (ps.getD i []).length) : left ps i j = [] := by
  unfold left
  rw [hj, List.drop_length, hi, List.drop_length]
  rfl

theorem left_zero (hi : 0 < ps.length) : left ps 0 0 = ps.flatten := by
  rw [← taken_append_left 0 hi, taken_zero]
  rfl

/-- The entry that a reader passes moves from what is ahead to what is taken. -/
theorem taken_of_left_tail {i' j' : ℕ} (hp : InLog ps i j) (hp' : InLog ps i' j')
    (h : left ps i' j' = (left ps i j).tail) :
    taken ps i' j' = taken ps i j ++ (left ps i j).head?.toList := by
  have h1 := taken_append_left j hp.1
  have h2 := taken_append_left j' hp'.1
  rw [h] at h2
  cases hrest : left ps i j with
  | nil =>
    rw [hrest] at h1 h2
    simpa using h2.trans h1.symm
  | cons x xs =>
    rw [hrest] at h1 h2
    refine List.append_cancel_right (h2.trans (h1.symm.trans ?_))
    simp

/-- What came in is the end of what is ahead. -/
theorem Grows.left_eq (h : Grows ps xs qs) (hp : InLog ps i j) : left qs i j = left ps i j ++ xs := by
  have h1 := taken_append_left j hp.1
  have h2 := taken_append_left j (h.inLog hp).1
  rw [h.taken_eq hp, h.flatten, ← h1, List.append_assoc] at h2
  exact List.append_cancel_left h2

/-! ### Any number of steps -/

/-- The log `qs` comes from `ps` by growth. -/
def Grown : List (List α) → List (List α) → Prop := Relation.ReflTransGen fun ps qs => ∃ xs, Grows ps xs qs

theorem Grows.grown (h : Grows ps xs qs) : Grown ps qs := .single ⟨xs, h⟩

theorem Grown.flatten_prefix (h : Grown ps qs) : ps.flatten <+: qs.flatten := by
  induction h with
  | refl => exact List.prefix_refl _
  | tail _ hg ih =>
    obtain ⟨xs, hg⟩ := hg
    rw [hg.flatten]
    exact ih.trans (List.prefix_append _ xs)

theorem Grown.inLog (h : Grown ps qs) (hp : InLog ps i j) : InLog qs i j := by
  induction h with
  | refl => exact hp
  | tail _ hg ih =>
    obtain ⟨xs, hg⟩ := hg
    exact hg.inLog ih

theorem Grown.take_eq (h : Grown ps qs) (hp : InLog ps i j) :
    (qs.getD i []).take j = (ps.getD i []).take j := by
  induction h with
  | refl => rfl
  | tail hgs hg ih =>
    obtain ⟨xs, hg⟩ := hg
    exact (hg.take_eq (Grown.inLog hgs hp)).trans ih

theorem Grown.taken_eq (h : Grown ps qs) (hp : InLog ps i j) : taken qs i j = taken ps i j := by
  induction h with
  | refl => rfl
  | tail hgs hg ih =>
    obtain ⟨xs, hg⟩ := hg
    exact (hg.taken_eq (Grown.inLog hgs hp)).trans ih

/-- An entry that has been passed was the next one, and the others are still ahead. -/
theorem Grown.left_eq {i' j' : ℕ} (h : Grown ps qs) (hp : InLog ps i j) (hp' : InLog ps i' j')
    (htail : left ps i' j' = (left ps i j).tail) :
    left qs i j = (left ps i j).head?.toList ++ left qs i' j' := by
  have h1 := taken_append_left j (h.inLog hp).1
  have h2 := taken_append_left j' (h.inLog hp').1
  rw [h.taken_eq hp] at h1
  rw [h.taken_eq hp', taken_of_left_tail hp hp' htail, List.append_assoc] at h2
  exact List.append_cancel_left (h1.trans h2.symm)

end Yijinjing.Lib
