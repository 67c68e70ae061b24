import Mathlib.Logic.Function.Iterate
import Mathlib.Data.Finset.Card
import Mathlib.Tactic.Common

/-!
# Bounded `while` loops

`whileLoop c f n s` runs the body `f` while the condition `c` holds, for at most `n` turns; it is
`none` when the condition still holds after them.  A loop that ends after `k` turns gives the
`k`-th iterate of its body for every bound from `k` on (`whileLoop_eq`).

A loop over bounded numbers ends if and only if it comes to no number twice (`ends_iff_injective`).
A loop that only looks at such a number of its state ends with the loop over the numbers (`Follows`).
-/

namespace Yijinjing.Lib

variable {σ : Type*}

def whileLoop (c : σ → Bool) (f : σ → σ) : ℕ → σ → Option σ
  | 0, s => if c s then none else some s
  | n + 1, s => if c s then whileLoop c f n (f s) else some s

variable {c : σ → Bool} {f : σ → σ}

theorem whileLoop_of_false {s : σ} (h : c s = false) (n : ℕ) : whileLoop c f n s = some s := by
  cases n <;> simp [whileLoop, h]

theorem whileLoop_eq {k n : ℕ} {s : σ} (hrun : ∀ i < k, c (f^[i] s) = true)
    (hend : c (f^[k] s) = false) (hn : k ≤ n) : whileLoop c f n s = some (f^[k] s) := by
  induction k generalizing n s with
  | zero => exact whileLoop_of_false hend n
  | succ k ih =>
    obtain ⟨n, rfl⟩ : ∃ m, n = m + 1 := ⟨n - 1, by omega⟩
    have h0 : c s = true := hrun 0 (by omega)
    have ih' := ih (n := n) (s := f s) (fun i hi => hrun (i + 1) (by omega)) hend (by omega)
    rw [whileLoop, if_pos h0, ih']
    rfl

/-- What the body keeps as long as the condition holds is so at the end. -/
theorem whileLoop_invariant {P : σ → Prop} (hstep : ∀ s, P s → c s = true → P (f s)) {n : ℕ} {s t : σ}
    (hs : P s) (h : whileLoop c f n s = some t) : P t := by
  induction n generalizing s with
  | zero =>
    simp only [whileLoop] at h
    split at h
    · cases h
    · exact Option.some.inj h ▸ hs
  | succ n ih =>
    simp only [whileLoop] at h
    split at h
    · rename_i hc
      exact ih (hstep s hs hc) h
    · exact Option.some.inj h ▸ hs

/-! ### Whether a loop ends -/

/-- The loop makes its first `k` turns from `s`. -/
def Turns (c : σ → Bool) (f : σ → σ) (s : σ) (k : ℕ) : Prop := ∀ i < k, c (f^[i] s) = true

theorem turns_zero (s : σ) : Turns c f s 0 := fun _ h => absurd h (Nat.not_lt_zero _)

theorem turns_succ {s : σ} {k : ℕ} : Turns c f s (k + 1) ↔ Turns c f s k ∧ c (f^[k] s) = true := by
  unfold Turns
  rw [Nat.forall_lt_succ_right]

theorem Turns.le {s : σ} {i k : ℕ} (h : Turns c f s k) (hi : i ≤ k) : Turns c f s i :=
  fun j hj => h j (by omega)

/-- The loop ends, for some bound on its turns. -/
def Ends (c : σ → Bool) (f : σ → σ) (s : σ) : Prop := ∃ n, (whileLoop c f n s).isSome

/-- The loop makes all the turns of its bound, or it ends after fewer turns. -/
theorem turns_or_end (c : σ → Bool) (f : σ → σ) (s : σ) (n : ℕ) :
    Turns c f s n ∨ ∃ k < n, Turns c f s k ∧ c (f^[k] s) = false := by
  induction n with
  | zero => exact .inl (turns_zero s)
  | succ n ih =>
    rcases ih with hall | ⟨k, hk, hend⟩
    · by_cases hc : c (f^[n] s) = true
      · exact .inl (turns_succ.mpr ⟨hall, hc⟩)
      · exact .inr ⟨n, by omega, hall, by simpa using hc⟩
    · exact .inr ⟨k, by omega, hend⟩

theorem whileLoop_eq_none {s : σ} {n : ℕ} (h : Turns c f s (n + 1)) : whileLoop c f n s = none := by
  induction n generalizing s with
  | zero => exact if_pos (h 0 (by omega))
  | succ n ih =>
    have h0 : c s = true := h 0 (by omega)
    rw [whileLoop, if_pos h0]
    exact ih fun i hi => h (i + 1) (by omega)

theorem whileLoop_isSome_iff {s : σ} {n : ℕ} : (whileLoop c f n s).isSome ↔ ¬ Turns c f s (n + 1) := by
  constructor
  · intro hsome hall
    rw [whileLoop_eq_none hall] at hsome
    cases hsome
  · intro hnot
    rcases turns_or_end c f s (n + 1) with hall | ⟨k, hk, hrun, hend⟩
    · exact absurd hall hnot
    · rw [whileLoop_eq hrun hend (by omega)]
      rfl

theorem ends_iff {s : σ} : Ends c f s ↔ ∃ k, ¬ Turns c f s k := by
  constructor
  · rintro ⟨n, hn⟩
    exact ⟨n + 1, whileLoop_isSome_iff.mp hn⟩
  · rintro ⟨k, hk⟩
    exact ⟨k, whileLoop_isSome_iff.mpr fun hall => hk (hall.le (by omega))⟩

/-- The loop only looks at `m` of its state: the condition tests it, and the body moves it on by `g`. -/
structure Follows (c : σ → Bool) (f : σ → σ) {τ : Type*} (m : σ → τ) (d : τ → Bool) (g : τ → τ) : Prop where
  test : ∀ s, c s = d (m s)
  body : Function.Semiconj m f g

section Follows

variable {τ : Type*} {m : σ → τ} {d : τ → Bool} {g : τ → τ} (h : Follows c f m d g)

include h

theorem Follows.iterate (s : σ) (k : ℕ) : m (f^[k] s) = g^[k] (m s) := (h.body.iterate_right k) s

theorem Follows.turns {s : σ} {k : ℕ} : Turns c f s k ↔ Turns d g (m s) k := by
  unfold Turns
  simp only [h.test, h.iterate]

theorem Follows.ends {s : σ} : Ends c f s ↔ Ends d g (m s) := by simp only [ends_iff, h.turns]

end Follows

/-- A loop that comes back to a state of an earlier turn goes on for ever. -/
theorem turns_of_repeat {s : σ} {i j : ℕ} (hrun : Turns c f s j) (hij : i < j) (heq : f^[i] s = f^[j] s) (k : ℕ) :
    Turns c f s k := by
  induction k using Nat.strong_induction_on with
  | _ k ih =>
    intro l hl
    by_cases hlj : l < j
    · exact hrun l hlj
    · -- the turns from `j` on are those from `i` on
      have hback : f^[l] s = f^[i + (l - j)] s := by
        rw [show l = l - j + j by omega, Function.iterate_add_apply, ← heq, ← Function.iterate_add_apply]
        congr 1
        omega
      rw [hback]
      exact ih l hl (i + (l - j)) (by omega)

/-- A loop over numbers below `n` whose states are all different ends within `n` turns. -/
theorem not_turns_of_injective {d : ℕ → Bool} {g : ℕ → ℕ} {a n : ℕ} (hlt : ∀ k, Turns d g a k → g^[k] a < n)
    (hinj : ∀ i j, Turns d g a j → i < j → g^[i] a ≠ g^[j] a) : ¬ Turns d g a n := by
  intro hall
  -- the first `n + 1` states are numbers below `n`
  obtain ⟨i, hi, j, hj, hne, heq⟩ := Finset.exists_ne_map_eq_of_card_lt_of_maps_to
    (s := Finset.range (n + 1)) (t := Finset.range n) (f := fun k => g^[k] a) (by simp)
    fun k hk => by
      rw [Finset.coe_range, Set.mem_Iio] at hk
      simpa using hlt k (hall.le (by omega))
  rw [Finset.mem_range] at hi hj
  rcases Nat.lt_or_gt_of_ne hne with h | h
  · exact hinj i j (hall.le (by omega)) h heq
  · exact hinj j i (hall.le (by omega)) h heq.symm

theorem ends_iff_injective {d : ℕ → Bool} {g : ℕ → ℕ} {a n : ℕ} (hlt : ∀ k, Turns d g a k → g^[k] a < n) :
    Ends d g a ↔ ∀ i j, Turns d g a j → i < j → g^[i] a ≠ g^[j] a := by
  rw [ends_iff]
  constructor
  · rintro ⟨k, hk⟩ i j hrun hij heq
    exact hk (turns_of_repeat hrun hij heq k)
  · intro hinj
    exact ⟨n, not_turns_of_injective hlt hinj⟩

end Yijinjing.Lib
