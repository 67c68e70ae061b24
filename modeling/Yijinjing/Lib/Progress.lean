import Yijinjing.Lib.Transition

/-!
# Progress by a rank

Some actions of a system are ticks, the steps of one of its threads.  A rank that every tick lowers as
long as the state is one to get out of, and that no other action raises, bounds the number of ticks until
the system is out of it (`leaves`).  What the other actions are, and how many, does not matter.  A latch, which
steps of one kind set and none resets, says whether there has been such a step (`run_latch`).
-/

namespace Yijinjing.Lib.System

variable {σ α : Type*} {M : System σ α} {I W : σ → Prop} {tick : α → Bool} {rank : σ → ℕ}

variable (tick rank) in
/-- **A run with more ticks than the rank of its start leaves `W`**, and with no more ticks than that
before it does. -/
theorem leaves (hI : ∀ s a t, I s → M.step s a = some t → I t)
    (hrank : ∀ s a t, I s → W s → M.step s a = some t → W t → rank t + (tick a).toNat ≤ rank s) {s u : σ}
    {as : List α} (hs : I s) (hW : W s) (hr : M.run s as = some u) (hlt : rank s < as.countP tick) :
    ∃ bs a cs t t', as = bs ++ a :: cs ∧ M.run s bs = some t ∧ M.Always W s bs ∧ bs.countP tick ≤ rank s ∧
      M.step t a = some t' ∧ I t ∧ ¬ W t' := by
  induction as generalizing s with
  | nil => simp at hlt
  | cons a as ih =>
    obtain ⟨t, ht, hrun⟩ := run_cons_some hr
    by_cases hWt : W t
    · have hle := hrank s a t hs hW ht hWt
      have hcount : (a :: as).countP tick = as.countP tick + (tick a).toNat := by
        rw [List.countP_cons]
        cases tick a <;> rfl
      obtain ⟨bs, b, cs, v, v', rfl, hbs, hall, hbound, hstep⟩ := ih (hI s a t hs ht) hWt hrun (by omega)
      refine ⟨a :: bs, b, cs, v, v', rfl, by rw [run_cons_of_step M ht, hbs], ⟨hW, fun t' ht' => ?_⟩, ?_, hstep⟩
      · obtain rfl := Option.some.inj (ht.symm.trans ht')
        exact hall
      · have hbs' : (a :: bs).countP tick = bs.countP tick + (tick a).toNat := by
          rw [List.countP_cons]
          cases tick a <;> rfl
        omega
    · exact ⟨[], a, as, s, t, rfl, rfl, hW, by simp, ht, hs, hWt⟩

/-- **A run has no more ticks than the rank of its start**, when every tick lowers it. -/
theorem ticks_le (hstep : ∀ s a t, I s → M.step s a = some t → I t ∧ rank t + (tick a).toNat ≤ rank s) {s u : σ}
    {as : List α} (hs : I s) (hr : M.run s as = some u) : as.countP tick + rank u ≤ rank s := by
  induction as generalizing s with
  | nil =>
    obtain rfl := Option.some.inj hr
    simp
  | cons a as ih =>
    obtain ⟨t, ht, hrun⟩ := run_cons_some hr
    obtain ⟨hI, hle⟩ := hstep s a t hs ht
    have hrest := ih hI hrun
    have hcount : (a :: as).countP tick = as.countP tick + (tick a).toNat := by
      rw [List.countP_cons]
      cases tick a <;> rfl
    omega

/-- **A latch**: what a step sets exactly when it meets `C` is set by a run exactly when a step of it
does. -/
theorem run_latch {L : σ → Prop} {C : σ → α → Prop} (hI : ∀ s a t, I s → M.step s a = some t → I t)
    (hL : ∀ s a t, I s → M.step s a = some t → (L t ↔ L s ∨ C s a)) {s t : σ} {as : List α} (hs : I s)
    (hr : M.run s as = some t) :
    L t ↔ L s ∨ ∃ bs a cs u, as = bs ++ a :: cs ∧ M.run s bs = some u ∧ C u a := by
  induction as generalizing s with
  | nil =>
    obtain rfl := Option.some.inj hr
    simp
  | cons a as ih =>
    obtain ⟨u, hu, hrun⟩ := run_cons_some hr
    rw [ih (hI s a u hs hu) hrun, hL s a u hs hu, or_assoc]
    refine or_congr_right ⟨?_, ?_⟩
    · rintro (hC | ⟨bs, b, cs, v, rfl, hv, hC⟩)
      · exact ⟨[], a, as, s, rfl, rfl, hC⟩
      · exact ⟨a :: bs, b, cs, v, rfl, by rw [run_cons_of_step M hu, hv], hC⟩
    · rintro ⟨bs, b, cs, v, has, hv, hC⟩
      cases bs with
      | nil =>
        obtain ⟨rfl, rfl⟩ := List.cons.inj has
        obtain rfl := Option.some.inj hv
        exact .inl hC
      | cons b' bs =>
        obtain ⟨rfl, rfl⟩ := List.cons.inj has
        rw [run_cons_of_step M hu] at hv
        exact .inr ⟨bs, b, cs, v, rfl, hv, hC⟩

end Yijinjing.Lib.System
