import Yijinjing.Lib.Transition

/-!
# Refinement between transition systems

A concrete system refines an abstract one when each of its steps is a row of abstract steps, as seen through
an abstraction of its states.  Then every concrete state stands for an abstract state that can be reached
(`Refines.reachable`), so that what always holds of the abstract system holds of it.
-/

namespace Yijinjing.Lib

variable {σ τ α β : Type*} {C : System σ α} {A : System τ β} {abs : σ → τ} {I : σ → Prop}

/-- `I` is what may be used of the concrete states. -/
structure Refines (C : System σ α) (A : System τ β) (abs : σ → τ) (I : σ → Prop) : Prop where
  init : I C.init ∧ abs C.init = A.init
  invariant : ∀ s a t, I s → C.step s a = some t → I t
  step : ∀ s a t, I s → C.step s a = some t → ∃ bs, A.run (abs s) bs = some (abs t)

namespace Refines

theorem reachable (h : Refines C A abs I) (as : List α) :
    C.Always (fun s => I s ∧ ∃ bs, A.run A.init bs = some (abs s)) C.init as := by
  refine System.always_of_step (I := fun s => I s ∧ ∃ bs, A.run A.init bs = some (abs s)) ?_
    (fun _ hs => hs) as ⟨h.init.1, [], ?_⟩
  · rintro s a t ⟨hi, bs, hbs⟩ ht
    obtain ⟨cs, hcs⟩ := h.step s a t hi ht
    exact ⟨h.invariant s a t hi ht, bs ++ cs, (System.run_append_of_run hbs cs).trans hcs⟩
  · rw [System.run_nil, h.init.2]

end Refines

end Yijinjing.Lib
