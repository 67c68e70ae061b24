import Mathlib.Tactic.Common

/-!
# Publication scripts

One party changes a shared memory by a list of effects while others look at it between any two of
them.  `Script exec Rep Next m r es m' r'` says that before every effect the memory represents some
abstract value, `r` at first and `r'` at the end, and that each effect moves the value by `Next`, which
may look at the memory that the effect finds.  An effect that leaves the abstract value as it is, is
invisible to whoever looks through `Rep`.

`Script.step_inv` is what one effect does; `Script.of_invariant` builds a script of invisible effects
from an invariant, `Script.append` composes scripts.
-/

namespace Yijinjing.Lib

variable {μ ε ρ : Type*}

inductive Script (exec : μ → ε → μ) (Rep : μ → ρ → Prop) (Next : μ → ρ → ε → ρ → Prop) :
    μ → ρ → List ε → μ → ρ → Prop
  | done {m : μ} {r : ρ} : Rep m r → Script exec Rep Next m r [] m r
  | step {m m' : μ} {r r₁ r' : ρ} {e : ε} {es : List ε} : Rep m r → Next m r e r₁ →
      Script exec Rep Next (exec m e) r₁ es m' r' → Script exec Rep Next m r (e :: es) m' r'

namespace Script

variable {exec : μ → ε → μ} {Rep : μ → ρ → Prop} {Next : μ → ρ → ε → ρ → Prop} {m m' m'' : μ}
  {r r' r'' : ρ} {es fs : List ε} {e : ε}

theorem rep (h : Script exec Rep Next m r es m' r') : Rep m r := by
  cases h <;> assumption

theorem rep_end (h : Script exec Rep Next m r es m' r') : Rep m' r' := by
  induction h with
  | done h => exact h
  | step _ _ _ ih => exact ih

theorem exec_end (h : Script exec Rep Next m r es m' r') : es.foldl exec m = m' := by
  induction h with
  | done => rfl
  | step _ _ _ ih => exact ih

theorem step_inv (h : Script exec Rep Next m r (e :: es) m' r') :
    ∃ r₁, Next m r e r₁ ∧ Script exec Rep Next (exec m e) r₁ es m' r' := by
  cases h with
  | step _ hn hs => exact ⟨_, hn, hs⟩

theorem nil_inv (h : Script exec Rep Next m r [] m' r') : m = m' ∧ r = r' := by
  cases h
  exact ⟨rfl, rfl⟩

theorem append (h : Script exec Rep Next m r es m' r') (h' : Script exec Rep Next m' r' fs m'' r'') :
    Script exec Rep Next m r (es ++ fs) m'' r'' := by
  induction h with
  | done => exact h'
  | step hr hn _ ih => exact .step hr hn (ih h')

/-- A script stopped between two effects. -/
theorem split (h : Script exec Rep Next m r (es ++ fs) m'' r'') :
    ∃ m' r', Script exec Rep Next m r es m' r' ∧ Script exec Rep Next m' r' fs m'' r'' := by
  induction es generalizing m r with
  | nil => exact ⟨m, r, .done h.rep, h⟩
  | cons e es ih =>
    obtain ⟨r₁, hn, hs⟩ := h.step_inv
    obtain ⟨m', r', hs₁, hs₂⟩ := ih hs
    exact ⟨m', r', .step h.rep hn hs₁, hs₂⟩

/-- What one effect of a script finds and does. -/
theorem at_effect (h : Script exec Rep Next m r (es ++ e :: fs) m'' r'') :
    ∃ r₁ r₂, Next (es.foldl exec m) r₁ e r₂ ∧ Rep (exec (es.foldl exec m) e) r₂ := by
  obtain ⟨m', r₁, hs₁, hs₂⟩ := h.split
  obtain ⟨r₂, hn, hs⟩ := hs₂.step_inv
  rw [hs₁.exec_end]
  exact ⟨r₁, r₂, hn, hs.rep⟩

theorem single (hr : Rep m r) (hn : Next m r e r') (hr' : Rep (exec m e) r') :
    Script exec Rep Next m r [e] (exec m e) r' :=
  .step hr hn (.done hr')

/-- Invisible effects: all of them keep an invariant under which the memory represents `r`. -/
theorem of_invariant (exec : μ → ε → μ) (Rep : μ → ρ → Prop) (Next : μ → ρ → ε → ρ → Prop) (es : List ε)
    (I : μ → Prop) (hI : ∀ m, I m → Rep m r)
    (hstep : ∀ e ∈ es, ∀ m, I m → Next m r e r ∧ I (exec m e)) (hm : I m) :
    Script exec Rep Next m r es (es.foldl exec m) r ∧ I (es.foldl exec m) := by
  induction es generalizing m with
  | nil => exact ⟨.done (hI m hm), hm⟩
  | cons e es ih =>
    obtain ⟨hn, hk⟩ := hstep e (List.mem_cons_self ..) m hm
    obtain ⟨hs, hi⟩ := ih (fun e' he' => hstep e' (List.mem_cons_of_mem _ he')) hk
    exact ⟨.step (hI m hm) hn hs, hi⟩

end Script

end Yijinjing.Lib
