import Mathlib.Data.List.Basic
import Mathlib.Tactic.Common

/-!
# Transition systems with partial steps

A system is a start state and a step that either refuses an action or returns the next state; the
nondeterminism of a schedule is the choice of the list of actions.  `run` executes such a list,
`Always P` asks `P` of every state a list of actions passes through, and `EachStep C` asks `C` of
every step it takes.  The rules below turn a fact about one step into the fact about every run:

* `run_invariant`, `always_of_step`: an invariant kept by every step;
* `always_of_eachStep`: an invariant kept by every step that meets the condition `C`;
* `always_iff_eachStep`: a property that a step keeps exactly when it meets `C`.
-/

namespace Yijinjing.Lib

/-- A start state and a partial step under an action. -/
structure System (σ α : Type*) where
  init : σ
  step : σ → α → Option σ

namespace System

variable {σ α : Type*} (M : System σ α)

/-- Execute a list of actions; `none` if one of them is refused. -/
def run : σ → List α → Option σ
  | s, [] => some s
  | s, a :: as =>
    match M.step s a with
    | some t => run t as
    | none => none

/-- `P` holds of `s` and of every state that the actions reach from it. -/
def Always (P : σ → Prop) : σ → List α → Prop
  | s, [] => P s
  | s, a :: as => P s ∧ ∀ t, M.step s a = some t → Always P t as

/-- `C` holds of every step that the actions take from `s`. -/
def EachStep (C : σ → α → Prop) : σ → List α → Prop
  | _, [] => True
  | s, a :: as => C s a ∧ ∀ t, M.step s a = some t → EachStep C t as

instance decidableEachStep {C : σ → α → Prop} [∀ s a, Decidable (C s a)] :
    ∀ (as : List α) (s : σ), Decidable (M.EachStep C s as)
  | [], _ => isTrue trivial
  | a :: as, s =>
    have : Decidable (∀ t, M.step s a = some t → M.EachStep C t as) :=
      have := fun t => decidableEachStep (C := C) as t
      inferInstanceAs (Decidable (∀ t ∈ M.step s a, M.EachStep C t as))
    inferInstanceAs (Decidable (C s a ∧ ∀ t, M.step s a = some t → M.EachStep C t as))

@[simp] theorem run_nil (s : σ) : M.run s [] = some s := rfl

theorem run_cons (s : σ) (a : α) (as : List α) :
    M.run s (a :: as) = (M.step s a).bind fun t => M.run t as := by
  simp only [run]
  cases M.step s a <;> rfl

theorem run_cons_of_step {s t : σ} {a : α} (h : M.step s a = some t) (as : List α) :
    M.run s (a :: as) = M.run t as := by
  rw [run_cons, h]; rfl

theorem run_append (s : σ) (as bs : List α) :
    M.run s (as ++ bs) = (M.run s as).bind fun t => M.run t bs := by
  induction as generalizing s with
  | nil => rfl
  | cons a as ih =>
    rw [List.cons_append, run_cons, run_cons]
    cases M.step s a with
    | none => rfl
    | some t => exact ih t

variable {M}

theorem run_append_of_run {s t : σ} {as : List α} (h : M.run s as = some t) (bs : List α) :
    M.run s (as ++ bs) = M.run t bs := by
  rw [run_append, h]; rfl

theorem run_cons_some {s u : σ} {a : α} {as : List α} (h : M.run s (a :: as) = some u) :
    ∃ t, M.step s a = some t ∧ M.run t as = some u := by
  rw [run_cons] at h
  exact Option.bind_eq_some_iff.mp h

/-- A system that refuses no action. -/
theorem run_isSome (hstep : ∀ s a, (M.step s a).isSome) (s : σ) (as : List α) : (M.run s as).isSome := by
  induction as generalizing s with
  | nil => rfl
  | cons a as ih =>
    obtain ⟨t, ht⟩ := Option.isSome_iff_exists.mp (hstep s a)
    rw [run_cons_of_step M ht]
    exact ih t

/-- An invariant kept by every step holds at the end of every run. -/
theorem run_invariant {I : σ → Prop} (hstep : ∀ s a t, I s → M.step s a = some t → I t)
    {s t : σ} {as : List α} (hs : I s) (h : M.run s as = some t) : I t := by
  induction as generalizing s with
  | nil =>
    cases h
    exact hs
  | cons a as ih =>
    obtain ⟨u, hu, hrun⟩ := run_cons_some h
    exact ih (hstep s a u hs hu) hrun

/-- An invariant kept by every step holds all along, and so does what follows from it. -/
theorem always_of_step {I P : σ → Prop} (hstep : ∀ s a t, I s → M.step s a = some t → I t)
    (hP : ∀ s, I s → P s) : ∀ (as : List α) {s : σ}, I s → M.Always P s as
  | [], s, hs => hP s hs
  | a :: as, s, hs =>
    ⟨hP s hs, fun t ht => always_of_step hstep hP as (hstep s a t hs ht)⟩

/-- An invariant kept by every step that meets `C` holds all along a run of such steps. -/
theorem always_of_eachStep {I P : σ → Prop} {C : σ → α → Prop}
    (hstep : ∀ s a t, I s → C s a → M.step s a = some t → I t) (hP : ∀ s, I s → P s) :
    ∀ (as : List α) {s : σ}, I s → M.EachStep C s as → M.Always P s as
  | [], s, hs, _ => hP s hs
  | a :: as, s, hs, hC =>
    ⟨hP s hs, fun t ht =>
      always_of_eachStep hstep hP as (hstep s a t hs hC.1 ht) (hC.2 t ht)⟩

/-- A condition on actions that all actions of a run meet. -/
theorem eachStep_of_forall {C : σ → α → Prop} : ∀ (as : List α), (∀ a ∈ as, ∀ s, C s a) → ∀ s, M.EachStep C s as
  | [], _, _ => trivial
  | a :: as, h, s =>
    ⟨h a List.mem_cons_self s, fun t _ =>
      eachStep_of_forall as (fun b hb => h b (List.mem_cons_of_mem a hb)) t⟩

/-- The steps of a run that goes on are those before and those after. -/
theorem eachStep_append {C : σ → α → Prop} {as bs : List α} {s : σ} : M.EachStep C s (as ++ bs) ↔
    M.EachStep C s as ∧ ∀ t, M.run s as = some t → M.EachStep C t bs := by
  induction as generalizing s with
  | nil => simp [EachStep]
  | cons a as ih =>
    rw [List.cons_append]
    constructor
    · rintro ⟨hC, hall⟩
      refine ⟨⟨hC, fun t ht => (ih.mp (hall t ht)).1⟩, fun u hu => ?_⟩
      obtain ⟨t, ht, hrun⟩ := run_cons_some hu
      exact (ih.mp (hall t ht)).2 u hrun
    · rintro ⟨⟨hC, hall⟩, hrest⟩
      refine ⟨hC, fun t ht => ih.mpr ⟨hall t ht, fun u hu => hrest u ?_⟩⟩
      rw [run_cons_of_step M ht, hu]

/-- A property that holds all along a run holds at its end. -/
theorem Always.at_end {P : σ → Prop} {as : List α} {s t : σ} (h : M.Always P s as)
    (hr : M.run s as = some t) : P t := by
  induction as generalizing s with
  | nil =>
    cases hr
    exact h
  | cons a as ih =>
    obtain ⟨u, hu, hrun⟩ := run_cons_some hr
    exact ih (h.2 u hu) hrun

theorem Always.mono {P Q : σ → Prop} {as : List α} {s : σ} (h : M.Always P s as) (hPQ : ∀ s, P s → Q s) :
    M.Always Q s as := by
  induction as generalizing s with
  | nil => exact hPQ s h
  | cons a as ih => exact ⟨hPQ s h.1, fun t ht => ih (h.2 t ht)⟩

theorem not_always_of_run {P : σ → Prop} {as : List α} {s t : σ} (hr : M.run s as = some t)
    (hP : ¬ P t) : ¬ M.Always P s as :=
  fun h => hP (h.at_end hr)

/-- The run is evaluated up to a test of its last state. -/
theorem not_always_of_test {P : σ → Prop} {as : List α} {s : σ} (test : σ → Bool)
    (hr : (M.run s as).any test = true) (hP : ∀ t, test t = true → ¬ P t) : ¬ M.Always P s as := by
  obtain ⟨t, ht, htest⟩ := (Option.any_eq_true _ _).mp hr
  exact not_always_of_run ht (hP t htest)

/-- A property that holds all along a run holds at its start. -/
theorem Always.at_start {P : σ → Prop} {as : List α} {s : σ} (h : M.Always P s as) : P s := by
  cases as with
  | nil => exact h
  | cons a as => exact h.1

/-- A property that a step keeps exactly when it meets `C`: it holds all along a run exactly when
every step of the run meets `C`.  `I` is what holds of every reachable state anyway. -/
theorem always_iff_eachStep {I P : σ → Prop} {C : σ → α → Prop}
    (hI : ∀ s a t, I s → M.step s a = some t → I t)
    (hP : ∀ s a t, I s → P s → M.step s a = some t → (P t ↔ C s a)) :
    ∀ (as : List α) {s : σ}, I s → P s → (M.run s as).isSome →
      (M.Always P s as ↔ M.EachStep C s as)
  | [], s, _, hs, _ => ⟨fun _ => trivial, fun _ => hs⟩
  | a :: as, s, hi, hs, hrun => by
    obtain ⟨u, hu⟩ := Option.isSome_iff_exists.mp hrun
    obtain ⟨t, ht, hrun'⟩ := run_cons_some hu
    have hsome : (M.run t as).isSome := by rw [hrun']; rfl
    have rec_iff : P t → (M.Always P t as ↔ M.EachStep C t as) := fun hPt =>
      always_iff_eachStep hI hP as (hI s a t hi ht) hPt hsome
    constructor
    · rintro ⟨-, hall⟩
      have hPt : P t := (hall t ht).at_start
      refine ⟨(hP s a t hi hs ht).mp hPt, fun t' ht' => ?_⟩
      obtain rfl : t = t' := Option.some.inj (ht.symm.trans ht')
      exact (rec_iff hPt).mp (hall t ht)
    · rintro ⟨hC, hall⟩
      refine ⟨hs, fun t' ht' => ?_⟩
      obtain rfl : t = t' := Option.some.inj (ht.symm.trans ht')
      exact (rec_iff ((hP s a t hi hs ht).mpr hC)).mpr (hall t ht)

end System

end Yijinjing.Lib
