import Yijinjing.Lib.Prog

/-!
# Two programs side by side

`CoupledAt R p s q t` says that `p` from `s` and `q` from `t` end the same way, with the same value or the
same exception, in states related by `R`; `Coupled R p q` that they do from all related states.  There is one
rule for each way a `do` block is built.
-/

namespace Yijinjing.Lib.Prog

variable {ε σ τ α β : Type} {R : σ → τ → Prop}

def CoupledAt (R : σ → τ → Prop) (p : Prog ε σ α) (s : σ) (q : Prog ε τ α) (t : τ) : Prop :=
  (p.exec s).1 = (q.exec t).1 ∧ R (p.exec s).2 (q.exec t).2

def Coupled (R : σ → τ → Prop) (p : Prog ε σ α) (q : Prog ε τ α) : Prop := ∀ s t, R s t → CoupledAt R p s q t

variable {p : Prog ε σ α} {q : Prog ε τ α} {f : α → Prog ε σ β} {g : α → Prog ε τ β} {s : σ} {t : τ}

theorem CoupledAt.bind (h : CoupledAt R p s q t) (hf : ∀ a, Coupled R (f a) (g a)) :
    CoupledAt R (p >>= f) s (q >>= g) t := by
  obtain ⟨hval, hrel⟩ := h
  rcases runs_or_throws p s with ⟨a, s', hx⟩ | ⟨e, s', hx⟩
  · have hp : p.exec s = (.ok a, s') := hx
    rw [hp] at hval hrel
    have hq : Runs q t a (q.exec t).2 := Prod.ext hval.symm rfl
    unfold CoupledAt
    rw [hx.exec_bind f, hq.exec_bind g]
    exact hf a s' _ hrel
  · have hp : p.exec s = (.error e, s') := hx
    rw [hp] at hval hrel
    have hq : Throws q t e (q.exec t).2 := Prod.ext hval.symm rfl
    have hpf : (p >>= f).exec s = (.error e, s') := hx.bind f
    have hqg : (q >>= g).exec t = (.error e, (q.exec t).2) := hq.bind g
    unfold CoupledAt
    rw [hpf, hqg]
    exact ⟨rfl, hrel⟩

theorem Coupled.bind (h : Coupled R p q) (hf : ∀ a, Coupled R (f a) (g a)) : Coupled R (p >>= f) (q >>= g) :=
  fun s t hst => (h s t hst).bind hf

theorem Coupled.pure (a : α) : Coupled R (Pure.pure a : Prog ε σ α) (Pure.pure a : Prog ε τ α) :=
  fun _ _ hst => ⟨rfl, hst⟩

theorem Coupled.throw (e : ε) : Coupled R (MonadExcept.throw e : Prog ε σ α) (MonadExcept.throw e : Prog ε τ α) :=
  fun _ _ hst => ⟨rfl, hst⟩

theorem Coupled.modify {f : σ → σ} {g : τ → τ} (h : ∀ s t, R s t → R (f s) (g t)) :
    Coupled R (modifyThe σ f : Prog ε σ PUnit) (modifyThe τ g : Prog ε τ PUnit) :=
  fun s t hst => ⟨rfl, h s t hst⟩

theorem CoupledAt.set {s' : σ} {t' : τ} (h : R s' t') :
    CoupledAt R (MonadStateOf.set s' : Prog ε σ PUnit) s (MonadStateOf.set t' : Prog ε τ PUnit) t := ⟨rfl, h⟩

/-- Programs that begin by looking at the state. -/
theorem Coupled.get {f : σ → Prog ε σ α} {g : τ → Prog ε τ α} (h : ∀ s t, R s t → CoupledAt R (f s) s (g t) t) :
    Coupled R ((MonadState.get : Prog ε σ σ) >>= f) ((MonadState.get : Prog ε τ τ) >>= g) := by
  intro s t hst
  unfold CoupledAt
  rw [(Runs.get s).exec_bind f, (Runs.get t).exec_bind g]
  exact h s t hst

theorem Coupled.at (h : Coupled R p q) (hst : R s t) : CoupledAt R p s q t := h s t hst

end Yijinjing.Lib.Prog
