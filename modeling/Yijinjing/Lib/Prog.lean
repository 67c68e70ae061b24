import Mathlib.Tactic.Common

/-!
# Programs with state and exceptions

A `Prog ε σ α` changes a state `σ` and either returns a value or throws; the state it has reached
survives a throw.  `Runs p s a t` says that `p` returns `a` and leaves `t`, `Throws p s e t` that it
throws `e` and leaves `t`; the rules below compose such runs along `do` blocks.

`Post p s Q E` says what holds afterwards however `p` ends, and `Keeps R p` that the state it leaves,
whichever way, is related to the one it started in.
-/

namespace Yijinjing.Lib

abbrev Prog (ε σ α : Type) := ExceptT ε (StateM σ) α

namespace Prog

variable {ε σ α β : Type}

/-- The outcome of a program and the state it leaves. -/
def exec (p : Prog ε σ α) (s : σ) : Except ε α × σ := (ExceptT.run p).run s

/-- `p` started in `s` returns `a` and leaves `t`. -/
def Runs (p : Prog ε σ α) (s : σ) (a : α) (t : σ) : Prop := p.exec s = (.ok a, t)

theorem Runs.det {p : Prog ε σ α} {s t t' : σ} {a a' : α} (h : Runs p s a t) (h' : Runs p s a' t') :
    a = a' ∧ t = t' := by
  have h2 := h.symm.trans h'
  simp only [Prod.mk.injEq, Except.ok.injEq] at h2
  exact h2

theorem Runs.pure (a : α) (s : σ) : Runs (Pure.pure a : Prog ε σ α) s a s := rfl

theorem Runs.get (s : σ) : Runs (MonadState.get : Prog ε σ σ) s s s := rfl

theorem Runs.set (s t : σ) : Runs (MonadStateOf.set t : Prog ε σ PUnit) s ⟨⟩ t := rfl

theorem Runs.modify (f : σ → σ) (s : σ) : Runs (modifyThe σ f : Prog ε σ PUnit) s ⟨⟩ (f s) := rfl

theorem Runs.exec_bind {p : Prog ε σ α} {s t : σ} {a : α} (h : Runs p s a t) (f : α → Prog ε σ β) :
    (p >>= f).exec s = (f a).exec t := by
  unfold Runs exec at h
  simp only [exec, ExceptT.run_bind, StateT.run_bind]
  rw [h]
  rfl

theorem Runs.bind {p : Prog ε σ α} {f : α → Prog ε σ β} {s t u : σ} {a : α} {b : β}
    (h : Runs p s a t) (hf : Runs (f a) t b u) : Runs (p >>= f) s b u := (h.exec_bind f).trans hf

/-- `p` started in `s` throws `e` and leaves `t`. -/
def Throws (p : Prog ε σ α) (s : σ) (e : ε) (t : σ) : Prop := p.exec s = (.error e, t)

theorem Throws.det {p : Prog ε σ α} {s t t' : σ} {e e' : ε} (h : Throws p s e t) (h' : Throws p s e' t') :
    e = e' ∧ t = t' := by
  have h2 := h.symm.trans h'
  simp only [Prod.mk.injEq, Except.error.injEq] at h2
  exact h2

theorem Throws.throw (e : ε) (s : σ) : Throws (MonadExcept.throw e : Prog ε σ α) s e s := rfl

/-- A throw is the end of the block. -/
theorem Throws.bind {p : Prog ε σ α} {s t : σ} {e : ε} (h : Throws p s e t) (f : α → Prog ε σ β) :
    Throws (p >>= f) s e t := by
  unfold Throws exec at h ⊢
  simp only [ExceptT.run_bind, StateT.run_bind]
  rw [h]
  rfl

theorem Runs.bind_throws {p : Prog ε σ α} {f : α → Prog ε σ β} {s t u : σ} {a : α} {e : ε}
    (h : Runs p s a t) (hf : Throws (f a) t e u) : Throws (p >>= f) s e u := (h.exec_bind f).trans hf

/-! ### However a program ends -/

/-- `p` started in `s` returns with `Q` or throws with `E`. -/
def Post (p : Prog ε σ α) (s : σ) (Q : α → σ → Prop) (E : ε → σ → Prop) : Prop :=
  match p.exec s with
  | (.ok a, t) => Q a t
  | (.error e, t) => E e t

variable {p : Prog ε σ α} {f : α → Prog ε σ β} {s t : σ} {Q Q' : α → σ → Prop} {E E' : ε → σ → Prop}

theorem Runs.post {a : α} (h : Runs p s a t) (hQ : Q a t) : Post p s Q E := by
  have hexec : p.exec s = (.ok a, t) := h
  unfold Post
  rwa [hexec]

theorem Throws.post {e : ε} (h : Throws p s e t) (hE : E e t) : Post p s Q E := by
  have hexec : p.exec s = (.error e, t) := h
  unfold Post
  rwa [hexec]

/-- The two ways a program can end. -/
theorem runs_or_throws (p : Prog ε σ α) (s : σ) : (∃ a t, Runs p s a t) ∨ ∃ e t, Throws p s e t := by
  rcases hexec : p.exec s with ⟨e | a, t⟩
  · exact .inr ⟨e, t, hexec⟩
  · exact .inl ⟨a, t, hexec⟩

theorem Post.of_runs {a : α} (h : Post p s Q E) (hx : Runs p s a t) : Q a t := by
  have hexec : p.exec s = (.ok a, t) := hx
  unfold Post at h
  rwa [hexec] at h

theorem Post.of_throws {e : ε} (h : Post p s Q E) (hx : Throws p s e t) : E e t := by
  have hexec : p.exec s = (.error e, t) := hx
  unfold Post at h
  rwa [hexec] at h

/-- What a program that has returned has done. -/
theorem Runs.of_bind {b : β} {u : σ} (h : Runs (p >>= f) s b u) : ∃ a t, Runs p s a t ∧ Runs (f a) t b u := by
  rcases runs_or_throws p s with ⟨a, t, hx⟩ | ⟨e, t, hx⟩
  · exact ⟨a, t, hx, (hx.exec_bind f).symm.trans h⟩
  · have hthrow : (p >>= f).exec s = (.error e, t) := hx.bind f
    cases hthrow.symm.trans h

theorem Runs.of_get {g : σ → Prog ε σ α} {a : α} (h : Runs ((MonadState.get : Prog ε σ σ) >>= g) s a t) :
    Runs (g s) s a t := ((Runs.get s).exec_bind g).symm.trans h

theorem Post.mono (h : Post p s Q E) (hQ : ∀ a t, Q a t → Q' a t) (hE : ∀ e t, E e t → E' e t) :
    Post p s Q' E' := by
  rcases runs_or_throws p s with ⟨a, t, hx⟩ | ⟨e, t, hx⟩
  · exact hx.post (hQ a t (h.of_runs hx))
  · exact hx.post (hE e t (h.of_throws hx))

theorem Post.and (h : Post p s Q E) (h' : Post p s Q' E') :
    Post p s (fun a t => Q a t ∧ Q' a t) fun e t => E e t ∧ E' e t := by
  rcases runs_or_throws p s with ⟨a, t, hx⟩ | ⟨e, t, hx⟩
  · exact hx.post ⟨h.of_runs hx, h'.of_runs hx⟩
  · exact hx.post ⟨h.of_throws hx, h'.of_throws hx⟩

/-- A program that cannot throw. -/
theorem Post.runs (h : Post p s Q fun _ _ => False) : ∃ a t, Runs p s a t ∧ Q a t := by
  rcases runs_or_throws p s with ⟨a, t, hx⟩ | ⟨e, t, hx⟩
  · exact ⟨a, t, hx, h.of_runs hx⟩
  · exact (h.of_throws hx).elim

/-- What holds however the program ends. -/
theorem Post.at_end {P : σ → Prop} (h : Post p s (fun _ => P) fun _ => P) : P (p.exec s).2 := by
  unfold Post at h
  split at h
  · rename_i hexec
    rwa [hexec]
  · rename_i hexec
    rwa [hexec]

/-- Two programs that end in the same way. -/
theorem Post.of_exec_eq {p' : Prog ε σ α} (h : p.exec s = p'.exec t) (hp : Post p' t Q E) : Post p s Q E := by
  unfold Post at hp ⊢
  rwa [h]

theorem Post.bind {Q : β → σ → Prop} (h : Post p s (fun a t => Post (f a) t Q E) E) :
    Post (p >>= f) s Q E := by
  rcases runs_or_throws p s with ⟨a, t, hx⟩ | ⟨e, t, hx⟩
  · have hf := h.of_runs hx
    rcases runs_or_throws (f a) t with ⟨b, u, hy⟩ | ⟨e, u, hy⟩
    · exact (hx.bind hy).post (hf.of_runs hy)
    · exact (hx.bind_throws hy).post (hf.of_throws hy)
  · exact (hx.bind f).post (h.of_throws hx)

/-- The state that `p` leaves is related to the one it started in. -/
def Keeps (R : σ → σ → Prop) (p : Prog ε σ α) : Prop := ∀ s, Post p s (fun _ t => R s t) fun _ t => R s t

section Keeps

variable {R : σ → σ → Prop}

theorem Keeps.post (h : Keeps R p) (s : σ) : Post p s (fun _ t => R s t) fun _ t => R s t := h s

theorem Keeps.bind [IsTrans σ R] (hp : Keeps R p) (hf : ∀ a, Keeps R (f a)) : Keeps R (p >>= f) := fun s =>
  .bind ((hp s).mono (fun a t ht => (hf a t).mono (fun _ _ => trans_of R ht) fun _ _ => trans_of R ht)
    fun _ _ ht => ht)

theorem Keeps.pure [Std.Refl R] (a : α) : Keeps R (Pure.pure a : Prog ε σ α) := fun s =>
  (Runs.pure a s).post (refl_of R s)

theorem Keeps.throw [Std.Refl R] (e : ε) : Keeps R (MonadExcept.throw e : Prog ε σ α) := fun s =>
  (Throws.throw e s).post (refl_of R s)

theorem Keeps.modify {g : σ → σ} (h : ∀ s, R s (g s)) : Keeps R (modifyThe σ g : Prog ε σ PUnit) := fun s =>
  (Runs.modify g s).post (h s)

/-- A program that begins by looking at the state. -/
theorem Keeps.get {g : σ → Prog ε σ α} (h : ∀ s, Post (g s) s (fun _ t => R s t) fun _ t => R s t) :
    Keeps R ((MonadState.get : Prog ε σ σ) >>= g) := fun s => .bind ((Runs.get s).post (h s))

end Keeps

-- the rules above say all about it, and a program is not to be executed by the unifier
attribute [irreducible] Post

end Prog

end Yijinjing.Lib
