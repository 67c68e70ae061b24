import Yijinjing.Paged.Counts

/-!
# The holders of a page

How many slots hold a page, and what events do to that number.  A slot holds the page it was granted, and
keeps holding it while its client asks for another one and waits for it (`moving` tells for which slots
that is so; with atomic requests there is none).  An event takes counts and holders down by the same
number.
-/

namespace Yijinjing.PageEngine

open Lib

variable {e t u : PageEngine} {name : CStr} {info : PageClientInfo} {idx i addr : ℕ} {w : Bool} {k : PageKey}
  {msg : PageCommMsg} {moving moving' : ℕ → Bool}

/-- The slot holds the page; while it moves to another one, this is the page of its last request. -/
def Has (e : PageEngine) (moving : ℕ → Bool) (w : Bool) (k : PageKey) (i : ℕ) : Prop :=
  moving i = false ∧ (e.comm i).Holds w k ∨
    moving i = true ∧ ((e.comm i).status = .allocated ∨ (e.comm i).status = .requesting) ∧
      (e.comm i).isWriter = w ∧ (e.comm i).lastKey = k

instance (e : PageEngine) (moving : ℕ → Bool) (w : Bool) (k : PageKey) (i : ℕ) :
    Decidable (e.Has moving w k i) := by
  unfold Has
  infer_instance

/-- How many slots of clients hold the page. -/
def holders (moving : ℕ → Bool) (e : PageEngine) (w : Bool) (k : PageKey) : ℕ :=
  e.owned.countP fun i => decide (e.Has moving w k i)

/-- No slot holds a page while it waits for another one. -/
def still : ℕ → Bool := fun _ => false

@[simp] theorem has_still : e.Has still w k i ↔ (e.comm i).Holds w k := by
  simp [Has, still]

theorem has_congr (h : t.comm i = e.comm i) (hm : moving' i = moving i) :
    t.Has moving' w k i ↔ e.Has moving w k i := by
  unfold Has
  rw [h, hm]

theorem not_has (h : (e.comm i).status ≠ .allocated) (h' : (e.comm i).status ≠ .requesting) :
    ¬ e.Has moving w k i := by
  rintro (⟨-, hst, -⟩ | ⟨-, hst | hst, -⟩)
  · exact h hst
  · exact h hst
  · exact h' hst

/-- The slot holds a page, and the number of another one is in it. -/
def InTransit (e : PageEngine) (moving : ℕ → Bool) (i : ℕ) : Prop :=
  moving i = true ∧ ((e.comm i).status = .requesting ∨
    (e.comm i).status = .allocated ∧ (e.comm i).lastPageNum ≠ (e.comm i).pageNum)

instance (e : PageEngine) (moving : ℕ → Bool) (i : ℕ) : Decidable (e.InTransit moving i) := by
  unfold InTransit
  infer_instance

theorem has_iff_holds (h : ¬ e.InTransit moving i) : e.Has moving w k i ↔ (e.comm i).Holds w k := by
  cases hm : moving i with
  | false => simp [Has, hm]
  | true =>
    have hreq : (e.comm i).status ≠ .requesting := fun hst => h ⟨hm, .inl hst⟩
    have hkey : (e.comm i).status = .allocated → (e.comm i).lastKey = (e.comm i).key := by
      intro hst
      have hlast : (e.comm i).lastPageNum = (e.comm i).pageNum := by
        by_contra hne
        exact h ⟨hm, .inr ⟨hst, hne⟩⟩
      unfold PageCommMsg.lastKey PageCommMsg.key
      rw [hlast]
    constructor
    · rintro (⟨hfalse, -⟩ | ⟨-, hst | hst, hw, hk⟩)
      · rw [hm] at hfalse
        cases hfalse
      · exact ⟨hst, hw, (hkey hst).symm.trans hk⟩
      · exact absurd hst hreq
    · rintro ⟨hst, hw, hk⟩
      exact .inr ⟨hm, .inl hst, hw, (hkey hst).trans hk⟩

/-- One slot changes. -/
theorem holders_point (moving moving' : ℕ → Bool) (hs : Slots e) (ho : t.owned = e.owned) (hidx : idx ∈ e.owned)
    (hc : ∀ i, i ≠ idx → t.comm i = e.comm i) (hm : ∀ i, i ≠ idx → moving' i = moving i) :
    t.holders moving' w k + (if e.Has moving w k idx then 1 else 0) =
      e.holders moving w k + if t.Has moving' w k idx then 1 else 0 := by
  unfold holders
  rw [ho]
  exact countP_point hs.nodup hidx fun i _ hi => (has_congr (hc i hi) (hm i hi)).symm

theorem holders_congr (hp : t.owned.Perm e.owned)
    (h : ∀ i ∈ t.owned, (t.Has moving' w k i ↔ e.Has moving w k i)) :
    t.holders moving' w k = e.holders moving w k := by
  unfold holders
  rw [countP_congr_iff h]
  exact hp.countP_eq _

/-! ### Events -/

/-- What events do to the counts and their holders. -/
structure Departs (moving : ℕ → Bool) (e t : PageEngine) : Prop where
  positive : Positive t
  slot : ∀ i ∈ t.owned, (i ∈ e.owned ∧ t.comm i = e.comm i) ∨
    (t.comm i).status = .occupied ∨ (t.comm i).status = .holding
  gone : ∃ n : Bool → PageKey → ℕ, ∀ w k,
    t.units w k = e.units w k - n w k ∧ e.holders moving w k = t.holders moving w k + n w k

theorem Departs.refl (hp : Positive e) : Departs moving e e :=
  ⟨hp, fun _ hi => .inl ⟨hi, rfl⟩, fun _ _ => 0, fun _ _ => ⟨rfl, rfl⟩⟩

theorem Departs.trans (h : Departs moving e t) (h' : Departs moving t u) : Departs moving e u where
  positive := h'.positive
  slot i hi := by
    rcases h'.slot i hi with ⟨hit, hcomm⟩ | hnew
    · rw [hcomm]
      exact h.slot i hit
    · exact .inr hnew
  gone := by
    obtain ⟨n, hn⟩ := h.gone
    obtain ⟨n', hn'⟩ := h'.gone
    refine ⟨fun w k => n w k + n' w k, fun w k => ⟨?_, ?_⟩⟩
    · rw [(hn' w k).1, (hn w k).1, Nat.sub_sub]
    · rw [(hn w k).2, (hn' w k).2, Nat.add_assoc, Nat.add_comm (n' w k)]

/-- The counts stay, and a slot that changes held nothing and gets nothing. -/
theorem Departs.quiet (hp : Positive e) (hc : t.counts = e.counts) (ho : t.owned.Perm e.owned)
    (hcomm : ∀ i ∈ t.owned, t.comm i = e.comm i ∨ (∀ w k, ¬ e.Has moving w k i) ∧
      ((t.comm i).status = .occupied ∨ (t.comm i).status = .holding)) : Departs moving e t where
  positive := hp.congr hc
  slot i hi := by
    rcases hcomm i hi with h | h
    · exact .inl ⟨ho.mem_iff.mp hi, h⟩
    · exact .inr h.2
  gone := by
    refine ⟨fun _ _ => 0, fun w k => ⟨units_congr hc, ?_⟩⟩
    refine (holders_congr ho fun i hi => ?_).symm
    rcases hcomm i hi with h | ⟨hold, hst⟩
    · exact has_congr h rfl
    · refine iff_of_false (not_has ?_ ?_) (hold w k) <;> rcases hst with h | h <;> rw [h] <;> simp

theorem Departs.keeps (hp : Positive e) (h : Keeps e t) (hc : t.counts = e.counts) : Departs moving e t :=
  .quiet hp hc (h.owned_eq ▸ List.Perm.refl _) fun i _ => .inl (by rw [h.comm])

theorem Departs.regClient (hp : Positive e) (name : CStr) (pid : Int32) (isWriter : Bool) (nano : Int64) :
    Departs moving e (e.regClient name pid isWriter nano).2 := by
  cases h : e.clientJournals.lookup name with
  | none =>
    obtain ⟨h1, h2, -⟩ := regClient_none pid isWriter nano h
    have hc : (e.regClient name pid isWriter nano).2.counts = e.counts := by
      simp only [PageEngine.regClient, h]
      rfl
    exact .quiet hp hc h1 fun i _ => .inl (by rw [h2])
  | some info =>
    rw [regClient_some h]
    exact .refl hp

theorem Departs.regJournal (hs : Slots e) (hp : Positive e) (name : CStr) :
    Departs moving e (e.regJournal name).2 := by
  have hfree : ∀ idx, e.freeIdx = some idx → ∀ w k, ¬ e.Has moving w k idx := by
    intro idx hf w k
    have hraw := (freeIdx_some hf).2
    refine not_has ?_ ?_ <;> rw [hraw] <;> simp
  have hcomm : ∀ idx, e.freeIdx = some idx → ∀ i, (e.occupy idx).comm i = e.comm i ∨
      (∀ w k, ¬ e.Has moving w k i) ∧ (((e.occupy idx).comm i).status = .occupied ∨
        ((e.occupy idx).comm i).status = .holding) := by
    intro idx hf i
    rw [occupy_comm]
    split
    · rename_i hi
      subst hi
      exact .inr ⟨hfree i hf, .inl rfl⟩
    · exact .inl rfl
  rcases e.regJournal_cases name with ⟨-, h⟩ | ⟨idx, hf, -, h⟩ | ⟨idx, info, hf, hl, h⟩
  · rw [h]
    exact .refl hp
  · rw [h]
    exact .quiet hp rfl (List.Perm.refl _) fun i _ => hcomm idx hf i
  · rw [h]
    have hperm := owned_insert_journal idx hl
    refine ⟨hp.congr rfl, fun i hi => ?_, fun _ _ => 0, fun w k => ⟨units_congr rfl, ?_⟩⟩
    · rcases List.mem_cons.mp (hperm.mem_iff.mp hi) with rfl | hi
      · refine .inr (.inl ?_)
        show ((e.occupy i).comm i).status = .occupied
        rw [occupy_comm, if_pos rfl]
      · rcases hcomm idx hf i with h' | h'
        · exact .inl ⟨hi, h'⟩
        · exact .inr h'.2
    · have hnew : ¬ (e.regJournal name).2.Has moving w k idx := by
        refine not_has ?_ ?_ <;> rw [h] <;> dsimp only <;> rw [occupy_comm, if_pos rfl] <;> simp
      have hold : ∀ i ∈ e.owned, (e.Has moving w k i ↔ (e.regJournal name).2.Has moving w k i) := by
        intro i hi
        have hne : i ≠ idx := fun hi' => hs.not_mem_of_raw (freeIdx_some hf).2 (hi' ▸ hi)
        refine (has_congr ?_ rfl).symm
        rw [h]
        dsimp only
        rw [occupy_comm, if_neg hne]
      rw [h] at hnew hold
      unfold holders
      rw [countP_congr_iff hold, Nat.add_zero]
      refine Eq.symm ((hperm.countP_eq _).trans ?_)
      exact List.countP_cons_of_neg (by simpa using hnew)

theorem freeSlot_units (hp : Positive e) (idx : ℕ) (w : Bool) (k : PageKey) :
    (e.freeSlot idx).units w k = e.units w k - if (e.comm idx).Holds w k then 1 else 0 := by
  have hu : (e.freeSlot idx).units w k =
      (if (e.comm idx).status = .allocated then e.releasePage (e.comm idx) else e).units w k := units_congr rfl
  rw [hu]
  split
  · rename_i hst
    rw [units_releasePage hp]
    simp [PageCommMsg.Holds, hst]
  · rename_i hst
    rw [if_neg fun h => hst h.1]
    rfl

theorem Positive.freeSlot (hp : Positive e) (idx : ℕ) : Positive (e.freeSlot idx) := by
  have hu : (e.freeSlot idx).counts =
      (if (e.comm idx).status = .allocated then e.releasePage (e.comm idx) else e).counts := rfl
  refine Positive.congr ?_ hu
  split
  · exact hp.releasePage _
  · exact hp

/-- A unit is released for every slot that holds the page. -/
theorem foldl_freeSlot_units (l : List ℕ) (hn : l.Nodup) {e : PageEngine} (hp : Positive e) :
    Positive (l.foldl freeSlot e) ∧ ∀ w k, (l.foldl freeSlot e).units w k =
      e.units w k - l.countP fun i => decide ((e.comm i).Holds w k) := by
  induction l generalizing e with
  | nil => exact ⟨hp, fun _ _ => rfl⟩
  | cons j l ih =>
    obtain ⟨hj, hn'⟩ := List.nodup_cons.mp hn
    obtain ⟨hpos, hu⟩ := ih hn' (hp.freeSlot j)
    refine ⟨hpos, fun w k => ?_⟩
    have hrest : ∀ i ∈ l, (((e.freeSlot j).comm i).Holds w k ↔ (e.comm i).Holds w k) := by
      intro i hi
      have hne : i ≠ j := fun h => hj (h ▸ hi)
      rw [freeSlot_comm, if_neg hne]
    rw [List.foldl_cons, hu, freeSlot_units hp, countP_congr_iff hrest, List.countP_cons, Nat.sub_sub,
      Nat.add_comm]
    simp only [decide_eq_true_eq]

theorem Departs.exitClient (hs : Slots e) (hp : Positive e) (name : CStr) (hash : Int32) (check : Bool)
    (hm : ∀ info, e.clientJournals.lookup name = some info → ¬ (check = true ∧ hash ≠ info.hashCode) →
      ∀ i ∈ info.userIndexVec, ¬ e.InTransit moving i) :
    Departs moving e (e.exitClient name hash check) := by
  rcases e.exitClient_cases name hash check with h | ⟨info, hl, hc, h⟩
  · rw [h]
    exact .refl hp
  · rw [h]
    have hperm : e.owned.Perm (info.userIndexVec ++ pooled _ (e.clientJournals.erase name)) := pooled_perm hl
    obtain ⟨hn, -, hdisj⟩ := List.nodup_append.mp (hperm.nodup_iff.mp hs.nodup)
    obtain ⟨hpos, hu⟩ := foldl_freeSlot_units info.userIndexVec hn hp
    have hcomm : ∀ i ∈ pooled PageClientInfo.userIndexVec (e.clientJournals.erase name),
        (info.userIndexVec.foldl freeSlot e).comm i = e.comm i := by
      intro i hi
      rw [foldl_freeSlot_comm, if_neg fun hin => hdisj i hin i hi rfl]
    refine ⟨hpos.congr rfl, fun i hi => .inl ⟨?_, hcomm i hi⟩,
      fun w k => info.userIndexVec.countP fun i => decide ((e.comm i).Holds w k), fun w k => ⟨?_, ?_⟩⟩
    · exact hperm.mem_iff.mpr (List.mem_append_right _ hi)
    · rw [← hu w k]
      exact units_congr rfl
    · have hleft : ∀ i ∈ info.userIndexVec, (e.Has moving w k i ↔ (e.comm i).Holds w k) := fun i hi =>
        has_iff_holds (hm info hl hc i hi)
      have hrest : ∀ i ∈ pooled PageClientInfo.userIndexVec (e.clientJournals.erase name),
          (e.Has moving w k i ↔ (info.userIndexVec.foldl freeSlot e).Has moving w k i) :=
        fun i hi => (has_congr (hcomm i hi) rfl).symm
      unfold holders
      rw [hperm.countP_eq, List.countP_append, Nat.add_comm, countP_congr_iff hleft, countP_congr_iff hrest]
      rfl

/-- The client leaves in the event. -/
def Leaves (e : PageEngine) (name : CStr) : Event → Prop
  | .exitClient name' hash check => name = name' ∧
      ∀ info, e.clientJournals.lookup name' = some info → ¬ (check = true ∧ hash ≠ info.hashCode)
  | .pidCheck dead => name ∈ e.clientsToRemove dead
  | _ => False

/-- Whether something holds of the clients that leave. -/
def decidableLeaves (e : PageEngine) (event : Event) (P : CStr → Prop) [DecidablePred P] :
    Decidable (∀ name, e.Leaves name event → P name) :=
  match event with
  | .exitClient name hash check =>
    decidable_of_iff ((∀ info ∈ e.clientJournals.lookup name, ¬ (check = true ∧ hash ≠ info.hashCode)) → P name)
      ⟨fun h _ hl => hl.1 ▸ h hl.2, fun h hl => h name ⟨rfl, hl⟩⟩
  | .pidCheck dead => inferInstanceAs (Decidable (∀ name ∈ e.clientsToRemove dead, P name))
  | .regClient .. | .regJournal _ | .hold .. | .tempPage _ | .disk .. => isTrue fun _ h => h.elim

/-- No client leaves while it holds a page and asks or waits for another one. -/
def LeavesStill (moving : ℕ → Bool) (e : PageEngine) (event : Event) : Prop :=
  ∀ name, e.Leaves name event → ∀ info, e.clientJournals.lookup name = some info →
    ∀ i ∈ info.userIndexVec, ¬ e.InTransit moving i

theorem leavesStill_still (e : PageEngine) (event : Event) : LeavesStill still e event :=
  fun _ _ _ _ _ _ h => Bool.noConfusion h.1

theorem Departs.pidCheck (hs : Slots e) (hp : Positive e) (dead : Int32 → Bool)
    (hm : LeavesStill moving e (.pidCheck dead)) : Departs moving e (e.pidCheck dead) := by
  have hm' : ∀ name ∈ e.clientsToRemove dead, ∀ info, e.clientJournals.lookup name = some info →
      ∀ i ∈ info.userIndexVec, ¬ e.InTransit moving i := hm
  unfold PageEngine.pidCheck
  generalize e.clientsToRemove dead = names at hm'
  clear hm
  induction names generalizing e with
  | nil => exact .refl hp
  | cons n names ih =>
    have hfirst : Departs moving e (e.exitClient n 0 false) :=
      .exitClient hs hp n 0 false fun info hl _ => hm' n List.mem_cons_self info hl
    refine hfirst.trans (ih (hs.exitClient n 0 false) hfirst.positive fun name hname info hl i hi => ?_)
    rw [exitClient_lookup] at hl
    split at hl
    · cases hl
    · have hold := hm' name (List.mem_cons_of_mem n hname) info hl i hi
      cases hn : e.clientJournals.lookup n with
      | none =>
        rw [exitClient_none hn]
        exact hold
      | some info' =>
        unfold InTransit
        rw [exitClient_comm hn]
        split
        · rintro ⟨-, hst | ⟨hst, -⟩⟩ <;> cases hst
        · exact hold

/-- **What an event does to the counts and their holders.** -/
theorem Departs.apply (hs : Slots e) (hp : Positive e) {event : Event} (hm : LeavesStill moving e event)
    (h : e.apply event = some t) : Departs moving e t := by
  cases event with
  | regClient name pid isWriter nano =>
    obtain rfl := Option.some.inj h
    exact .regClient hp name pid isWriter nano
  | regJournal name =>
    obtain rfl := Option.some.inj h
    exact .regJournal hs hp name
  | hold name idx dir jname =>
    obtain ⟨info, -, ⟨⟨-, hocc⟩, -⟩, rfl⟩ := apply_hold h
    refine .quiet hp rfl (List.Perm.refl _) fun i _ => ?_
    by_cases hi : i = idx
    · subst hi
      rw [setMsg_comm_self]
      refine .inr ⟨fun w k => not_has ?_ ?_, .inr rfl⟩ <;> rw [hocc] <;> simp
    · exact .inl (setMsg_comm_ne e _ hi)
  | exitClient name hash check =>
    obtain rfl := Option.some.inj h
    refine .exitClient hs hp name hash check fun info hl hc => hm name ⟨rfl, fun info' hl' => ?_⟩ info hl
    obtain rfl := Option.some.inj (hl.symm.trans hl')
    exact hc
  | pidCheck dead =>
    obtain rfl := Option.some.inj h
    exact .pidCheck hs hp dead hm
  | tempPage addr =>
    obtain ⟨-, rfl⟩ := apply_tempPage h
    refine .keeps hp (keeps_tempPage e addr) ?_
    unfold PageEngine.tempPage
    split <;> rfl
  | disk files folders =>
    obtain rfl := Option.some.inj h
    exact .keeps hp (keeps_disk e files folders) rfl

/-! ### Requests -/

/-- In an owned slot that was granted a page and does not move, this is the page of the last request. -/
def LastGranted (moving : ℕ → Bool) (e : PageEngine) : Prop :=
  ∀ i ∈ e.owned, (e.comm i).status = .allocated → moving i = false →
    (e.comm i).lastPageNum = (e.comm i).pageNum

theorem LastGranted.departs (hl : LastGranted moving e) (h : Departs moving e t) : LastGranted moving t := by
  intro i hi hst hm
  rcases h.slot i hi with ⟨hie, hcomm⟩ | hnew | hnew
  · rw [hcomm] at hst ⊢
    exact hl i hie hst hm
  · rw [hnew] at hst
    cases hst
  · rw [hnew] at hst
    cases hst

theorem LastGranted.answer (hl : LastGranted moving e) (idx addr : ℕ) :
    LastGranted moving (e.answer idx addr) := by
  intro i hi hst hm
  by_cases h : i = idx
  · subst h
    rw [answer_comm_self]
  · rw [answer_owned] at hi
    rw [answer_comm_ne e addr h] at hst ⊢
    exact hl i hi hst hm

end Yijinjing.PageEngine
