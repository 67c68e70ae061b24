import Yijinjing.Paged.CommThread
import Yijinjing.Paged.Grants
import Yijinjing.Paged.Registration

/-!
# What a client leaves behind

With the comm thread beside the other operations: what is counted belongs to slots of registered clients,
and the comm thread answers requests only, as long as no client leaves in the middle of a request that it
makes while holding a page (from the store of the page number on), or that the comm thread has already seen.
-/

namespace Yijinjing.CommThread

open Lib PageEngine

variable {s t : CommThread} {e e' : PageEngine} {name : CStr} {info : PageClientInfo} {idx i addr : ℕ}
  {w : Bool} {k : PageKey} {pageNum : Int16}

/-- Every unit that is counted belongs to a slot of a client that holds the page, and the comm thread
changes the status of no slot but one whose owner is asking. -/
structure NothingLeft (s : CommThread) : Prop where
  accounted : ∀ w k n, (s.engine.counts w).lookup k = some n → n ≤ s.engine.holders s.moving w k
  careful : ∀ a t, (a = .look ∨ ∃ addr, a = .serve addr) → s.step a = some t →
    ∀ i, (t.engine.comm i).status ≠ (s.engine.comm i).status →
      (s.engine.comm i).status = .requesting ∧ i ∈ s.engine.owned

/-- No client leaves while a slot of its holds a page and has the number of another one, or while the comm
thread waits to answer it; and a client that holds a page asks for another one. -/
def Orderly (s : CommThread) : Action → Prop
  | .event event => ∀ name, s.engine.Leaves name event → ∀ info,
    s.engine.clientJournals.lookup name = some info → ∀ i ∈ info.userIndexVec,
      s.pc ≠ .wait i ∧ ¬ s.engine.InTransit s.moving i
  | .storeStatus idx => (s.engine.comm idx).status = .allocated → Drops (s.engine.comm idx)
  | _ => True

instance decidableOrderly (s : CommThread) : ∀ a, Decidable (Orderly s a)
  | .event event =>
    decidableLeaves s.engine event fun name => ∀ info ∈ s.engine.clientJournals.lookup name,
      ∀ i ∈ info.userIndexVec, s.pc ≠ .wait i ∧ ¬ s.engine.InTransit s.moving i
  | .storeStatus idx =>
    inferInstanceAs (Decidable ((s.engine.comm idx).status = .allocated → Drops (s.engine.comm idx)))
  | .storeNum _ _ | .look | .serve _ => isTrue trivial

/-! ### Slots that stay -/

theorem mem_owned_exit (hl : e.clientJournals.lookup name = some info)
    (hc : e'.clientJournals = e.clientJournals.erase name) (hi : i ∈ e.owned) (hnot : i ∉ info.userIndexVec) :
    i ∈ e'.owned := by
  have hp : e.owned.Perm _ := pooled_perm hl
  unfold owned
  rw [hc]
  exact (List.mem_append.mp (hp.mem_iff.mp hi)).resolve_left hnot

/-- A waiting slot stays as it is, or its client leaves. -/
theorem apply_stays {event : Event} (h : e.apply event = some e') (hi : i ∈ e.owned)
    (hst : (e.comm i).status = .requesting) : i ∈ e'.owned ∧ e'.comm i = e.comm i ∨
      (e'.comm i).status = .raw ∧ ∃ name info, e.Leaves name event ∧
        e.clientJournals.lookup name = some info ∧ i ∈ info.userIndexVec := by
  cases event with
  | regClient name pid isWriter nano =>
    obtain rfl := Option.some.inj h
    cases hl : e.clientJournals.lookup name with
    | none =>
      obtain ⟨hp, hc, -⟩ := regClient_none pid isWriter nano hl
      exact .inl ⟨hp.mem_iff.mpr hi, by rw [hc]⟩
    | some info =>
      rw [regClient_some hl]
      exact .inl ⟨hi, rfl⟩
  | regJournal name =>
    obtain rfl := Option.some.inj h
    have hne : ∀ idx, e.freeIdx = some idx → i ≠ idx := by
      intro idx hf heq
      rw [← heq] at hf
      rw [(freeIdx_some hf).2] at hst
      cases hst
    rcases e.regJournal_cases name with ⟨-, hr⟩ | ⟨idx, hf, -, hr⟩ | ⟨idx, info, hf, hl, hr⟩
    · rw [hr]
      exact .inl ⟨hi, rfl⟩
    · rw [hr]
      refine .inl ⟨hi, ?_⟩
      rw [occupy_comm, if_neg (hne idx hf)]
    · rw [hr]
      refine .inl ⟨(owned_insert_journal idx hl).mem_iff.mpr (List.mem_cons_of_mem idx hi), ?_⟩
      dsimp only
      rw [occupy_comm, if_neg (hne idx hf)]
  | hold name idx dir jname =>
    obtain ⟨info, -, ⟨⟨-, hocc⟩, -⟩, rfl⟩ := apply_hold h
    refine .inl ⟨hi, setMsg_comm_ne e _ fun heq => ?_⟩
    rw [heq, hocc] at hst
    cases hst
  | exitClient name hash check =>
    obtain rfl := Option.some.inj h
    rcases e.exitClient_cases name hash check with hx | ⟨info, hl, hc, hx⟩
    · rw [hx]
      exact .inl ⟨hi, rfl⟩
    · have hcomm := foldl_freeSlot_comm info.userIndexVec e i
      rw [hx]
      by_cases hin : i ∈ info.userIndexVec
      · rw [if_pos hin] at hcomm
        refine .inr ⟨congrArg PageCommMsg.status hcomm, name, info, ⟨rfl, fun info' hl' => ?_⟩, hl, hin⟩
        obtain rfl := Option.some.inj (hl.symm.trans hl')
        exact hc
      · rw [if_neg hin] at hcomm
        exact .inl ⟨mem_owned_exit hl rfl hi hin, hcomm⟩
  | pidCheck dead =>
    obtain rfl := Option.some.inj h
    obtain ⟨name, info, hl, hmem⟩ := mem_owned.mp hi
    by_cases hname : name ∈ e.clientsToRemove dead
    · exact .inr ⟨exitAll_comm_freed _ hname hl hmem, name, info, hname, hl, hmem⟩
    · by_cases hleft : ∃ name ∈ e.clientsToRemove dead, ∃ info,
          e.clientJournals.lookup name = some info ∧ i ∈ info.userIndexVec
      · obtain ⟨name', hname', info', hl', hmem'⟩ := hleft
        exact .inr ⟨exitAll_comm_freed _ hname' hl' hmem', name', info', hname', hl', hmem'⟩
      · refine .inl ⟨mem_owned.mpr ⟨name, info, ?_, hmem⟩,
          exitAll_comm_kept _ fun name hname info hl hmem => hleft ⟨name, hname, info, hl, hmem⟩⟩
        show (e.exitAll (e.clientsToRemove dead)).clientJournals.lookup name = _
        rw [exitAll_lookup, if_neg hname, hl]
  | tempPage addr =>
    obtain ⟨-, rfl⟩ := apply_tempPage h
    have hk := keeps_tempPage e addr
    exact .inl ⟨hk.owned_eq ▸ hi, by rw [hk.comm]⟩
  | disk files folders =>
    obtain rfl := Option.some.inj h
    exact .inl ⟨hi, rfl⟩

/-! ### The invariant -/

structure Inv (s : CommThread) : Prop where
  slots : Slots s.engine
  positive : Positive s.engine
  lastGranted : LastGranted s.moving s.engine
  asked : ∀ i, (s.engine.comm i).status = .requesting → i ∈ s.engine.owned
  waiting : ∀ i, s.pc = .wait i → (s.engine.comm i).status = .requesting
  /-- a slot that is moving to another page releases the one it has -/
  moves : ∀ i ∈ s.engine.owned, (s.engine.comm i).status = .requesting → s.moving i = true →
    Drops (s.engine.comm i)
  le : ∀ w k, s.engine.units w k ≤ s.engine.holders s.moving w k

theorem Inv.start (c : Setup) : Inv c.commThread where
  slots := Slots.start
  positive := Positive.start _ _ _
  lastGranted i hi := by cases hi
  asked i h := by cases h
  waiting i h := by cases h
  moves i hi := by cases hi
  le w k := by
    have hzero : c.commThread.engine.units w k = 0 := by
      cases w <;> rfl
    omega

theorem Inv.event (hi : Inv s) {event : Event} (ho : Orderly s (.event event))
    (h : s.engine.apply event = some e') : Inv { s with engine := e' } := by
  have hstill : LeavesStill s.moving s.engine event := fun name hname info hl i hmem =>
    (ho name hname info hl i hmem).2
  have hd : Departs s.moving s.engine e' := .apply hi.slots hi.positive hstill h
  obtain ⟨n, hn⟩ := hd.gone
  refine ⟨hi.slots.apply h, hd.positive, hi.lastGranted.departs hd, fun i hst => ?_, fun i hpc => ?_,
    fun i hmem hst hmov => ?_, fun w k => ?_⟩
  · dsimp only at hst
    -- an event makes no slot REQUESTING
    cases apply_comm h i with
    | kept hcomm =>
      rw [hcomm] at hst
      rcases apply_stays h (hi.asked i hst) hst with hstays | ⟨hraw, -⟩
      · exact hstays.1
      · rw [hcomm, hst] at hraw
        cases hraw
    | freed hnew => cases hst.symm.trans hnew
    | occupied _ hnew => cases hst.symm.trans hnew
    | held _ hnew => cases hst.symm.trans hnew
  · have hst := hi.waiting i hpc
    rcases apply_stays h (hi.asked i hst) hst with hstays | ⟨-, name, info, hname, hl, hmem⟩
    · exact hstays.2 ▸ hst
    · exact absurd hpc (ho name hname info hl i hmem).1
  · dsimp only at hmem hst
    rcases hd.slot i hmem with ⟨hmem', hcomm⟩ | hnew | hnew
    · dsimp only
      rw [hcomm] at hst ⊢
      exact hi.moves i hmem' hst hmov
    · rw [hnew] at hst
      cases hst
    · rw [hnew] at hst
      cases hst
  · have hle := hi.le w k
    have hu := (hn w k).1
    have hh := (hn w k).2
    dsimp only
    omega

/-- A slot that a client stores into holds what it held before. -/
theorem has_put (hl : LastGranted s.moving s.engine) (hcan : s.engine.CanAsk idx) {msg : PageCommMsg}
    (hst : msg.status = (s.engine.comm idx).status ∨ msg.status = .requesting)
    (hw : msg.isWriter = (s.engine.comm idx).isWriter) (hk : msg.lastKey = (s.engine.comm idx).lastKey) :
    (s.put idx msg).engine.Has (s.put idx msg).moving w k idx ↔ s.engine.Has s.moving w k idx := by
  have hcomm : (s.put idx msg).engine.comm idx = msg := setMsg_comm_self ..
  have hmoving : (s.put idx msg).moving idx = decide ((s.engine.comm idx).status = .allocated) :=
    Function.update_self ..
  have hne : (s.engine.comm idx).status ≠ .requesting := fun h => hcan.2 (by simp [h])
  by_cases halloc : (s.engine.comm idx).status = .allocated
  · have hnew : (s.put idx msg).engine.Has (s.put idx msg).moving w k idx ↔
        (s.engine.comm idx).isWriter = w ∧ (s.engine.comm idx).lastKey = k := by
      have hor : msg.status = .allocated ∨ msg.status = .requesting := halloc ▸ hst
      unfold Has
      rw [hcomm, hmoving, hw, hk]
      simp [halloc, hor]
    have hold : s.engine.Has s.moving w k idx ↔
        (s.engine.comm idx).isWriter = w ∧ (s.engine.comm idx).lastKey = k := by
      unfold Has
      cases hm : s.moving idx with
      | false =>
        have hkey : (s.engine.comm idx).lastKey = (s.engine.comm idx).key := by
          unfold PageCommMsg.lastKey PageCommMsg.key
          rw [hl idx hcan.1 halloc hm]
        rw [hkey]
        simp [PageCommMsg.Holds, halloc]
      | true => simp [halloc]
    exact hnew.trans hold.symm
  · refine iff_of_false ?_ (not_has halloc hne)
    unfold Has
    rw [hcomm, hmoving]
    rintro (⟨-, hst', -⟩ | ⟨hmov, -⟩)
    · rcases hst with hst | hst
      · exact halloc (hst.symm.trans hst')
      · cases hst.symm.trans hst'
    · exact halloc (of_decide_eq_true hmov)

/-- A store of a client into its slot, which asks for another page if it is the status. -/
theorem Inv.put (hi : Inv s) (hcan : s.engine.CanAsk idx) {msg : PageCommMsg}
    (hst : msg.status = (s.engine.comm idx).status ∨ msg.status = .requesting)
    (hdrops : msg.status = .requesting → (s.engine.comm idx).status = .allocated → Drops msg)
    (hw : msg.isWriter = (s.engine.comm idx).isWriter) (hk : msg.lastKey = (s.engine.comm idx).lastKey) :
    Inv (s.put idx msg) := by
  have hne : (s.engine.comm idx).status ≠ .requesting := fun h => hcan.2 (by simp [h])
  have hself : (s.put idx msg).engine.comm idx = msg := setMsg_comm_self ..
  have hother : ∀ i, i ≠ idx → (s.put idx msg).engine.comm i = s.engine.comm i :=
    fun i h => setMsg_comm_ne _ msg h
  have hmoving : (s.put idx msg).moving idx = decide ((s.engine.comm idx).status = .allocated) :=
    Function.update_self ..
  have hstays : ∀ i, i ≠ idx → (s.put idx msg).moving i = s.moving i := fun i h => Function.update_of_ne h ..
  refine ⟨hi.slots.setMsg fun hraw => ?_, hi.positive.congr rfl, fun i hmem hst' hm => ?_, fun i hst' => ?_,
    fun i hpc => ?_, fun i hmem hst' hmov => ?_, fun w k => ?_⟩
  · rcases hst with h | h
    · exact hcan.2 (List.mem_cons.mpr (.inl (h.symm.trans hraw)))
    · cases h.symm.trans hraw
  · by_cases h : i = idx
    · subst h
      rw [hself] at hst'
      rw [hmoving] at hm
      rcases hst with hst | hst
      · exact absurd (hst.symm.trans hst') (of_decide_eq_false hm)
      · cases hst.symm.trans hst'
    · rw [hother i h] at hst' ⊢
      exact hi.lastGranted i hmem hst' (hstays i h ▸ hm)
  · by_cases h : i = idx
    · exact h ▸ hcan.1
    · rw [hother i h] at hst'
      exact hi.asked i hst'
  · have hwait := hi.waiting i hpc
    have h : i ≠ idx := fun h => hne (h ▸ hwait)
    rw [hother i h]
    exact hwait
  · by_cases h : i = idx
    · subst h
      rw [hself] at hst' ⊢
      rw [hmoving] at hmov
      exact hdrops hst' (of_decide_eq_true hmov)
    · rw [hother i h] at hst' ⊢
      exact hi.moves i hmem hst' (hstays i h ▸ hmov)
  · have hpoint := holders_point (t := (s.put idx msg).engine) (w := w) (k := k) s.moving
      (s.put idx msg).moving hi.slots rfl hcan.1 hother hstays
    simp only [has_put hi.lastGranted hcan hst hw hk] at hpoint
    have hu : (s.put idx msg).engine.units w k = s.engine.units w k := units_congr rfl
    have hle := hi.le w k
    omega

theorem Inv.serve (hi : Inv s) (hpc : s.pc = .wait idx) (addr : ℕ) (pc : CommPc) (hpc' : ∀ i, pc ≠ .wait i) :
    Inv { s with engine := s.engine.answer idx addr, pc := pc } := by
  have hst := hi.waiting idx hpc
  have howned := hi.asked idx hst
  have hne := (answerStatus_ne s.engine idx addr).2.2
  refine ⟨hi.slots.answer addr, hi.positive.answer idx addr, hi.lastGranted.answer idx addr,
    fun i hst' => ?_, fun i h => absurd h (hpc' i), fun i hmem hst' hmov => ?_, fun w k => ?_⟩
  · dsimp only at hst' ⊢
    rw [answer_owned]
    by_cases h : i = idx
    · exact h ▸ howned
    · rw [answer_comm_ne _ addr h] at hst'
      exact hi.asked i hst'
  · dsimp only at hmem hst' hmov ⊢
    by_cases h : i = idx
    · subst h
      rw [answer_comm_self] at hst'
      exact absurd hst' hne
    · rw [answer_owned] at hmem
      rw [answer_comm_ne _ addr h] at hst' ⊢
      exact hi.moves i hmem hst' hmov
  · have hpoint := holders_point (t := s.engine.answer idx addr) (w := w) (k := k) s.moving s.moving
      hi.slots (answer_owned _ idx addr) howned (fun i h => answer_comm_ne _ addr h)
      fun _ _ => rfl
    have hafter : (s.engine.answer idx addr).Has s.moving w k idx ↔
        ((s.engine.answer idx addr).comm idx).Holds w k := by
      refine has_iff_holds fun h => ?_
      unfold InTransit at h
      rw [answer_comm_self] at h
      rcases h.2 with hst' | ⟨-, hnum⟩
      · exact hne hst'
      · exact hnum rfl
    have hu := units_answer hi.positive idx addr w k
    have hle := hi.le w k
    simp only [hafter] at hpoint
    by_cases hbefore : s.engine.Has s.moving w k idx
    · have hdrop : Drops (s.engine.comm idx) ∧ (s.engine.comm idx).isWriter = w ∧
          (s.engine.comm idx).lastKey = k := by
        rcases hbefore with ⟨-, hholds⟩ | ⟨hmov, -, hw, hk⟩
        · rw [hholds.1] at hst
          cases hst
        · exact ⟨hi.moves idx howned hst hmov, hw, hk⟩
      have hpos : 0 < s.engine.holders s.moving w k := countP_pos_of_mem howned hbefore
      rw [if_pos hdrop] at hu
      rw [if_pos hbefore] at hpoint
      dsimp only
      omega
    · rw [if_neg hbefore] at hpoint
      have hle' := Nat.sub_le (s.engine.units w k)
        (if Drops (s.engine.comm idx) ∧ (s.engine.comm idx).isWriter = w ∧ (s.engine.comm idx).lastKey = k
          then 1 else 0)
      dsimp only
      omega

theorem Inv.step (hi : Inv s) {a : Action} (ho : Orderly s a) (h : s.step a = some t) : Inv t := by
  cases a with
  | event event =>
    obtain ⟨e', he, rfl⟩ := step_event h
    exact hi.event ho he
  | storeNum idx pageNum =>
    obtain ⟨hcan, rfl⟩ := step_storeNum h
    have hne : (s.engine.comm idx).status ≠ .requesting := fun h => hcan.2 (by simp [h])
    exact hi.put hcan (.inl rfl) (fun hst => absurd hst hne) rfl rfl
  | storeStatus idx =>
    obtain ⟨hcan, rfl⟩ := step_storeStatus h
    exact hi.put hcan (.inr rfl) (fun _ halloc => ho halloc) rfl rfl
  | look =>
    obtain ⟨idx, hpc, ⟨hst, rfl⟩ | rfl⟩ := step_look h
    · refine { hi with waiting := fun i h' => ?_ }
      cases h'
      exact hst
    · exact { hi with waiting := fun i h' => by cases h' }
  | serve addr =>
    obtain ⟨idx, hpc, -, rfl⟩ := step_serve h
    exact hi.serve hpc addr _ fun i h' => by cases h'

theorem Inv.nothingLeft (hi : Inv s) : NothingLeft s where
  accounted w k n hl := by
    have hle := hi.le w k
    unfold units at hle
    rw [hl] at hle
    exact Int.toNat_le.mp hle
  careful a t ha h i hne := by
    rcases ha with rfl | ⟨addr, rfl⟩
    · obtain ⟨idx, -, ⟨-, rfl⟩ | rfl⟩ := step_look h
      · exact absurd rfl hne
      · exact absurd rfl hne
    · obtain ⟨idx, hpc, -, rfl⟩ := step_serve h
      by_cases h : i = idx
      · have hst := hi.waiting idx hpc
        exact h ▸ ⟨hst, hi.asked idx hst⟩
      · dsimp only at hne
        rw [answer_comm_ne _ addr h] at hne
        exact absurd rfl hne

/-- **A departed client leaves nothing behind**, in every run in which no client leaves in the middle of a
request that the comm thread has seen or that it makes while holding a page, and in which a client that
holds a page asks for another one. -/
theorem nothing_left (c : Setup) (as : List Action)
    (ho : (commThread c).EachStep Orderly c.commThread as) :
    (commThread c).Always NothingLeft c.commThread as :=
  System.always_of_eachStep (I := Inv) (fun _ _ _ hi ho h => hi.step ho h) (fun _ hi => hi.nothingLeft) as
    (.start c) ho

/-- A writer is granted page 1 and then page 2, and is reaped. -/
def reaped : List Action :=
  [.event (.regClient ['a'] 1 true 0), .event (.regJournal ['a']), .event (.hold ['a'] 0 ['d'] ['j']),
    .storeNum 0 1, .storeStatus 0, .look, .serve 10, .storeNum 0 2, .storeStatus 0, .look, .serve 11,
    .event (.pidCheck fun pid => pid = 1)]

theorem nothing_left_reaped : ((commThread .bare).run Setup.bare.commThread reaped).isSome ∧
    (commThread .bare).Always NothingLeft Setup.bare.commThread reaped :=
  ⟨by decide +kernel, nothing_left .bare reaped (by decide +kernel)⟩

/-- A writer is killed while it asks for page 2: page 1 is counted for good. -/
theorem killed_while_asking : ¬ (commThread .bare).Always NothingLeft Setup.bare.commThread
    [.event (.regClient ['a'] 1 true 0), .event (.regJournal ['a']), .event (.hold ['a'] 0 ['d'] ['j']),
      .storeNum 0 1, .storeStatus 0, .look, .serve 10, .storeNum 0 2, .storeStatus 0,
      .event (.pidCheck fun pid => pid = 1)] := by
  refine System.not_always_of_test (fun s => decide (s.engine.owned = [] ∧
    s.engine.fileWriterCounts.lookup ⟨['d'], ['j'], 1⟩ = some 1)) (by decide +kernel) fun s hs hn => ?_
  obtain ⟨howned, hcount⟩ := of_decide_eq_true hs
  have hle := hn.accounted true ⟨['d'], ['j'], 1⟩ 1 hcount
  have hzero : s.engine.holders s.moving true ⟨['d'], ['j'], 1⟩ = 0 := by
    unfold holders
    rw [howned]
    rfl
  rw [hzero] at hle
  cases hle

end Yijinjing.CommThread
