import Mathlib.Data.Fintype.EquivFin
import Yijinjing.Lib.Progress
import Yijinjing.Paged.CommThread

/-!
# How long a request can wait

The comm thread goes round the slots up to `maxIdx`, which clients raise while it does.  It is never
stuck, and a slot whose client waits for a page is answered before the thread has taken two steps for
each slot there can be, whatever the clients and the tasks do in between; only the end of the client makes
it stop waiting otherwise (`request_answered`).
-/

namespace Yijinjing

open Lib PageEngine

namespace CommThread

/-- The steps of the comm thread itself. -/
def isPoll : Action → Bool
  | .look | .serve _ => true
  | _ => false

/-- The client of the slot waits for a page. -/
def Waiting (idx : ℕ) (s : CommThread) : Prop :=
  idx ∈ s.engine.owned ∧ (s.engine.comm idx).status = .requesting

/-- How a slot stops waiting. -/
inductive Settled (idx : ℕ) (s t : CommThread) : Action → Prop
  /-- the comm thread answers the request -/
  | answered {addr : ℕ} : s.pc = .wait idx → addr ∉ s.engine.os.mapped → t.engine = s.engine.answer idx addr →
      (t.engine.comm idx).status ∈ [CommStatus.allocated, .moreThanOneWrite, .nonExist, .cannotRenameFromTemp] →
      (t.engine.comm idx).lastPageNum = (s.engine.comm idx).pageNum → Settled idx s t (.serve addr)
  /-- the client is gone -/
  | left {event : Event} : idx ∉ t.engine.owned → Settled idx s t (.event event)

variable {s t : CommThread} {e : PageEngine} {idx i p addr : ℕ} {a : Action}

/-! ### The slots that the thread visits -/

/-- The slot that the thread is at. -/
def CommPc.slot : CommPc → ℕ
  | .look p | .wait p => p

/-- The thread is at a slot that it visits. -/
structure Polls (s : CommThread) : Prop where
  slots : Slots s.engine
  slot_le : CommPc.slot s.pc ≤ s.engine.maxIdx
  maxIdx_lt : s.engine.maxIdx < maxCommUserNumber

/-- `maxIdx` stays or is raised, to a slot that there is. -/
structure Raised (e t : PageEngine) : Prop where
  le : e.maxIdx ≤ t.maxIdx
  lt : e.maxIdx < maxCommUserNumber → t.maxIdx < maxCommUserNumber

theorem Raised.of_eq {t : PageEngine} (h : t.maxIdx = e.maxIdx) : Raised e t :=
  ⟨Nat.le_of_eq h.symm, fun hlt => h ▸ hlt⟩

theorem Raised.trans {t u : PageEngine} (h : Raised e t) (h' : Raised t u) : Raised e u :=
  ⟨h.le.trans h'.le, h'.lt ∘ h.lt⟩

theorem raised_regJournal (e : PageEngine) (name : CStr) : Raised e (e.regJournal name).2 := by
  have hoccupy : ∀ idx, idx < maxCommUserNumber → Raised e (e.occupy idx) := fun idx hidx =>
    ⟨Nat.le_max_left .., fun hlt => Nat.max_lt.mpr ⟨hlt, hidx⟩⟩
  rcases e.regJournal_cases name with ⟨-, h⟩ | ⟨idx, hf, -, h⟩ | ⟨idx, info, hf, -, h⟩
  · rw [h]
    exact .of_eq rfl
  · rw [h]
    exact hoccupy idx (freeIdx_some hf).1
  · rw [h]
    exact ⟨(hoccupy idx (freeIdx_some hf).1).le, (hoccupy idx (freeIdx_some hf).1).lt⟩

theorem exitClient_maxIdx (e : PageEngine) (name : CStr) (hash : Int32) (check : Bool) :
    (e.exitClient name hash check).maxIdx = e.maxIdx := by
  rcases e.exitClient_cases name hash check with h | ⟨info, -, -, h⟩
  · rw [h]
  · rw [h]
    exact (foldl_freeSlot_clients info.userIndexVec e).2.2.1

theorem pidCheck_maxIdx (e : PageEngine) (dead : Int32 → Bool) : (e.pidCheck dead).maxIdx = e.maxIdx := by
  unfold PageEngine.pidCheck
  induction e.clientsToRemove dead generalizing e with
  | nil => rfl
  | cons name names ih => exact (ih _).trans (exitClient_maxIdx e name 0 false)

theorem raised_apply {event : Event} {t : PageEngine} (h : e.apply event = some t) : Raised e t := by
  cases event with
  | regClient name pid isWriter nano =>
    obtain rfl := Option.some.inj h
    refine .of_eq ?_
    cases hl : e.clientJournals.lookup name with
    | none => exact (regClient_none pid isWriter nano hl).2.2
    | some info => rw [regClient_some hl]
  | regJournal name =>
    obtain rfl := Option.some.inj h
    exact raised_regJournal e name
  | hold name idx dir jname =>
    obtain ⟨info, -, -, rfl⟩ := apply_hold h
    exact .of_eq rfl
  | exitClient name hash check =>
    obtain rfl := Option.some.inj h
    exact .of_eq (exitClient_maxIdx e name hash check)
  | pidCheck dead =>
    obtain rfl := Option.some.inj h
    exact .of_eq (pidCheck_maxIdx e dead)
  | tempPage addr =>
    obtain ⟨-, rfl⟩ := apply_tempPage h
    exact .of_eq (keeps_tempPage e addr).maxIdx
  | disk files folders =>
    obtain rfl := Option.some.inj h
    exact .of_eq rfl

theorem next_slot_le (e : PageEngine) (p : ℕ) : CommPc.slot (next e p) ≤ e.maxIdx :=
  Nat.le_of_lt_succ (Nat.mod_lt _ (Nat.succ_pos _))

theorem Polls.step (hs : Polls s) (h : s.step a = some t) : Polls t := by
  have hslots := slots_step hs.slots h
  cases a with
  | event event =>
    obtain ⟨e, he, rfl⟩ := step_event h
    have hr := raised_apply he
    exact ⟨hslots, hs.slot_le.trans hr.le, hr.lt hs.maxIdx_lt⟩
  | storeNum idx pageNum =>
    obtain ⟨-, rfl⟩ := step_storeNum h
    exact ⟨hslots, hs.slot_le, hs.maxIdx_lt⟩
  | storeStatus idx =>
    obtain ⟨-, rfl⟩ := step_storeStatus h
    exact ⟨hslots, hs.slot_le, hs.maxIdx_lt⟩
  | look =>
    obtain ⟨p, hpc, ⟨-, rfl⟩ | rfl⟩ := step_look h
    · have hle := hs.slot_le
      rw [hpc] at hle
      exact ⟨hslots, hle, hs.maxIdx_lt⟩
    · exact ⟨hslots, next_slot_le s.engine p, hs.maxIdx_lt⟩
  | serve addr =>
    obtain ⟨p, -, -, rfl⟩ := step_serve h
    exact ⟨hslots, next_slot_le _ p, (keeps_answer s.engine p addr).maxIdx ▸ hs.maxIdx_lt⟩

theorem Polls.start (c : Setup) : Polls c.commThread := by
  refine ⟨Slots.start, Nat.le_refl 0, ?_⟩
  show 0 < maxCommUserNumber
  decide

/-! ### What ends the waiting -/

/-- A client that stays goes on waiting. -/
theorem waiting_of_exitClient {name : CStr} {hash : Int32} {check : Bool} (hs : Slots e)
    (hi : i ∈ (e.exitClient name hash check).owned) :
    i ∈ e.owned ∧ (e.exitClient name hash check).comm i = e.comm i := by
  rcases e.exitClient_cases name hash check with h | ⟨info, hl, -, h⟩
  · rw [h] at hi ⊢
    exact ⟨hi, rfl⟩
  · rw [h] at hi ⊢
    have hp : e.owned.Perm (info.userIndexVec ++ _) := pooled_perm hl
    obtain ⟨-, -, hdisj⟩ := List.nodup_append.mp (hp.nodup_iff.mp hs.nodup)
    refine ⟨hp.mem_iff.mpr (List.mem_append_right _ hi), ?_⟩
    show (info.userIndexVec.foldl freeSlot e).comm i = e.comm i
    rw [foldl_freeSlot_comm, if_neg fun hin => hdisj i hin i hi rfl]

theorem waiting_of_pidCheck {dead : Int32 → Bool} (hs : Slots e) (hi : i ∈ (e.pidCheck dead).owned) :
    i ∈ e.owned ∧ (e.pidCheck dead).comm i = e.comm i := by
  unfold PageEngine.pidCheck at hi ⊢
  generalize e.clientsToRemove dead = names at hi ⊢
  induction names generalizing e with
  | nil => exact ⟨hi, rfl⟩
  | cons name names ih =>
    obtain ⟨hmem, hcomm⟩ := ih (hs.exitClient name 0 false) hi
    obtain ⟨hmem', hcomm'⟩ := waiting_of_exitClient hs hmem
    exact ⟨hmem', hcomm.trans hcomm'⟩

/-- **An event does not touch a slot that waits**, unless it takes it away from its client. -/
theorem event_keeps_waiting {event : Event} {t : PageEngine} (hs : Slots e) (h : e.apply event = some t)
    (hst : (e.comm i).status = .requesting) (hi : i ∈ t.owned) : (t.comm i).status = .requesting := by
  cases event with
  | regClient name pid isWriter nano =>
    obtain rfl := Option.some.inj h
    cases hl : e.clientJournals.lookup name with
    | none => rwa [(regClient_none pid isWriter nano hl).2.1]
    | some info => rwa [regClient_some hl]
  | regJournal name =>
    obtain rfl := Option.some.inj h
    have hoccupy : ∀ idx, e.freeIdx = some idx → ((e.occupy idx).comm i).status = .requesting := by
      intro idx hf
      have hne : i ≠ idx := by
        rintro rfl
        exact CommStatus.noConfusion (hst.symm.trans (freeIdx_some hf).2)
      rw [occupy_comm, if_neg hne]
      exact hst
    rcases e.regJournal_cases name with ⟨-, h⟩ | ⟨idx, hf, -, h⟩ | ⟨idx, info, hf, -, h⟩
    · rw [h]
      exact hst
    · rw [h]
      exact hoccupy idx hf
    · rw [h]
      exact hoccupy idx hf
  | hold name idx dir jname =>
    obtain ⟨info, -, hcan, rfl⟩ := apply_hold h
    have hne : i ≠ idx := by
      rintro rfl
      exact CommStatus.noConfusion (hst.symm.trans hcan.1.2)
    rwa [setMsg_comm_ne e _ hne]
  | exitClient name hash check =>
    obtain rfl := Option.some.inj h
    rwa [(waiting_of_exitClient hs hi).2]
  | pidCheck dead =>
    obtain rfl := Option.some.inj h
    rwa [(waiting_of_pidCheck hs hi).2]
  | tempPage addr =>
    obtain ⟨-, rfl⟩ := apply_tempPage h
    rwa [(keeps_tempPage e addr).comm]
  | disk files folders =>
    obtain rfl := Option.some.inj h
    exact hst

theorem settled_answer (hpc : s.pc = .wait idx) (hfresh : addr ∉ s.engine.os.mapped)
    (ht : t.engine = s.engine.answer idx addr) : Settled idx s t (.serve addr) := by
  have hcomm := answer_comm_self s.engine idx addr
  refine .answered hpc hfresh ht ?_ ?_
  · rw [ht, hcomm]
    exact initiatePage_status _ _ addr
  · rw [ht, hcomm]

/-- A client does not store into a slot that waits. -/
theorem waiting_put (hw : Waiting i s) (hcan : s.engine.CanAsk idx) (msg : PageCommMsg) :
    Waiting i (s.put idx msg) := by
  obtain ⟨hi, hst⟩ := hw
  have hne : i ≠ idx := by
    rintro rfl
    exact hcan.2 (by rw [hst]; simp)
  refine ⟨hi, ?_⟩
  show ((s.engine.setMsg idx msg).comm i).status = _
  rwa [setMsg_comm_ne _ _ hne]

/-- **What ends the waiting.** -/
theorem settled_of_step (hs : Polls s) (hw : Waiting i s) (h : s.step a = some t) (hnot : ¬ Waiting i t) :
    Settled i s t a := by
  obtain ⟨hi, hst⟩ := hw
  cases a with
  | event event =>
    obtain ⟨e, he, rfl⟩ := step_event h
    exact .left fun hmem => hnot ⟨hmem, event_keeps_waiting hs.slots he hst hmem⟩
  | storeNum idx pageNum =>
    obtain ⟨hcan, rfl⟩ := step_storeNum h
    exact absurd (waiting_put ⟨hi, hst⟩ hcan _) hnot
  | storeStatus idx =>
    obtain ⟨hcan, rfl⟩ := step_storeStatus h
    exact absurd (waiting_put ⟨hi, hst⟩ hcan _) hnot
  | look =>
    obtain ⟨p, -, ⟨-, rfl⟩ | rfl⟩ := step_look h
    · exact absurd ⟨hi, hst⟩ hnot
    · exact absurd ⟨hi, hst⟩ hnot
  | serve addr =>
    obtain ⟨p, hpc, hfresh, rfl⟩ := step_serve h
    by_cases hp : i = p
    · subst hp
      exact settled_answer hpc hfresh rfl
    · refine absurd ⟨?_, ?_⟩ hnot
      · show i ∈ (s.engine.answer p addr).owned
        rwa [answer_owned]
      · show ((s.engine.answer p addr).comm i).status = _
        rwa [answer_comm_ne _ addr hp]

/-! ### The way to a slot -/

/-- How many slots the thread goes on before it is at the slot. -/
def ahead (idx p : ℕ) : ℕ := if p ≤ idx then idx - p else maxCommUserNumber - p + idx

/-- The steps that the thread takes before it answers the slot, at most. -/
def rank (idx : ℕ) : CommPc → ℕ
  | .look p => 2 * ahead idx p + 1
  | .wait p => 2 * ahead idx p

theorem rank_lt (pc : CommPc) (hi : i < maxCommUserNumber) : rank i pc < 2 * maxCommUserNumber := by
  have hlt : ∀ p, ahead i p < maxCommUserNumber := by
    intro p
    unfold ahead
    split <;> omega
  cases pc with
  | look p =>
    have h := hlt p
    simp only [rank]
    omega
  | wait p =>
    have h := hlt p
    simp only [rank]
    omega

/-- The thread comes nearer to each slot that it is not at. -/
theorem ahead_next (hmax : e.maxIdx < maxCommUserNumber) (hi : i ≤ e.maxIdx) (hp : p ≤ e.maxIdx) (hne : p ≠ i) :
    rank i (next e p) + 1 ≤ 2 * ahead i p := by
  show 2 * ahead i ((p + 1) % (e.maxIdx + 1)) + 1 + 1 ≤ 2 * ahead i p
  rcases Nat.eq_or_lt_of_le hp with hlast | hlt
  · have hzero : (p + 1) % (e.maxIdx + 1) = 0 := by
      rw [hlast]
      exact Nat.mod_self _
    rw [hzero]
    simp only [ahead, Nat.zero_le, if_true, Nat.sub_zero]
    rw [if_neg (by omega)]
    omega
  · have hsucc : (p + 1) % (e.maxIdx + 1) = p + 1 := Nat.mod_eq_of_lt (by omega)
    rw [hsucc]
    unfold ahead
    split <;> split <;> omega

/-- **Every step of the thread brings it nearer**, and no other step matters. -/
theorem rank_step (hs : Polls s) (hw : Waiting i s) (h : s.step a = some t) (hw' : Waiting i t) :
    rank i t.pc + (isPoll a).toNat ≤ rank i s.pc := by
  obtain ⟨hi, hst⟩ := hw
  have hmem := hs.slots.le_maxIdx i hi
  have hp := hs.slot_le
  cases a with
  | event event =>
    obtain ⟨e, -, rfl⟩ := step_event h
    exact Nat.le_refl _
  | storeNum idx pageNum =>
    obtain ⟨-, rfl⟩ := step_storeNum h
    exact Nat.le_refl _
  | storeStatus idx =>
    obtain ⟨-, rfl⟩ := step_storeStatus h
    exact Nat.le_refl _
  | look =>
    obtain ⟨p, hpc, hor⟩ := step_look h
    rw [hpc] at hp ⊢
    by_cases hpi : p = i
    · -- the status of the slot itself is REQUESTING
      subst hpi
      have ht : t = { s with pc := .wait p } := by
        unfold step at h
        simp only [hpc, hst, if_true] at h
        exact (Option.some.inj h).symm
      rw [ht]
      exact Nat.le_refl _
    · rcases hor with ⟨-, rfl⟩ | rfl
      · exact Nat.le_refl _
      · have hnext := ahead_next (p := p) hs.maxIdx_lt hmem hp hpi
        show rank i (next s.engine p) + 1 ≤ 2 * ahead i p + 1
        omega
  | serve addr =>
    obtain ⟨p, hpc, hfresh, rfl⟩ := step_serve h
    rw [hpc] at hp ⊢
    have hpi : p ≠ i := by
      rintro rfl
      have hcomm := answer_comm_self s.engine p addr
      have hne := (answerStatus_ne s.engine p addr).2.2
      obtain ⟨-, hst'⟩ := hw'
      have hst'' : ((s.engine.answer p addr).comm p).status = .requesting := hst'
      rw [hcomm] at hst''
      exact hne hst''
    have hmaxIdx := (keeps_answer s.engine p addr).maxIdx
    have hmaxIdx' : (s.engine.answer p addr).maxIdx = s.engine.maxIdx := hmaxIdx
    show rank i (next (s.engine.answer p addr) p) + 1 ≤ 2 * ahead i p
    exact ahead_next (hmaxIdx' ▸ hs.maxIdx_lt) (hmaxIdx' ▸ hmem) (hmaxIdx' ▸ hp) hpi

/-! ### Every request is answered -/

/-- A step of the comm thread is possible. -/
def NotStuck (s : CommThread) : Prop := ∃ a, isPoll a = true ∧ (s.step a).isSome

/-- There is room for a buffer. -/
theorem exists_addr (e : PageEngine) : ∃ addr, addr ∉ e.os.mapped := by
  obtain ⟨addr, hfresh⟩ := Infinite.exists_notMem_finset e.os.mapped.toFinset
  exact ⟨addr, fun hmem => hfresh (List.mem_toFinset.mpr hmem)⟩

theorem notStuck (s : CommThread) : NotStuck s := by
  cases hpc : s.pc with
  | look p =>
    refine ⟨.look, rfl, ?_⟩
    unfold step
    simp only [hpc]
    split <;> rfl
  | wait p =>
    obtain ⟨addr, hfresh⟩ := exists_addr s.engine
    refine ⟨.serve addr, rfl, ?_⟩
    unfold step
    simp only [hpc, if_neg hfresh]
    rfl

/-- Whatever happens next, the slot is answered or its client is gone before the comm thread has taken two
steps for each slot; until then it waits. -/
def AnsweredSoon (c : Setup) (s : CommThread) : Prop :=
  ∀ idx, Waiting idx s → ∀ as u, (commThread c).run s as = some u →
    2 * maxCommUserNumber ≤ as.countP isPoll →
    ∃ bs a cs t t', as = bs ++ a :: cs ∧ (commThread c).run s bs = some t ∧
      (commThread c).Always (Waiting idx) s bs ∧ bs.countP isPoll < 2 * maxCommUserNumber ∧
      t.step a = some t' ∧ Settled idx t t' a

theorem Polls.answeredSoon {c : Setup} (hs : Polls s) : AnsweredSoon c s := by
  intro idx hw as u hr hcount
  have hlt := rank_lt s.pc (hs.slots.lt idx hw.1)
  obtain ⟨bs, a, cs, t, t', has, hbs, hall, hbound, hstep, hpolls, hnot⟩ :=
    System.leaves (M := commThread c) (I := Polls) (W := Waiting idx) isPoll (fun s => rank idx s.pc)
      (fun _ _ _ hs h => Polls.step hs h) (fun _ _ _ hs hw h hw' => rank_step hs hw h hw') hs hw hr (by omega)
  refine ⟨bs, a, cs, t, t', has, hbs, hall, by omega, hstep, ?_⟩
  exact settled_of_step hpolls (hall.at_end hbs) hstep hnot

/-- **Every request is answered**, in every interleaving of the comm thread with the clients and the
tasks. -/
theorem request_answered (c : Setup) (as : List Action) :
    (commThread c).Always (fun s => NotStuck s ∧ AnsweredSoon c s) c.commThread as :=
  System.always_of_step (I := Polls) (fun _ _ _ hs h => Polls.step hs h)
    (fun s hs => ⟨notStuck s, hs.answeredSoon⟩) as (Polls.start c)

end CommThread

end Yijinjing
