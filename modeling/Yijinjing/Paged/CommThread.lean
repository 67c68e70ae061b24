import Yijinjing.Paged.Service

/-!
# The comm thread

The loop of `start_comm` beside everything else that happens to the engine: it tests the status of a
slot without the mutex, and takes the mutex for the answer.  A client stores into its own slots only, as
the names it registers fit their fields.  `commThread` is the system of all interleavings.  Who owns which
slot is settled in every one of them (`slot_ownership`).
-/

namespace Yijinjing

open Lib PageEngine

/-- Where the loop of `start_comm` is. -/
inductive CommPc where
  /-- the status of the slot is read next -/
  | look (idx : ℕ)
  /-- the status was REQUESTING; the mutex is taken next -/
  | wait (idx : ℕ)
  deriving DecidableEq

structure CommThread where
  engine : PageEngine
  pc : CommPc
  /-- the slots that had a page at their client's last store; no step reads it -/
  moving : ℕ → Bool

namespace CommThread

inductive Action
  /-- something that happens under the mutex, or a store of a client -/
  | event (event : Event)
  /-- the stores of `getPage` -/
  | storeNum (idx : ℕ) (pageNum : Int16)
  | storeStatus (idx : ℕ)
  /-- the test of the status -/
  | look
  /-- the section under the mutex; `addr` is where a buffer is mapped, if one is -/
  | serve (addr : ℕ)

/-- `(idx + 1) % (maxIdx + 1)` -/
def next (e : PageEngine) (idx : ℕ) : CommPc := .look ((idx + 1) % (e.maxIdx + 1))

/-- The client of the slot stores into it. -/
def put (s : CommThread) (idx : ℕ) (msg : PageCommMsg) : CommThread :=
  { s with
    engine := s.engine.setMsg idx msg
    moving := Function.update s.moving idx ((s.engine.comm idx).status = .allocated) }

def step (s : CommThread) : Action → Option CommThread
  | .event event => (s.engine.apply event).map fun e => { s with engine := e }
  | .storeNum idx pageNum =>
    if s.engine.CanAsk idx then some (s.put idx (PageProvider.storeNum (s.engine.comm idx) pageNum)) else none
  | .storeStatus idx =>
    if s.engine.CanAsk idx then some (s.put idx (PageProvider.storeStatus (s.engine.comm idx))) else none
  | .look =>
    match s.pc with
    | .look idx =>
      if (s.engine.comm idx).status = .requesting then some { s with pc := .wait idx }
      else some { s with pc := next s.engine idx }
    | .wait _ => none
  | .serve addr =>
    match s.pc with
    | .look _ => none
    | .wait idx =>
      if addr ∈ s.engine.os.mapped then none
      else some { s with engine := s.engine.answer idx addr, pc := next (s.engine.answer idx addr) idx }

end CommThread

/-- The comm thread of an engine that starts. -/
def Setup.commThread (c : Setup) : CommThread := ⟨c.engine, .look 0, fun _ => false⟩

/-- **The page service with the comm thread.** -/
def commThread (c : Setup) : System CommThread CommThread.Action := ⟨c.commThread, CommThread.step⟩

namespace CommThread

variable {s t : CommThread} {idx addr : ℕ} {pageNum : Int16}

/-! ### What a step has been -/

theorem step_event {event : Event} (h : s.step (.event event) = some t) :
    ∃ e, s.engine.apply event = some e ∧ t = { s with engine := e } := by
  obtain ⟨e, he, rfl⟩ := Option.map_eq_some_iff.mp h
  exact ⟨e, he, rfl⟩

theorem step_storeNum (h : s.step (.storeNum idx pageNum) = some t) :
    s.engine.CanAsk idx ∧ t = s.put idx (PageProvider.storeNum (s.engine.comm idx) pageNum) := by
  unfold step at h
  dsimp only at h
  split at h
  · rename_i hcan
    exact ⟨hcan, (Option.some.inj h).symm⟩
  · cases h

theorem step_storeStatus (h : s.step (.storeStatus idx) = some t) :
    s.engine.CanAsk idx ∧ t = s.put idx (PageProvider.storeStatus (s.engine.comm idx)) := by
  unfold step at h
  dsimp only at h
  split at h
  · rename_i hcan
    exact ⟨hcan, (Option.some.inj h).symm⟩
  · cases h

theorem step_look (h : s.step .look = some t) : ∃ idx, s.pc = .look idx ∧
    ((s.engine.comm idx).status = .requesting ∧ t = { s with pc := .wait idx } ∨
      t = { s with pc := next s.engine idx }) := by
  unfold step at h
  dsimp only at h
  split at h
  · rename_i idx hpc
    split at h
    · rename_i hst
      exact ⟨idx, hpc, .inl ⟨hst, (Option.some.inj h).symm⟩⟩
    · exact ⟨idx, hpc, .inr (Option.some.inj h).symm⟩
  · cases h

theorem step_serve (h : s.step (.serve addr) = some t) : ∃ idx, s.pc = .wait idx ∧
    addr ∉ s.engine.os.mapped ∧
    t = { s with engine := s.engine.answer idx addr, pc := next (s.engine.answer idx addr) idx } := by
  unfold step at h
  dsimp only at h
  split at h
  · cases h
  · rename_i idx hpc
    split at h
    · cases h
    · rename_i hfresh
      exact ⟨idx, hpc, hfresh, (Option.some.inj h).symm⟩

theorem slots_step (hs : Slots s.engine) {a : Action} (h : s.step a = some t) : Slots t.engine := by
  cases a with
  | event event =>
    obtain ⟨e, he, rfl⟩ := step_event h
    exact hs.apply he
  | storeNum idx pageNum =>
    obtain ⟨hcan, rfl⟩ := step_storeNum h
    exact hs.setMsg fun hraw => hcan.2 (List.mem_cons.mpr (.inl hraw))
  | storeStatus idx =>
    obtain ⟨-, rfl⟩ := step_storeStatus h
    exact hs.setMsg CommStatus.noConfusion
  | look =>
    obtain ⟨idx, -, ⟨-, rfl⟩ | rfl⟩ := step_look h
    · exact hs
    · exact hs
  | serve addr =>
    obtain ⟨idx, -, -, rfl⟩ := step_serve h
    exact hs.answer addr

/-! ### Ownership -/

/-- Every slot of a client is one that the comm thread visits and that is not RAW, no slot is listed
twice, and `reg_journal` gives out none that is listed. -/
structure SlotOwnership (e : PageEngine) : Prop where
  lt : ∀ name info, e.clientJournals.lookup name = some info →
    ∀ i ∈ info.userIndexVec, i < maxCommUserNumber
  visited : ∀ name info, e.clientJournals.lookup name = some info → ∀ i ∈ info.userIndexVec, i ≤ e.maxIdx
  not_raw : ∀ name info, e.clientJournals.lookup name = some info →
    ∀ i ∈ info.userIndexVec, (e.comm i).status ≠ .raw
  once : ∀ name info, e.clientJournals.lookup name = some info → info.userIndexVec.Nodup
  one_owner : ∀ name info name' info', e.clientJournals.lookup name = some info →
    e.clientJournals.lookup name' = some info' → name ≠ name' →
      ∀ i ∈ info.userIndexVec, i ∉ info'.userIndexVec
  fresh : ∀ name idx, (e.regJournal name).1 = some idx → ∀ name' info',
    e.clientJournals.lookup name' = some info' → idx ∉ info'.userIndexVec

theorem SlotOwnership.of_slots {e : PageEngine} (hs : Slots e) : SlotOwnership e where
  lt name info hl i hi := hs.lt i (mem_owned.mpr ⟨name, info, hl, hi⟩)
  visited name info hl i hi := hs.le_maxIdx i (mem_owned.mpr ⟨name, info, hl, hi⟩)
  not_raw name info hl i hi := hs.not_raw i (mem_owned.mpr ⟨name, info, hl, hi⟩)
  once name info hl := by
    have hp : e.owned.Perm _ := pooled_perm hl
    exact (List.nodup_append.mp (hp.nodup_iff.mp hs.nodup)).1
  one_owner name info name' info' hl hl' hne i hi hi' := hne (hs.owner_unique hl hl' hi hi')
  fresh name idx hreg name' info' hl' hi' := by
    have howned : idx ∈ e.owned := mem_owned.mpr ⟨name', info', hl', hi'⟩
    rcases e.regJournal_cases name with ⟨-, h⟩ | ⟨_, -, -, h⟩ | ⟨idx', info, hf, -, h⟩
    · rw [h] at hreg
      cases hreg
    · rw [h] at hreg
      cases hreg
    · rw [h] at hreg
      obtain rfl := Option.some.inj hreg
      exact hs.not_mem_of_raw (freeIdx_some hf).2 howned

/-- **Slots have one owner, in every state of every interleaving.** -/
theorem slot_ownership (c : Setup) (as : List Action) :
    (commThread c).Always (fun s => SlotOwnership s.engine) c.commThread as :=
  System.always_of_step (I := fun s => Slots s.engine) (fun _ _ _ hs h => slots_step hs h)
    (fun _ hs => .of_slots hs) as Slots.start

end CommThread

end Yijinjing
