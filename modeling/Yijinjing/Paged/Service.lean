import Yijinjing.Lib.Transition
import Yijinjing.Paged.Slots

/-!
# The engine and its clients

The engine among those who use it.  An `Event` is a message from a client, a task, a store of a client
into its slot, or a change of the file system by somebody else; `service` is the system whose steps are
these and page requests.  A request is one step: the stores of `getPage` and the answer of the comm
thread.
-/

namespace Yijinjing

open Lib

/-- What the engine finds when it starts. -/
structure Setup where
  tempPath : CStr
  commFile : CStr
  files : List CStr
  folders : List CStr
  device : CStr → ℕ

/-- The engine when it starts: nothing is mapped. -/
def Setup.engine (c : Setup) : PageEngine :=
  .start c.tempPath c.commFile ⟨c.files, c.folders, c.device, [], 0⟩

/-- An empty file system. -/
def Setup.bare : Setup where
  tempPath := "/yjj/temp".toList
  commFile := "/yjj/comm".toList
  files := []
  folders := []
  device _ := 0

namespace PageEngine

variable {e t : PageEngine} {name : CStr} {info : PageClientInfo} {idx i : ℕ}

inductive Event
  | regClient (clientName : CStr) (pid : Int32) (isWriter : Bool) (nano : Int64)
  | regJournal (clientName : CStr)
  /-- the client fills in the slot that `reg_journal` gave it, with names that fit their fields -/
  | hold (clientName : CStr) (idx : ℕ) (dir jname : CStr)
  | exitClient (clientName : CStr) (hashCode : Int32) (needHashCheck : Bool)
  /-- `dead` is what the operating system says about the processes -/
  | pidCheck (dead : Int32 → Bool)
  | tempPage (addr : ℕ)
  /-- files and folders come and go -/
  | disk (files folders : List CStr)

/-- The client may fill in the slot: it is one of its own, and still OCCUPIED. -/
def CanHold (e : PageEngine) (info : PageClientInfo) (idx : ℕ) : Prop :=
  idx ∈ info.userIndexVec ∧ (e.comm idx).status = .occupied

instance : Decidable (e.CanHold info idx) := by
  unfold CanHold
  infer_instance

/-- The engine after an event.  A buffer is never mapped where another one is. -/
def apply (e : PageEngine) : Event → Option PageEngine
  | .regClient name pid isWriter nano => some (e.regClient name pid isWriter nano).2
  | .regJournal name => some (e.regJournal name).2
  | .hold name idx dir jname =>
    match e.clientJournals.lookup name with
    | none => none
    | some info =>
      if e.CanHold info idx ∧ PageProvider.Fits dir jname then
        some (e.setMsg idx (PageProvider.hold (e.comm idx) dir jname info.isWriting))
      else none
  | .exitClient name hashCode check => some (e.exitClient name hashCode check)
  | .pidCheck dead => some (e.pidCheck dead)
  | .tempPage addr => if addr ∈ e.os.mapped then none else some (e.tempPage addr)
  | .disk files folders => some { e with os := { e.os with files := files, folders := folders } }

/-- The slot has been filled in by its client, which is not waiting for a page. -/
def CanAsk (e : PageEngine) (idx : ℕ) : Prop :=
  idx ∈ e.owned ∧ (e.comm idx).status ∉ [.raw, .occupied, .requesting]

instance : Decidable (e.CanAsk idx) := by
  unfold CanAsk
  infer_instance

/-- The client of the slot asks for a page. -/
def ask (e : PageEngine) (idx : ℕ) (pageNum : Int16) : PageEngine :=
  e.setMsg idx (PageProvider.ask (e.comm idx) pageNum)

inductive Action
  | event (event : Event)
  /-- a request and its answer; `addr` is where a buffer is mapped, if one is -/
  | request (idx : ℕ) (pageNum : Int16) (addr : ℕ)

def step (e : PageEngine) : Action → Option PageEngine
  | .event event => e.apply event
  | .request idx pageNum addr =>
    if e.CanAsk idx ∧ addr ∉ e.os.mapped then some ((e.ask idx pageNum).answer idx addr) else none

end PageEngine

/-- **The page service with atomic requests.** -/
def service (c : Setup) : System PageEngine PageEngine.Action := ⟨c.engine, PageEngine.step⟩

namespace PageEngine

variable {e t : PageEngine} {name dir jname : CStr} {info : PageClientInfo} {idx i : ℕ}
  {pageNum : Int16} {addr : ℕ}

/-! ### What a step has been -/

theorem apply_hold (h : e.apply (.hold name idx dir jname) = some t) :
    ∃ info, e.clientJournals.lookup name = some info ∧
      (e.CanHold info idx ∧ PageProvider.Fits dir jname) ∧
      t = e.setMsg idx (PageProvider.hold (e.comm idx) dir jname info.isWriting) := by
  unfold apply at h
  dsimp only at h
  split at h
  · cases h
  · rename_i info hl
    split at h
    · rename_i hcan
      exact ⟨info, hl, hcan, (Option.some.inj h).symm⟩
    · cases h

theorem apply_tempPage (h : e.apply (.tempPage addr) = some t) : addr ∉ e.os.mapped ∧ t = e.tempPage addr := by
  unfold apply at h
  dsimp only at h
  split at h
  · cases h
  · rename_i hfresh
    exact ⟨hfresh, (Option.some.inj h).symm⟩

theorem step_request (h : e.step (.request idx pageNum addr) = some t) :
    e.CanAsk idx ∧ addr ∉ e.os.mapped ∧ t = (e.ask idx pageNum).answer idx addr := by
  unfold step at h
  dsimp only at h
  split at h
  · rename_i hcan
    exact ⟨hcan.1, hcan.2, (Option.some.inj h).symm⟩
  · cases h

theorem keeps_disk (e : PageEngine) (files folders : List CStr) :
    Keeps e { e with os := { e.os with files := files, folders := folders } } := ⟨rfl, rfl, rfl, rfl, rfl⟩

@[simp] theorem ask_comm_self (e : PageEngine) (idx : ℕ) (pageNum : Int16) :
    (e.ask idx pageNum).comm idx = PageProvider.ask (e.comm idx) pageNum := setMsg_comm_self ..

theorem ask_comm_ne (e : PageEngine) (pageNum : Int16) (h : i ≠ idx) :
    (e.ask idx pageNum).comm i = e.comm i := setMsg_comm_ne e _ h

theorem Slots.ask (hs : Slots e) (idx : ℕ) (pageNum : Int16) : Slots (e.ask idx pageNum) :=
  hs.setMsg CommStatus.noConfusion

theorem Slots.apply (hs : Slots e) {event : Event} (h : e.apply event = some t) : Slots t := by
  cases event with
  | regClient name pid isWriter nano =>
    obtain rfl := Option.some.inj h
    exact hs.regClient name pid isWriter nano
  | regJournal name =>
    obtain rfl := Option.some.inj h
    exact hs.regJournal name
  | hold name idx dir jname =>
    obtain ⟨info, -, -, rfl⟩ := apply_hold h
    exact hs.setMsg CommStatus.noConfusion
  | exitClient name hashCode check =>
    obtain rfl := Option.some.inj h
    exact hs.exitClient name hashCode check
  | pidCheck dead =>
    obtain rfl := Option.some.inj h
    exact hs.pidCheck dead
  | tempPage addr =>
    obtain ⟨-, rfl⟩ := apply_tempPage h
    exact hs.keeps (keeps_tempPage e addr)
  | disk files folders =>
    obtain rfl := Option.some.inj h
    exact hs.keeps (keeps_disk e files folders)

theorem Slots.step (hs : Slots e) {a : Action} (h : e.step a = some t) : Slots t := by
  cases a with
  | event event => exact hs.apply h
  | request idx pageNum addr =>
    obtain ⟨-, -, rfl⟩ := step_request h
    exact (hs.ask idx pageNum).answer addr

end PageEngine

end Yijinjing
