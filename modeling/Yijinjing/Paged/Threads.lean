import Yijinjing.Paged.Polling

/-!
# The threads of the service

`PageEngine::start` creates the comm thread and the thread of the socket, and runs the tasks itself; a
signal, or the task of `page_service.cpp` that knows when to stop, ends the loop of the tasks, and
`stop_all` waits for the other two.  What they share is guarded by one mutex, but for the slots, which are
memory of the clients as well, and for the three flags.

A message is read from the socket and answered by the thread of the socket; reading and writing fail when
the client is gone, and as nobody catches that the process ends.
-/

namespace Yijinjing

namespace Threads

open Lib PageEngine

/-! ### The tasks -/

/-- What `localtime` gives of the time; a second can be 60. -/
structure TimeOfDay where
  hour : Fin 24
  minute : Fin 60
  second : Fin 61
  deriving DecidableEq

/-- Two digits. -/
def digits (n : ℕ) : CStr := [Nat.digitChar (n / 10), Nat.digitChar (n % 10)]

/-- `strftime` with the format `%H:%M:%S`. -/
def strftime (dt : TimeOfDay) : CStr := digits dt.hour ++ ':' :: (digits dt.minute ++ ':' :: digits dt.second)

/-- The tasks that there are: `PstPidCheck`, `PstTempPage` and `PstTimeCtrl`. -/
inductive Task where
  | pidCheck
  | tempPage
  | timeCtrl (stopTime : CStr)
  deriving DecidableEq

/-- What a task finds when it runs: which processes are gone, where a buffer would be mapped, and the
time. -/
structure Moment where
  dead : Int32 → Bool
  addr : ℕ
  dt : TimeOfDay

/-! ### The state -/

inductive Thread where
  | main | comm | socket
  deriving DecidableEq

/-- Where the main thread is in `start`, `start_task` and `stop_all`. -/
inductive MainPc where
  /-- `comm_running` is false, and the comm thread is created next -/
  | startComm
  | startSocket
  /-- the loop until both threads are running -/
  | await
  | testTask
  | lockTask
  /-- the mutex is held, and these tasks are left -/
  | runTasks (rest : List Task)
  | stopComm
  | joinComm
  | stopIo
  | joinSocket
  | done
  deriving DecidableEq

/-- Where the comm thread is in `start_comm`. -/
inductive CommAt where
  | absent
  | begin
  /-- the condition of the loop is tested next -/
  | test (idx : ℕ)
  | look (idx : ℕ)
  | lock (idx : ℕ)
  /-- the mutex is held -/
  | serve (idx : ℕ)
  /-- `idx = (idx + 1) % (maxIdx + 1)` is next -/
  | advance (idx : ℕ)
  | finished
  deriving DecidableEq

/-- What a client sends.  A request of any other type is answered without the engine. -/
inductive Message where
  | regJournal (clientName : CStr)
  | regClient (clientName : CStr) (pid : Int32) (isWriter : Bool) (nano : Int64)
  | clientExit (clientName : CStr) (hashCode : Int32)
  | other

/-- What `process_msg` does to the engine. -/
def Message.process (e : PageEngine) : Message → PageEngine
  | .regJournal name => (e.regJournal name).2
  | .regClient name pid isWriter nano => (e.regClient name pid isWriter nano).2
  | .clientExit name hashCode => e.exitClient name hashCode true
  | .other => e

/-- Where the thread of the socket is in `run` and `handle_accept`. -/
inductive SocketAt where
  | absent
  | begin
  | accept
  | read
  | lock (m : Message)
  /-- the mutex is held, here and while the answer is written -/
  | process (m : Message)
  | write
  | finished

end Threads

/-- The service as `page_service.cpp` sets it up. -/
structure Config where
  setup : Setup
  taskFreq : Int32
  stopTime : Option CStr

open Threads in
/-- The tasks by their names. -/
def Config.tasks (c : Config) : List Task := [.pidCheck, .tempPage] ++ c.stopTime.toList.map .timeCtrl

open Threads in
structure Threads where
  engine : PageEngine
  /-- who holds `paged_mtx` -/
  mutex : Option Thread
  isTaskRunning : Bool
  commRunning : Bool
  ioRunning : Bool
  /-- `_io->stop()` has been called -/
  ioStopped : Bool
  main : MainPc
  comm : CommAt
  socket : SocketAt
  /-- the process has been ended -/
  exited : Bool

namespace Threads

open Lib PageEngine

/-! ### The steps -/

/-- `go` of a task; a buffer is never mapped where another one is. -/
def Task.go (now : Moment) (s : Threads) : Task → Option Threads
  | .pidCheck => some { s with engine := s.engine.pidCheck now.dead }
  | .tempPage => (s.engine.apply (.tempPage now.addr)).map fun e => { s with engine := e }
  | .timeCtrl stopTime =>
    if stopTime < strftime now.dt then some { s with isTaskRunning := false } else some s

/-- A step of `start`, `start_task` or `stop_all`. -/
def stepMain (c : Config) (now : Moment) (s : Threads) : Option Threads :=
  match s.main with
  | .startComm => some { s with comm := .begin, main := .startSocket }
  | .startSocket => some { s with socket := .begin, main := .await }
  | .await =>
    if s.ioRunning && s.commRunning then
      if c.taskFreq ≤ 0 then some { s with exited := true } else some { s with main := .testTask }
    else some s
  | .testTask => if s.isTaskRunning then some { s with main := .lockTask } else some { s with main := .stopComm }
  | .lockTask =>
    if s.mutex = none then some { s with mutex := some .main, main := .runTasks c.tasks } else none
  | .runTasks (task :: rest) => (task.go now s).map fun t => { t with main := .runTasks rest }
  | .runTasks [] => some { s with mutex := none, main := .testTask }
  | .stopComm => some { s with commRunning := false, main := .joinComm }
  | .joinComm => if s.comm = .finished then some { s with main := .stopIo } else none
  | .stopIo => some { s with ioStopped := true, ioRunning := false, main := .joinSocket }
  | .joinSocket =>
    match s.socket with
    | .finished => some { s with main := .done }
    | _ => none
  | .done => none

/-- A step of `start_comm`. -/
def stepComm (addr : ℕ) (s : Threads) : Option Threads :=
  match s.comm with
  | .absent => none
  | .begin => some { s with commRunning := true, comm := .test 0 }
  | .test idx => if s.commRunning then some { s with comm := .look idx } else some { s with comm := .finished }
  | .look idx =>
    if (s.engine.comm idx).status = .requesting then some { s with comm := .lock idx }
    else some { s with comm := .advance idx }
  | .lock idx => if s.mutex = none then some { s with mutex := some .comm, comm := .serve idx } else none
  | .serve idx =>
    if addr ∈ s.engine.os.mapped then none
    else some { s with engine := s.engine.answer idx addr, mutex := none, comm := .advance idx }
  | .advance idx => some { s with comm := .test ((idx + 1) % (s.engine.maxIdx + 1)) }
  | .finished => none

/-- A step of the thread of the socket that waits for no client. -/
def stepSocket (s : Threads) : Option Threads :=
  match s.socket with
  | .absent => none
  | .begin => some { s with ioRunning := true, socket := .accept }
  | .accept => if s.ioStopped then some { s with socket := .finished } else none
  | .read => none
  | .lock m => if s.mutex = none then some { s with mutex := some .socket, socket := .process m } else none
  | .process m => some { s with engine := m.process s.engine, socket := .write }
  | .write => some { s with mutex := none, socket := .accept }
  | .finished => none

/-- What the clients and others do to the slots and the file system.  A client stores into its own slots
only, as the names it registers fit their fields. -/
inductive Store where
  | hold (clientName : CStr) (idx : ℕ) (dir jname : CStr)
  | storeNum (idx : ℕ) (pageNum : Int16)
  | storeStatus (idx : ℕ)
  | disk (files folders : List CStr)

def Store.apply (e : PageEngine) : Store → Option PageEngine
  | .hold name idx dir jname => e.apply (.hold name idx dir jname)
  | .storeNum idx pageNum =>
    if e.CanAsk idx then some (e.setMsg idx (PageProvider.storeNum (e.comm idx) pageNum)) else none
  | .storeStatus idx =>
    if e.CanAsk idx then some (e.setMsg idx (PageProvider.storeStatus (e.comm idx))) else none
  | .disk files folders => e.apply (.disk files folders)

inductive Action where
  | main (now : Moment)
  | comm (addr : ℕ)
  | socket
  /-- a client connects -/
  | connect
  | send (m : Message)
  /-- the client is gone, or the socket is closed, while the service reads or writes -/
  | fail
  /-- `signal_callback` -/
  | signal
  | store (store : Store)

/-- Whose step it is. -/
def Action.thread : Action → Option Thread
  | .main _ => some .main
  | .comm _ => some .comm
  | .socket => some .socket
  | _ => none

/-- A step of a process that runs. -/
def act (c : Config) (s : Threads) : Action → Option Threads
  | .main now => s.stepMain c now
  | .comm addr => s.stepComm addr
  | .socket => s.stepSocket
  | .connect =>
    match s.socket with
    | .accept => if s.ioStopped then none else some { s with socket := .read }
    | _ => none
  | .send m =>
    match s.socket with
    | .read => some { s with socket := .lock m }
    | _ => none
  | .fail =>
    match s.socket with
    | .read | .write => some { s with exited := true }
    | _ => none
  | .signal => if s.isTaskRunning then some { s with isTaskRunning := false } else some { s with exited := true }
  | .store st => (st.apply s.engine).map fun e => { s with engine := e }

def step (c : Config) (s : Threads) (a : Action) : Option Threads := if s.exited then none else s.act c a

end Threads

/-- The service when `start` has set up the communication file. -/
def Config.threads (c : Config) : Threads where
  engine := c.setup.engine
  mutex := none
  isTaskRunning := true
  commRunning := false
  ioRunning := false
  ioStopped := false
  main := .startComm
  comm := .absent
  socket := .absent
  exited := false

/-- **The service with its threads.** -/
def threads (c : Config) : Lib.System Threads Threads.Action := ⟨c.threads, Threads.step c⟩

namespace Threads

open Lib PageEngine

variable {c : Config} {s t : Threads} {a : Action} {now : Moment} {addr : ℕ}

/-! ### How far the threads are -/

@[grind =]
def MainPc.phase : MainPc → ℕ
  | startComm => 0
  | startSocket => 1
  | await => 2
  | testTask | lockTask | runTasks _ => 3
  | stopComm => 4
  | joinComm => 5
  | stopIo => 6
  | joinSocket => 7
  | done => 8

@[grind =]
def CommAt.phase : CommAt → ℕ
  | absent => 0
  | begin => 1
  | test _ | look _ | lock _ | serve _ | advance _ => 2
  | finished => 3

@[grind =]
def SocketAt.phase : SocketAt → ℕ
  | absent => 0
  | begin => 1
  | accept | read | lock _ | process _ | write => 2
  | finished => 3

/-- The thread is between `acquire_mutex` and `release_mutex`. -/
def Holds (s : Threads) : Thread → Prop
  | .main => ∃ rest, s.main = .runTasks rest
  | .comm => ∃ idx, s.comm = .serve idx
  | .socket => s.socket = .write ∨ ∃ m, s.socket = .process m

/-- The slot that the comm thread is at. -/
@[grind =]
def CommAt.slot : CommAt → ℕ
  | test idx | look idx | lock idx | serve idx | advance idx => idx
  | absent | begin | finished => 0

/-- The flags say how far the threads are. -/
structure InStep (s : Threads) : Prop where
  comm_created : 1 ≤ s.comm.phase ↔ 1 ≤ s.main.phase
  socket_created : 1 ≤ s.socket.phase ↔ 2 ≤ s.main.phase
  commRunning : s.commRunning = true ↔ 2 ≤ s.comm.phase ∧ s.main.phase ≤ 4
  ioRunning : s.ioRunning = true ↔ 2 ≤ s.socket.phase ∧ s.main.phase ≤ 6
  ioStopped : s.ioStopped = true ↔ 7 ≤ s.main.phase
  running : 3 ≤ s.main.phase → 2 ≤ s.comm.phase ∧ 2 ≤ s.socket.phase
  comm_finished : 3 ≤ s.comm.phase → 5 ≤ s.main.phase
  comm_joined : 6 ≤ s.main.phase → 3 ≤ s.comm.phase
  socket_finished : 3 ≤ s.socket.phase → 7 ≤ s.main.phase
  socket_joined : 8 ≤ s.main.phase → 3 ≤ s.socket.phase

/-- The mutex says who is in a critical section. -/
def Exclusive (s : Threads) : Prop := ∀ th, Holds s th ↔ s.mutex = some th

/-- What holds of every reachable state. -/
structure Inv (s : Threads) : Prop where
  slots : Slots s.engine
  slot_le : s.comm.slot ≤ s.engine.maxIdx
  maxIdx_lt : s.engine.maxIdx < maxCommUserNumber
  exclusive : Exclusive s
  inStep : InStep s

theorem Inv.start (c : Config) : Inv c.threads where
  slots := Slots.start
  slot_le := Nat.le_refl 0
  maxIdx_lt := (CommThread.Polls.start c.setup).maxIdx_lt
  exclusive th := by
    cases th <;> simp [Holds, Config.threads]
  inStep := by
    constructor <;> simp [Config.threads, MainPc.phase, CommAt.phase, SocketAt.phase]

/-! ### What a step has been -/

/-- What a step does to the engine. -/
inductive Touches (e e' : PageEngine) : Prop
  | same : e' = e → Touches e e'
  | event (event : Event) : e.apply event = some e' → Touches e e'
  | put (idx : ℕ) (msg : PageCommMsg) : msg.status ≠ .raw → e' = e.setMsg idx msg → Touches e e'
  | answer (idx addr : ℕ) : addr ∉ e.os.mapped → e' = e.answer idx addr → Touches e e'

theorem Task.touches {task : Task} (h : task.go now s = some t) :
    Touches s.engine t.engine ∧ ∃ b, t = { s with engine := t.engine, isTaskRunning := b } := by
  cases task with
  | pidCheck =>
    obtain rfl := Option.some.inj h
    exact ⟨.event (.pidCheck now.dead) rfl, _, rfl⟩
  | tempPage =>
    obtain ⟨e, he, rfl⟩ := Option.map_eq_some_iff.mp h
    exact ⟨.event _ he, _, rfl⟩
  | timeCtrl stopTime =>
    unfold Task.go at h
    dsimp only at h
    split at h
    · obtain rfl := Option.some.inj h
      exact ⟨.same rfl, _, rfl⟩
    · obtain rfl := Option.some.inj h
      exact ⟨.same rfl, _, rfl⟩

theorem Message.touches (e : PageEngine) (m : Message) : Touches e (m.process e) := by
  cases m with
  | regJournal name => exact .event (.regJournal name) rfl
  | regClient name pid isWriter nano => exact .event (.regClient name pid isWriter nano) rfl
  | clientExit name hashCode => exact .event (.exitClient name hashCode true) rfl
  | other => exact .same rfl

theorem Store.touches {e e' : PageEngine} {st : Store} (h : st.apply e = some e') : Touches e e' := by
  cases st with
  | hold name idx dir jname => exact .event (.hold name idx dir jname) h
  | storeNum idx pageNum =>
    unfold Store.apply at h
    dsimp only at h
    split at h
    · rename_i hcan
      refine .put idx _ (fun hraw => hcan.2 ?_) (Option.some.inj h).symm
      exact List.mem_cons.mpr (.inl hraw)
    · cases h
  | storeStatus idx =>
    unfold Store.apply at h
    dsimp only at h
    split at h
    · exact .put idx _ CommStatus.noConfusion (Option.some.inj h).symm
    · cases h
  | disk files folders => exact .event (.disk files folders) h

theorem Touches.slots {e e' : PageEngine} (h : Touches e e') (hs : Slots e) : Slots e' := by
  cases h with
  | same h => exact h ▸ hs
  | event event h => exact hs.apply h
  | put idx msg hraw h => exact h ▸ hs.setMsg hraw
  | answer idx addr _ h => exact h ▸ hs.answer addr

theorem Touches.raised {e e' : PageEngine} (h : Touches e e') : CommThread.Raised e e' := by
  cases h with
  | same h => exact .of_eq (h ▸ rfl)
  | event event h => exact CommThread.raised_apply h
  | put idx msg _ h => exact .of_eq (h ▸ rfl)
  | answer idx addr _ h => exact .of_eq (h ▸ (keeps_answer e idx addr).maxIdx)

theorem step_act (h : s.step c a = some t) : s.exited = false ∧ s.act c a = some t := by
  unfold step at h
  split at h
  · cases h
  · rename_i hex
    exact ⟨by simpa using hex, h⟩

theorem step_main (h : s.step c (.main now) = some t) : s.stepMain c now = some t := (step_act h).2

theorem step_comm (h : s.step c (.comm addr) = some t) : s.stepComm addr = some t := (step_act h).2

theorem step_socket (h : s.step c .socket = some t) : s.stepSocket = some t := (step_act h).2

theorem step_connect (h : s.step c .connect = some t) :
    s.socket = .accept ∧ s.ioStopped = false ∧ t = { s with socket := .read } := by
  replace h := (step_act h).2
  unfold act at h
  dsimp only at h
  split at h
  · rename_i hsock
    split at h
    · cases h
    · rename_i hio
      exact ⟨hsock, by simpa using hio, (Option.some.inj h).symm⟩
  · cases h

theorem step_send {m : Message} (h : s.step c (.send m) = some t) :
    s.socket = .read ∧ t = { s with socket := .lock m } := by
  replace h := (step_act h).2
  unfold act at h
  dsimp only at h
  split at h
  · rename_i hsock
    exact ⟨hsock, (Option.some.inj h).symm⟩
  · cases h

theorem step_fail (h : s.step c .fail = some t) : t = { s with exited := true } := by
  replace h := (step_act h).2
  unfold act at h
  dsimp only at h
  split at h
  · exact (Option.some.inj h).symm
  · exact (Option.some.inj h).symm
  · cases h

theorem step_signal (h : s.step c .signal = some t) :
    t = { s with isTaskRunning := false } ∨ t = { s with exited := true } := by
  replace h := (step_act h).2
  unfold act at h
  dsimp only at h
  split at h
  · exact .inl (Option.some.inj h).symm
  · exact .inr (Option.some.inj h).symm

theorem step_store {st : Store} (h : s.step c (.store st) = some t) :
    ∃ e, st.apply s.engine = some e ∧ t = { s with engine := e } := by
  obtain ⟨e, he, rfl⟩ := Option.map_eq_some_iff.mp (step_act h).2
  exact ⟨e, he, rfl⟩

/-! ### The flags and the mutex -/

theorem InStep.stepMain (hs : InStep s) (h : s.stepMain c now = some t) : InStep t := by
  obtain ⟨h1, h2, h3, h4, h5, h6, h7, h8, h9, h10⟩ := hs
  unfold Threads.stepMain at h
  cases hm : s.main with
  | runTasks rest =>
    simp only [hm] at h
    cases rest with
    | nil =>
      obtain rfl := Option.some.inj h
      constructor <;> grind
    | cons task rest =>
      obtain ⟨u, hu, rfl⟩ := Option.map_eq_some_iff.mp h
      obtain ⟨-, b, hb⟩ := Task.touches hu
      rw [hb]
      constructor <;> grind
  | _ =>
    simp only [hm] at h
    constructor <;> grind

theorem InStep.stepComm (hs : InStep s) (h : s.stepComm addr = some t) : InStep t := by
  obtain ⟨h1, h2, h3, h4, h5, h6, h7, h8, h9, h10⟩ := hs
  unfold Threads.stepComm at h
  cases hc : s.comm <;> simp only [hc] at h <;> constructor <;> grind

theorem InStep.stepSocket (hs : InStep s) (h : s.stepSocket = some t) : InStep t := by
  obtain ⟨h1, h2, h3, h4, h5, h6, h7, h8, h9, h10⟩ := hs
  unfold Threads.stepSocket at h
  cases hk : s.socket <;> simp only [hk] at h <;> constructor <;> grind

theorem InStep.socket (hs : InStep s) {at' : SocketAt} (h : at'.phase = s.socket.phase) :
    InStep { s with socket := at' } := by
  obtain ⟨h1, h2, h3, h4, h5, h6, h7, h8, h9, h10⟩ := hs
  constructor <;> grind

theorem InStep.step (hs : InStep s) (h : s.step c a = some t) : InStep t := by
  cases a with
  | main now => exact hs.stepMain (step_main h)
  | comm addr => exact hs.stepComm (step_comm h)
  | socket => exact hs.stepSocket (step_socket h)
  | connect =>
    obtain ⟨hsock, -, rfl⟩ := step_connect h
    exact hs.socket (by rw [hsock]; rfl)
  | send m =>
    obtain ⟨hsock, rfl⟩ := step_send h
    exact hs.socket (by rw [hsock]; rfl)
  | fail =>
    obtain rfl := step_fail h
    exact ⟨hs.1, hs.2, hs.3, hs.4, hs.5, hs.6, hs.7, hs.8, hs.9, hs.10⟩
  | signal =>
    obtain rfl | rfl := step_signal h
    · exact ⟨hs.1, hs.2, hs.3, hs.4, hs.5, hs.6, hs.7, hs.8, hs.9, hs.10⟩
    · exact ⟨hs.1, hs.2, hs.3, hs.4, hs.5, hs.6, hs.7, hs.8, hs.9, hs.10⟩
  | store st =>
    obtain ⟨e, -, rfl⟩ := step_store h
    exact ⟨hs.1, hs.2, hs.3, hs.4, hs.5, hs.6, hs.7, hs.8, hs.9, hs.10⟩

/-- Who is where, and who has the mutex. -/
theorem exclusive_iff : Exclusive s ↔ ((∃ rest, s.main = .runTasks rest) ↔ s.mutex = some .main) ∧
    ((∃ idx, s.comm = .serve idx) ↔ s.mutex = some .comm) ∧
    ((s.socket = .write ∨ ∃ m, s.socket = .process m) ↔ s.mutex = some .socket) := by
  refine ⟨fun h => ⟨h .main, h .comm, h .socket⟩, fun h th => ?_⟩
  cases th with
  | main => exact h.1
  | comm => exact h.2.1
  | socket => exact h.2.2

theorem Exclusive.stepMain (hs : Exclusive s) (hi : InStep s) (h : s.stepMain c now = some t) : Exclusive t := by
  have hcomm := hi.comm_created
  have hsocket := hi.socket_created
  rw [exclusive_iff] at hs ⊢
  unfold Threads.stepMain at h
  cases hm : s.main with
  | runTasks rest =>
    simp only [hm] at h
    cases rest with
    | nil => grind
    | cons task rest =>
      obtain ⟨u, hu, rfl⟩ := Option.map_eq_some_iff.mp h
      obtain ⟨-, b, hb⟩ := Task.touches hu
      rw [hb]
      grind
  | _ =>
    simp only [hm] at h
    grind

theorem Exclusive.stepComm (hs : Exclusive s) (h : s.stepComm addr = some t) : Exclusive t := by
  rw [exclusive_iff] at hs ⊢
  unfold Threads.stepComm at h
  cases hc : s.comm <;> simp only [hc] at h <;> grind

theorem Exclusive.stepSocket (hs : Exclusive s) (h : s.stepSocket = some t) : Exclusive t := by
  rw [exclusive_iff] at hs ⊢
  unfold Threads.stepSocket at h
  cases hk : s.socket <;> simp only [hk] at h <;> grind

theorem Exclusive.step (hs : Exclusive s) (hi : InStep s) (h : s.step c a = some t) : Exclusive t := by
  cases a with
  | main now => exact hs.stepMain hi (step_main h)
  | comm addr => exact hs.stepComm (step_comm h)
  | socket => exact hs.stepSocket (step_socket h)
  | connect =>
    obtain ⟨hsock, -, rfl⟩ := step_connect h
    rw [exclusive_iff] at hs ⊢
    grind
  | send m =>
    obtain ⟨hsock, rfl⟩ := step_send h
    rw [exclusive_iff] at hs ⊢
    grind
  | fail =>
    obtain rfl := step_fail h
    exact exclusive_iff.mpr (exclusive_iff.mp hs)
  | signal =>
    obtain rfl | rfl := step_signal h
    · exact exclusive_iff.mpr (exclusive_iff.mp hs)
    · exact exclusive_iff.mpr (exclusive_iff.mp hs)
  | store st =>
    obtain ⟨e, -, rfl⟩ := step_store h
    exact exclusive_iff.mpr (exclusive_iff.mp hs)

/-! ### The engine -/

/-- The data of the engine itself are the same; the slots and the file system are not only its own. -/
structure SameServer (e e' : PageEngine) : Prop where
  clientJournals : e'.clientJournals = e.clientJournals
  pidClient : e'.pidClient = e.pidClient
  fileWriterCounts : e'.fileWriterCounts = e.fileWriterCounts
  fileReaderCounts : e'.fileReaderCounts = e.fileReaderCounts
  fileAddrs : e'.fileAddrs = e.fileAddrs
  maxIdx : e'.maxIdx = e.maxIdx

theorem SameServer.refl (e : PageEngine) : SameServer e e := ⟨rfl, rfl, rfl, rfl, rfl, rfl⟩

theorem SameServer.trans {e e' e'' : PageEngine} (h : SameServer e e') (h' : SameServer e' e'') :
    SameServer e e'' :=
  ⟨h'.1.trans h.1, h'.2.trans h.2, h'.3.trans h.3, h'.4.trans h.4, h'.5.trans h.5, h'.6.trans h.6⟩

theorem Store.sameServer {e e' : PageEngine} {st : Store} (h : st.apply e = some e') : SameServer e e' := by
  cases st with
  | hold name idx dir jname =>
    obtain ⟨info, -, -, rfl⟩ := apply_hold h
    exact ⟨rfl, rfl, rfl, rfl, rfl, rfl⟩
  | storeNum idx pageNum | storeStatus idx =>
    unfold Store.apply at h
    dsimp only at h
    split at h
    · obtain rfl := Option.some.inj h
      exact ⟨rfl, rfl, rfl, rfl, rfl, rfl⟩
    · cases h
  | disk files folders =>
    obtain rfl := Option.some.inj h
    exact ⟨rfl, rfl, rfl, rfl, rfl, rfl⟩

theorem touches_main (h : s.stepMain c now = some t) :
    Touches s.engine t.engine ∧ (t.engine = s.engine ∨ Holds s .main) := by
  unfold stepMain at h
  cases hm : s.main with
  | runTasks rest =>
    refine ⟨?_, .inr ⟨rest, hm⟩⟩
    simp only [hm] at h
    cases rest with
    | nil =>
      obtain rfl := Option.some.inj h
      exact .same rfl
    | cons task rest =>
      obtain ⟨u, hu, rfl⟩ := Option.map_eq_some_iff.mp h
      exact (Task.touches hu).1
  | _ =>
    have hsame : t.engine = s.engine := by
      simp only [hm] at h
      grind
    exact ⟨.same hsame, .inl hsame⟩

theorem touches_comm (h : s.stepComm addr = some t) :
    Touches s.engine t.engine ∧ (t.engine = s.engine ∨ Holds s .comm) := by
  unfold stepComm at h
  cases hc : s.comm with
  | serve idx =>
    refine ⟨?_, .inr ⟨idx, hc⟩⟩
    simp only [hc] at h
    split at h
    · cases h
    · rename_i hfresh
      obtain rfl := Option.some.inj h
      exact .answer idx addr hfresh rfl
  | _ =>
    have hsame : t.engine = s.engine := by
      simp only [hc] at h
      grind
    exact ⟨.same hsame, .inl hsame⟩

theorem touches_socket (h : s.stepSocket = some t) :
    Touches s.engine t.engine ∧ (t.engine = s.engine ∨ Holds s .socket) := by
  unfold stepSocket at h
  cases hk : s.socket with
  | process m =>
    refine ⟨?_, .inr (.inr ⟨m, hk⟩)⟩
    simp only [hk] at h
    obtain rfl := Option.some.inj h
    exact Message.touches s.engine m
  | _ =>
    have hsame : t.engine = s.engine := by
      simp only [hk] at h
      grind
    exact ⟨.same hsame, .inl hsame⟩

/-- **What a step does to the engine**, and who does it. -/
theorem touches_step (h : s.step c a = some t) : Touches s.engine t.engine ∧
    (SameServer s.engine t.engine ∨ ∃ th, a.thread = some th ∧ Holds s th) := by
  have own : ∀ {th : Thread}, a.thread = some th →
      Touches s.engine t.engine ∧ (t.engine = s.engine ∨ Holds s th) → Touches s.engine t.engine ∧
        (SameServer s.engine t.engine ∨ ∃ th, a.thread = some th ∧ Holds s th) := by
    rintro th hth ⟨ht, hsame | hholds⟩
    · exact ⟨ht, .inl (hsame ▸ .refl _)⟩
    · exact ⟨ht, .inr ⟨th, hth, hholds⟩⟩
  cases a with
  | main now => exact own rfl (touches_main (step_main h))
  | comm addr => exact own rfl (touches_comm (step_comm h))
  | socket => exact own rfl (touches_socket (step_socket h))
  | connect =>
    obtain ⟨-, -, rfl⟩ := step_connect h
    exact ⟨.same rfl, .inl (.refl _)⟩
  | send m =>
    obtain ⟨-, rfl⟩ := step_send h
    exact ⟨.same rfl, .inl (.refl _)⟩
  | fail =>
    obtain rfl := step_fail h
    exact ⟨.same rfl, .inl (.refl _)⟩
  | signal =>
    obtain rfl | rfl := step_signal h
    · exact ⟨.same rfl, .inl (.refl _)⟩
    · exact ⟨.same rfl, .inl (.refl _)⟩
  | store st =>
    obtain ⟨e, he, rfl⟩ := step_store h
    exact ⟨Store.touches he, .inl (Store.sameServer he)⟩

/-- Only the comm thread moves on, and `start` puts it at the first slot. -/
theorem slot_step (hi : InStep s) (hs : s.comm.slot ≤ s.engine.maxIdx) (h : s.step c a = some t) :
    t.comm.slot ≤ t.engine.maxIdx := by
  have hle := (touches_step h).1.raised.le
  have hcreated := hi.comm_created
  have hother : t.comm = s.comm ∨ t.comm = .begin → t.comm.slot ≤ t.engine.maxIdx := by
    rintro (hsame | hbegin)
    · rw [hsame]
      exact hs.trans hle
    · rw [hbegin]
      exact Nat.zero_le _
  cases a with
  | main now =>
    refine hother ?_
    have hm := step_main h
    unfold stepMain at hm
    cases hmain : s.main with
    | runTasks rest =>
      simp only [hmain] at hm
      cases rest with
      | nil => grind
      | cons task rest =>
        obtain ⟨u, hu, rfl⟩ := Option.map_eq_some_iff.mp hm
        obtain ⟨-, b, hb⟩ := Task.touches hu
        rw [hb]
        exact .inl rfl
    | _ =>
      simp only [hmain] at hm
      grind
  | comm addr =>
    have hc := step_comm h
    unfold stepComm at hc
    cases hcomm : s.comm with
    | advance idx =>
      simp only [hcomm] at hc
      obtain rfl := Option.some.inj hc
      exact Nat.le_of_lt_succ (Nat.mod_lt _ (Nat.succ_pos _))
    | _ =>
      simp only [hcomm] at hc hs
      grind
  | socket =>
    refine hother (.inl ?_)
    have hk := step_socket h
    unfold stepSocket at hk
    cases hsocket : s.socket <;> simp only [hsocket] at hk <;> grind
  | connect =>
    obtain ⟨-, -, rfl⟩ := step_connect h
    exact hs
  | send m =>
    obtain ⟨-, rfl⟩ := step_send h
    exact hs
  | fail =>
    obtain rfl := step_fail h
    exact hs
  | signal =>
    obtain rfl | rfl := step_signal h
    · exact hs
    · exact hs
  | store st =>
    obtain ⟨e, -, rfl⟩ := step_store h
    exact hother (.inl rfl)

/-- **One step keeps the invariant.** -/
theorem Inv.step (hs : Inv s) (h : s.step c a = some t) : Inv t where
  slots := (touches_step h).1.slots hs.slots
  slot_le := slot_step hs.inStep hs.slot_le h
  maxIdx_lt := (touches_step h).1.raised.lt hs.maxIdx_lt
  exclusive := hs.exclusive.step hs.inStep h
  inStep := hs.inStep.step h

/-! ### Who may do what -/

/-- The mutex does what it is for, and the comm thread reads slots that there are. -/
structure Guarded (c : Config) (s : Threads) : Prop where
  one_holder : ∀ th th', Holds s th → Holds s th' → th = th'
  /-- the data of the engine are changed by the thread that has the mutex only -/
  owner : ∀ a t, s.step c a = some t →
    SameServer s.engine t.engine ∨ ∃ th, a.thread = some th ∧ s.mutex = some th
  in_bounds : s.comm.slot < maxCommUserNumber
  ownership : CommThread.SlotOwnership s.engine

theorem Inv.guarded (hs : Inv s) : Guarded c s where
  one_holder th th' h h' := Option.some.inj (((hs.exclusive th).mp h).symm.trans ((hs.exclusive th').mp h'))
  owner a t h := by
    rcases (touches_step h).2 with hsame | ⟨th, hth, hholds⟩
    · exact .inl hsame
    · exact .inr ⟨th, hth, (hs.exclusive th).mp hholds⟩
  in_bounds := Nat.lt_of_le_of_lt hs.slot_le hs.maxIdx_lt
  ownership := .of_slots hs.slots

/-- **Mutual exclusion**, in every interleaving of the threads, the clients and the signals. -/
theorem mutual_exclusion (c : Config) (as : List Action) : (threads c).Always (Guarded c) c.threads as :=
  System.always_of_step (I := Inv) (fun _ _ _ hs h => hs.step h) (fun _ hs => hs.guarded) as (Inv.start c)

end Threads

end Yijinjing
