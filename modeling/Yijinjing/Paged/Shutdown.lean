import Yijinjing.Paged.Threads

/-!
# The end of the service

A signal, or `PstTimeCtrl` when its time has come, ends the loop of the tasks (`stops_when_asked`).  Then
the main thread tells the comm thread to stop and waits for it, and does the same with the thread of the
socket.  No thread waits for another for ever: each has so many steps to go (`mainRank`, `commRank`,
`socketRank`), and there is always one that can take the next, unless a client has connected and sends
nothing (`shutdown`).
-/

namespace Yijinjing

namespace Threads

open Lib PageEngine

variable {c : Config} {s t : Threads} {a : Action} {now : Moment} {addr : ℕ}

/-! ### The time of the day -/

/-- The order of the times of a day. -/
def TimeOfDay.Before (t u : TimeOfDay) : Prop :=
  t.hour < u.hour ∨ t.hour = u.hour ∧ (t.minute < u.minute ∨ t.minute = u.minute ∧ t.second < u.second)

theorem digitChar_lt_iff {m n : ℕ} (hm : m < 10) (hn : n < 10) : m.digitChar < n.digitChar ↔ m < n := by
  have hall : ∀ m n : Fin 10, m.val.digitChar < n.val.digitChar ↔ m < n := by decide
  exact hall ⟨m, hm⟩ ⟨n, hn⟩

theorem digitChar_inj {m n : ℕ} (hm : m < 10) (hn : n < 10) : m.digitChar = n.digitChar ↔ m = n := by
  have hall : ∀ m n : Fin 10, m.val.digitChar = n.val.digitChar ↔ m = n := by decide
  exact (hall ⟨m, hm⟩ ⟨n, hn⟩).trans (by simp)

/-- Two digits and what follows them, as strings. -/
theorem digits_append_lt_iff {m n : ℕ} (hm : m < 100) (hn : n < 100) (xs ys : CStr) :
    digits m ++ xs < digits n ++ ys ↔ m < n ∨ m = n ∧ xs < ys := by
  have hm' : m / 10 < 10 := by omega
  have hn' : n / 10 < 10 := by omega
  simp only [digits, List.cons_append, List.nil_append, List.cons_lt_cons_iff]
  rw [digitChar_lt_iff hm' hn', digitChar_inj hm' hn', digitChar_lt_iff (by omega) (by omega),
    digitChar_inj (by omega) (by omega)]
  constructor
  · rintro (h | ⟨h, h' | ⟨h', h''⟩⟩)
    · exact .inl (by omega)
    · exact .inl (by omega)
    · exact .inr ⟨by omega, h''⟩
  · rintro (h | ⟨rfl, h⟩)
    · omega
    · exact .inr ⟨rfl, .inr ⟨rfl, h⟩⟩

/-- **The comparison of strings is that of times.** -/
theorem strftime_lt_iff (t u : TimeOfDay) : strftime t < strftime u ↔ t.Before u := by
  have hlast : digits t.second < digits u.second ↔ t.second < u.second := by
    have h := digits_append_lt_iff (m := t.second) (n := u.second) (by omega) (by omega) [] []
    simpa using h
  unfold strftime TimeOfDay.Before
  rw [digits_append_lt_iff (by omega) (by omega), List.cons_lt_cons_iff,
    digits_append_lt_iff (by omega) (by omega), List.cons_lt_cons_iff, hlast]
  simp [Fin.ext_iff]

/-! ### How many steps are left -/

/-- The steps that the main thread takes until it is done, when no more tasks are to be run. -/
@[grind =]
def mainRank (c : Config) : MainPc → ℕ
  | .startComm => 10 + c.tasks.length
  | .startSocket => 9 + c.tasks.length
  | .await => 8 + c.tasks.length
  | .lockTask => 7 + c.tasks.length
  | .runTasks rest => 6 + rest.length
  | .testTask => 5
  | .stopComm => 4
  | .joinComm => 3
  | .stopIo => 2
  | .joinSocket => 1
  | .done => 0

/-- The steps that the comm thread takes until it is finished, once it is to stop. -/
@[grind =]
def commRank : CommAt → ℕ
  | .absent => 7
  | .begin => 6
  | .look _ => 5
  | .lock _ => 4
  | .serve _ => 3
  | .advance _ => 2
  | .test _ => 1
  | .finished => 0

/-- The steps of the thread of the socket until it is finished, once it is to stop. -/
@[grind =]
def socketRank : SocketAt → ℕ
  | .absent => 7
  | .begin => 6
  | .read => 5
  | .lock _ => 4
  | .process _ => 3
  | .write => 2
  | .accept => 1
  | .finished => 0

def isMain : Action → Bool
  | .main _ => true
  | _ => false

def isComm : Action → Bool
  | .comm _ => true
  | _ => false

/-- What the thread of the socket does, its clients included. -/
def isSocket : Action → Bool
  | .socket | .connect | .send _ => true
  | _ => false

theorem stepComm_leaves (h : s.stepComm addr = some t) :
    t.main = s.main ∧ t.socket = s.socket ∧ t.isTaskRunning = s.isTaskRunning := by
  unfold stepComm at h
  cases hc : s.comm <;> simp only [hc] at h <;> grind

theorem stepSocket_leaves (h : s.stepSocket = some t) :
    t.main = s.main ∧ t.comm = s.comm ∧ t.isTaskRunning = s.isTaskRunning := by
  unfold stepSocket at h
  cases hk : s.socket <;> simp only [hk] at h <;> grind

/-- What a step of the main thread does to the others, once they are running. -/
structure Leaves (s t : Threads) : Prop where
  comm : t.comm = s.comm
  socket : t.socket = s.socket
  phase : s.main.phase ≤ t.main.phase
  isTaskRunning : s.isTaskRunning = false → t.isTaskRunning = false

theorem stepMain_leaves (hp : 2 ≤ s.main.phase) (h : s.stepMain c now = some t) : Leaves s t := by
  unfold stepMain at h
  cases hm : s.main with
  | runTasks rest =>
    simp only [hm] at h
    cases rest with
    | nil => constructor <;> grind
    | cons task rest =>
      obtain ⟨u, hu, rfl⟩ := Option.map_eq_some_iff.mp h
      refine ⟨?_, ?_, by rw [hm]; exact Nat.le_refl _, ?_⟩
      · obtain ⟨-, b, hb⟩ := Task.touches hu
        rw [hb]
      · obtain ⟨-, b, hb⟩ := Task.touches hu
        rw [hb]
      · intro hstop
        cases task with
        | pidCheck =>
          obtain rfl := Option.some.inj hu
          exact hstop
        | tempPage =>
          obtain ⟨e, -, rfl⟩ := Option.map_eq_some_iff.mp hu
          exact hstop
        | timeCtrl stopTime =>
          unfold Task.go at hu
          grind
  | _ =>
    simp only [hm] at h hp
    constructor <;> grind

/-- **A step of the main thread when no more tasks are to be run.** -/
theorem stepMain_rank (hp : 3 ≤ s.main.phase) (hstop : s.isTaskRunning = false) (h : s.stepMain c now = some t) :
    mainRank c t.main + 1 ≤ mainRank c s.main := by
  unfold stepMain at h
  cases hm : s.main with
  | runTasks rest =>
    simp only [hm] at h
    cases rest with
    | nil => grind
    | cons task rest =>
      obtain ⟨u, -, rfl⟩ := Option.map_eq_some_iff.mp h
      simp only [mainRank, List.length_cons]
      omega
  | _ =>
    simp only [hm] at h hp
    grind

theorem stepComm_rank (hp : 2 ≤ s.comm.phase) (hstop : s.commRunning = false) (h : s.stepComm addr = some t) :
    commRank t.comm + 1 ≤ commRank s.comm := by
  unfold stepComm at h
  cases hc : s.comm <;> simp only [hc] at h hp <;> grind

theorem stepSocket_rank (h : s.stepSocket = some t) (hp : 2 ≤ s.socket.phase) :
    socketRank t.socket + 1 ≤ socketRank s.socket := by
  unfold stepSocket at h
  cases hk : s.socket <;> simp only [hk] at h hp <;> grind

/-- What the others do is nothing to the main thread, and only a signal is anything to its loop. -/
theorem main_eq (h : s.step c a = some t) (ha : isMain a = false) :
    t.main = s.main ∧ (a = .signal ∨ t.isTaskRunning = s.isTaskRunning) := by
  cases a with
  | main now => cases ha
  | comm addr =>
    obtain ⟨hm, -, hr⟩ := stepComm_leaves (step_comm h)
    exact ⟨hm, .inr hr⟩
  | socket =>
    obtain ⟨hm, -, hr⟩ := stepSocket_leaves (step_socket h)
    exact ⟨hm, .inr hr⟩
  | connect =>
    obtain ⟨-, -, rfl⟩ := step_connect h
    exact ⟨rfl, .inr rfl⟩
  | send m =>
    obtain ⟨-, rfl⟩ := step_send h
    exact ⟨rfl, .inr rfl⟩
  | fail =>
    obtain rfl := step_fail h
    exact ⟨rfl, .inr rfl⟩
  | signal => obtain rfl | rfl := step_signal h <;> exact ⟨rfl, .inl rfl⟩
  | store st =>
    obtain ⟨e, -, rfl⟩ := step_store h
    exact ⟨rfl, .inr rfl⟩

/-- A signal ends the loop of the tasks, or the process. -/
theorem signal_stops (h : s.step c .signal = some t) : t.isTaskRunning = false := by
  have hact := (step_act h).2
  unfold act at hact
  dsimp only at hact
  split at hact
  · obtain rfl := Option.some.inj hact
    rfl
  · rename_i hstop
    obtain rfl := Option.some.inj hact
    simpa using hstop

/-- The main thread goes on by its own steps only, and `is_task_running` is not set again. -/
theorem step_later (hp : 2 ≤ s.main.phase) (h : s.step c a = some t) :
    s.main.phase ≤ t.main.phase ∧ (s.isTaskRunning = false → t.isTaskRunning = false) := by
  cases ha : isMain a with
  | true =>
    cases a with
    | main now =>
      have hl := stepMain_leaves hp (step_main h)
      exact ⟨hl.phase, hl.isTaskRunning⟩
    | _ => cases ha
  | false =>
    obtain ⟨hm, rfl | hr⟩ := main_eq h ha
    · exact ⟨by rw [hm], fun _ => signal_stops h⟩
    · exact ⟨by rw [hm], fun hstop => hr.trans hstop⟩

theorem comm_eq (hp : 2 ≤ s.main.phase) (h : s.step c a = some t) (ha : isComm a = false) : t.comm = s.comm := by
  cases a with
  | main now => exact (stepMain_leaves hp (step_main h)).comm
  | comm addr => cases ha
  | socket => exact (stepSocket_leaves (step_socket h)).2.1
  | connect =>
    obtain ⟨-, -, rfl⟩ := step_connect h
    rfl
  | send m =>
    obtain ⟨-, rfl⟩ := step_send h
    rfl
  | fail =>
    obtain rfl := step_fail h
    rfl
  | signal => obtain rfl | rfl := step_signal h <;> rfl
  | store st =>
    obtain ⟨e, -, rfl⟩ := step_store h
    rfl

/-- **The steps of the socket**: once the io service is stopped nobody connects. -/
theorem socket_rank (hi : InStep s) (hp : 7 ≤ s.main.phase) (h : s.step c a = some t) :
    socketRank t.socket + (isSocket a).toNat ≤ socketRank s.socket := by
  have hrun := hi.running (by omega)
  cases a with
  | main now =>
    rw [(stepMain_leaves (by omega) (step_main h)).socket]
    exact Nat.le_refl _
  | comm addr =>
    rw [(stepComm_leaves (step_comm h)).2.1]
    exact Nat.le_refl _
  | socket => exact stepSocket_rank (step_socket h) hrun.2
  | connect =>
    obtain ⟨-, hio, -⟩ := step_connect h
    rw [hi.ioStopped.mpr hp] at hio
    cases hio
  | send m =>
    obtain ⟨hread, rfl⟩ := step_send h
    rw [hread]
    exact Nat.le_refl _
  | fail =>
    obtain rfl := step_fail h
    exact Nat.le_refl _
  | signal => obtain rfl | rfl := step_signal h <;> exact Nat.le_refl _
  | store st =>
    obtain ⟨e, -, rfl⟩ := step_store h
    exact Nat.le_refl _

/-- **The steps of the comm thread**, once it is to stop. -/
theorem comm_rank (hi : InStep s) (hp : 5 ≤ s.main.phase) (h : s.step c a = some t) :
    commRank t.comm + (isComm a).toNat ≤ commRank s.comm := by
  cases ha : isComm a with
  | true =>
    obtain ⟨addr, rfl⟩ : ∃ addr, a = .comm addr := by
      cases a <;> first | exact ⟨_, rfl⟩ | cases ha
    have hstop : s.commRunning = false := by
      rw [← Bool.not_eq_true, hi.commRunning]
      omega
    exact stepComm_rank (hi.running (by omega)).1 hstop (step_comm h)
  | false =>
    rw [comm_eq (by omega) h ha]
    exact Nat.le_refl _

/-- **The steps of the main thread**, once no more tasks are to be run. -/
theorem main_rank (hp : 3 ≤ s.main.phase) (hstop : s.isTaskRunning = false) (h : s.step c a = some t) :
    mainRank c t.main + (isMain a).toNat ≤ mainRank c s.main := by
  cases ha : isMain a with
  | true =>
    obtain ⟨now, rfl⟩ : ∃ now, a = .main now := by
      cases a <;> first | exact ⟨_, rfl⟩ | cases ha
    exact stepMain_rank hp hstop (step_main h)
  | false =>
    rw [(main_eq h ha).1]
    exact Nat.le_refl _

/-! ### Who can go on -/

/-- A thread of the service can take a step. -/
def CanGoOn (c : Config) (s : Threads) : Prop := ∃ a th, a.thread = some th ∧ (s.step c a).isSome

theorem canGoOn_main (hex : s.exited = false) (h : ∃ now, (s.stepMain c now).isSome) : CanGoOn c s := by
  obtain ⟨now, h⟩ := h
  refine ⟨.main now, .main, rfl, ?_⟩
  unfold step
  rwa [hex, if_neg Bool.false_ne_true]

theorem canGoOn_comm (hex : s.exited = false) (h : ∃ addr, (s.stepComm addr).isSome) : CanGoOn c s := by
  obtain ⟨addr, h⟩ := h
  refine ⟨.comm addr, .comm, rfl, ?_⟩
  unfold step
  rwa [hex, if_neg Bool.false_ne_true]

theorem canGoOn_socket (hex : s.exited = false) (h : s.stepSocket.isSome) : CanGoOn c s := by
  refine ⟨.socket, .socket, rfl, ?_⟩
  unfold step
  rwa [hex, if_neg Bool.false_ne_true]

/-- **The thread that has the mutex can go on.** -/
theorem canGoOn_of_mutex (hs : Inv s) (hex : s.exited = false) {th : Thread} (hm : s.mutex = some th) :
    CanGoOn c s := by
  obtain ⟨addr, hfresh⟩ := CommThread.exists_addr s.engine
  have hholds := (hs.exclusive th).mpr hm
  cases th with
  | main =>
    obtain ⟨rest, hrest⟩ := hholds
    refine canGoOn_main hex ⟨⟨fun _ => false, addr, ⟨0, 0, 0⟩⟩, ?_⟩
    unfold stepMain
    simp only [hrest]
    cases rest with
    | nil => rfl
    | cons task rest =>
      cases task with
      | pidCheck => rfl
      | tempPage => simp [Task.go, PageEngine.apply, hfresh]
      | timeCtrl stopTime =>
        unfold Task.go
        dsimp only
        split <;> rfl
  | comm =>
    obtain ⟨idx, hidx⟩ := hholds
    refine canGoOn_comm hex ⟨addr, ?_⟩
    unfold stepComm
    simp only [hidx, if_neg hfresh]
    rfl
  | socket =>
    refine canGoOn_socket hex ?_
    unfold stepSocket
    rcases hholds with hw | ⟨m, hw⟩ <;> rw [hw] <;> rfl

/-- **Only a client can hold up the service**, and only at the very end. -/
theorem canGoOn (hs : Inv s) (hex : s.exited = false) (hdone : s.main ≠ .done) :
    CanGoOn c s ∨ s.main = .joinSocket ∧ s.socket = .read := by
  cases hm : s.mutex with
  | some th => exact .inl (canGoOn_of_mutex hs hex hm)
  | none =>
    obtain ⟨addr, hfresh⟩ := CommThread.exists_addr s.engine
    let now : Moment := ⟨fun _ => false, addr, ⟨0, 0, 0⟩⟩
    have hfree : ∀ th, ¬ Holds s th := fun th h => by
      rw [(hs.exclusive th).mp h] at hm
      cases hm
    have hi := hs.inStep
    cases hmain : s.main with
    | runTasks rest => exact absurd ⟨rest, hmain⟩ (hfree .main)
    | done => exact absurd hmain hdone
    | joinComm =>
      -- the comm thread is finished, or it can go on without the mutex
      have hrun := (hi.running (by rw [hmain]; decide)).1
      cases hc : s.comm with
      | serve idx => exact absurd ⟨idx, hc⟩ (hfree .comm)
      | finished => exact .inl (canGoOn_main hex ⟨now, by simp [stepMain, hmain, hc]⟩)
      | absent | begin => rw [hc] at hrun; exact absurd hrun (by decide)
      | test idx =>
        refine .inl (canGoOn_comm hex ⟨addr, ?_⟩)
        unfold stepComm
        simp only [hc]
        split <;> rfl
      | look idx =>
        refine .inl (canGoOn_comm hex ⟨addr, ?_⟩)
        unfold stepComm
        simp only [hc]
        split <;> rfl
      | lock idx => exact .inl (canGoOn_comm hex ⟨addr, by simp [stepComm, hc, hm]⟩)
      | advance idx => exact .inl (canGoOn_comm hex ⟨addr, by simp [stepComm, hc]⟩)
    | joinSocket =>
      have hrun := (hi.running (by rw [hmain]; decide)).2
      have hio := hi.ioStopped.mpr (by rw [hmain]; decide)
      cases hk : s.socket with
      | read => exact .inr ⟨rfl, rfl⟩
      | write => exact absurd (.inl hk) (hfree .socket)
      | process m => exact absurd (.inr ⟨m, hk⟩) (hfree .socket)
      | absent | begin => rw [hk] at hrun; exact absurd hrun (by decide)
      | accept => exact .inl (canGoOn_socket hex (by simp [stepSocket, hk, hio]))
      | lock m => exact .inl (canGoOn_socket hex (by simp [stepSocket, hk, hm]))
      | finished => exact .inl (canGoOn_main hex ⟨now, by simp [stepMain, hmain, hk]⟩)
    | lockTask => exact .inl (canGoOn_main hex ⟨now, by simp [stepMain, hmain, hm]⟩)
    | await =>
      refine .inl (canGoOn_main hex ⟨now, ?_⟩)
      unfold stepMain
      simp only [hmain]
      split
      · split <;> rfl
      · rfl
    | testTask =>
      refine .inl (canGoOn_main hex ⟨now, ?_⟩)
      unfold stepMain
      simp only [hmain]
      split <;> rfl
    | startComm | startSocket | stopComm | stopIo =>
      exact .inl (canGoOn_main hex ⟨now, by simp [stepMain, hmain]⟩)

/-! ### Shutdown -/

/-- How the service ends. -/
structure Ends (c : Config) (s : Threads) : Prop where
  /-- once `is_task_running` is false the main thread is done after so many steps -/
  main_steps : s.isTaskRunning = false → 3 ≤ s.main.phase → ∀ as u, (threads c).run s as = some u →
    as.countP isMain + mainRank c u.main ≤ mainRank c s.main
  /-- once `comm_running` is false the comm thread is -/
  comm_steps : 5 ≤ s.main.phase → ∀ as u, (threads c).run s as = some u →
    as.countP isComm + commRank u.comm ≤ commRank s.comm
  /-- once the io service is stopped the thread of the socket is, with the client it is serving -/
  socket_steps : 7 ≤ s.main.phase → ∀ as u, (threads c).run s as = some u →
    as.countP isSocket + socketRank u.socket ≤ socketRank s.socket
  /-- the threads never wait for each other; a client that is connected and silent holds up the end -/
  no_deadlock : s.exited = false → s.main ≠ .done →
    CanGoOn c s ∨ s.main = .joinSocket ∧ s.socket = .read
  /-- `stop_all` returns when both threads are finished, and nothing changes the engine after that -/
  done : s.main = .done → s.comm = .finished ∧ s.socket = .finished ∧ s.mutex = none ∧
    ∀ as u, (threads c).run s as = some u → SameServer s.engine u.engine

theorem comm_of_phase {at' : CommAt} (h : 3 ≤ at'.phase) : at' = .finished := by
  cases at' <;> first | rfl | exact absurd h (by simp [CommAt.phase])

theorem socket_of_phase {at' : SocketAt} (h : 3 ≤ at'.phase) : at' = .finished := by
  cases at' <;> first | rfl | exact absurd h (by simp [SocketAt.phase])

/-- When the main thread is done, so are the others, and nobody has the mutex. -/
theorem Inv.all_done (hs : Inv s) (hd : s.main = .done) :
    s.comm = .finished ∧ s.socket = .finished ∧ ∀ th, ¬ Holds s th := by
  have hi := hs.inStep
  have hph : s.main.phase = 8 := by rw [hd]; rfl
  have hc := comm_of_phase (hi.comm_joined (by omega))
  have hk := socket_of_phase (hi.socket_joined (by omega))
  refine ⟨hc, hk, fun th => ?_⟩
  cases th with
  | main =>
    rintro ⟨rest, hrest⟩
    rw [hd] at hrest
    cases hrest
  | comm =>
    rintro ⟨idx, hidx⟩
    rw [hc] at hidx
    cases hidx
  | socket =>
    rintro (hw | ⟨m, hw⟩) <;> rw [hk] at hw <;> cases hw

/-- Nothing happens to the engine when all threads are done. -/
theorem done_step (hs : Inv s) (hd : s.main = .done) (h : s.step c a = some t) :
    t.main = .done ∧ SameServer s.engine t.engine := by
  obtain ⟨-, -, hfree⟩ := hs.all_done hd
  have hmain : isMain a = false := by
    cases ha : isMain a with
    | false => rfl
    | true =>
      cases a with
      | main now =>
        have hm := step_main h
        unfold stepMain at hm
        rw [hd] at hm
        cases hm
      | _ => cases ha
  refine ⟨(main_eq h hmain).1.trans hd, ?_⟩
  rcases (touches_step h).2 with hsame | ⟨th, -, hholds⟩
  · exact hsame
  · exact absurd hholds (hfree th)

theorem Inv.ends (hs : Inv s) : Ends c s where
  main_steps hstop hp as u hr :=
    System.ticks_le (M := threads c) (I := fun s => s.isTaskRunning = false ∧ 3 ≤ s.main.phase)
      (fun _ _ _ hI h => ⟨⟨(step_later (by omega) h).2 hI.1, hI.2.trans (step_later (by omega) h).1⟩,
        main_rank hI.2 hI.1 h⟩) ⟨hstop, hp⟩ hr
  comm_steps hp as u hr :=
    System.ticks_le (M := threads c) (I := fun s => InStep s ∧ 5 ≤ s.main.phase)
      (fun _ _ _ hI h => ⟨⟨hI.1.step h, hI.2.trans (step_later (by omega) h).1⟩, comm_rank hI.1 hI.2 h⟩)
      ⟨hs.inStep, hp⟩ hr
  socket_steps hp as u hr :=
    System.ticks_le (M := threads c) (I := fun s => InStep s ∧ 7 ≤ s.main.phase)
      (fun _ _ _ hI h => ⟨⟨hI.1.step h, hI.2.trans (step_later (by omega) h).1⟩, socket_rank hI.1 hI.2 h⟩)
      ⟨hs.inStep, hp⟩ hr
  no_deadlock hex hdone := canGoOn hs hex hdone
  done hd := by
    obtain ⟨hc, hk, hfree⟩ := hs.all_done hd
    refine ⟨hc, hk, ?_, fun as u hr => ?_⟩
    · cases hm : s.mutex with
      | none => rfl
      | some th => exact absurd ((hs.exclusive th).mpr hm) (hfree th)
    · have hinv := System.run_invariant (M := threads c)
        (I := fun u => Inv u ∧ u.main = .done ∧ SameServer s.engine u.engine)
        (fun _ _ _ hI h => ⟨hI.1.step h, (done_step hI.1 hI.2.1 h).1, hI.2.2.trans (done_step hI.1 hI.2.1 h).2⟩)
        ⟨hs, hd, .refl _⟩ hr
      exact hinv.2.2

/-- **The service ends in order.** -/
theorem shutdown (c : Config) (as : List Action) : (threads c).Always (Ends c) c.threads as :=
  System.always_of_step (I := Inv) (fun _ _ _ hs h => hs.step h) (fun _ hs => hs.ends) as (Inv.start c)

/-! ### What stops the service -/

/-- The step clears `is_task_running`: a signal does, and `PstTimeCtrl` when its time has passed. -/
def Asks (c : Config) (s : Threads) : Action → Prop
  | .signal => s.isTaskRunning = true
  | .main now => ∃ stopTime rest, c.stopTime = some stopTime ∧ s.main = .runTasks (.timeCtrl stopTime :: rest) ∧
      stopTime < strftime now.dt
  | _ => False

/-- The tasks that are left in a turn are the last ones. -/
def TurnLeft (c : Config) (s : Threads) : Prop := ∀ rest, s.main = .runTasks rest → rest <:+ c.tasks

theorem mem_tasks {stopTime : CStr} (h : Task.timeCtrl stopTime ∈ c.tasks) : c.stopTime = some stopTime := by
  unfold Config.tasks at h
  cases hc : c.stopTime with
  | none => simp [hc] at h
  | some stop =>
    simp only [hc, Option.toList_some, List.map_cons, List.map_nil, List.mem_append, List.mem_cons,
      List.not_mem_nil, or_false, reduceCtorEq, false_or, Task.timeCtrl.injEq] at h
    rw [h]

theorem tasks_of_stopTime {stopTime : CStr} (h : c.stopTime = some stopTime) : Task.timeCtrl stopTime ∈ c.tasks := by
  simp [Config.tasks, h]

theorem turnLeft_stepMain (hs : TurnLeft c s) (h : s.stepMain c now = some t) : TurnLeft c t := by
  unfold stepMain at h
  cases hm : s.main with
  | runTasks rest =>
    simp only [hm] at h
    cases rest with
    | nil =>
      obtain rfl := Option.some.inj h
      exact fun _ hrest => nomatch hrest
    | cons task rest =>
      obtain ⟨u, -, rfl⟩ := Option.map_eq_some_iff.mp h
      rintro rest' hrest
      obtain rfl := MainPc.runTasks.inj hrest
      exact (List.suffix_cons task rest).trans (hs _ hm)
  | lockTask =>
    simp only [hm] at h
    split at h
    · obtain rfl := Option.some.inj h
      rintro rest hrest
      obtain rfl := MainPc.runTasks.inj hrest
      exact List.suffix_rfl
    · cases h
  | _ =>
    simp only [hm] at h
    intro rest hrest
    grind

theorem turnLeft_step (hs : TurnLeft c s) (h : s.step c a = some t) : TurnLeft c t := by
  cases ha : isMain a with
  | true =>
    cases a with
    | main now => exact turnLeft_stepMain hs (step_main h)
    | _ => cases ha
  | false =>
    intro rest hrest
    exact hs rest ((main_eq h ha).1.symm.trans hrest)

theorem task_running {task : Task} (h : task.go now s = some t) : t.isTaskRunning = false ↔
    s.isTaskRunning = false ∨ ∃ stopTime, task = .timeCtrl stopTime ∧ stopTime < strftime now.dt := by
  cases task with
  | pidCheck =>
    obtain rfl := Option.some.inj h
    simp
  | tempPage =>
    obtain ⟨e, -, rfl⟩ := Option.map_eq_some_iff.mp h
    simp
  | timeCtrl stopTime =>
    unfold Task.go at h
    dsimp only at h
    split at h
    · rename_i hlt
      obtain rfl := Option.some.inj h
      exact iff_of_true rfl (.inr ⟨stopTime, rfl, hlt⟩)
    · rename_i hge
      obtain rfl := Option.some.inj h
      simp [hge]

theorem stepMain_running (hs : TurnLeft c s) (h : s.stepMain c now = some t) :
    t.isTaskRunning = false ↔ s.isTaskRunning = false ∨ Asks c s (.main now) := by
  have hmain : ∀ rest, s.main = .runTasks rest → (Asks c s (.main now) ↔
      ∃ stopTime rest', rest = .timeCtrl stopTime :: rest' ∧ stopTime < strftime now.dt) := by
    intro rest hrest
    constructor
    · rintro ⟨stopTime, rest', -, hrest', hlt⟩
      exact ⟨stopTime, rest', MainPc.runTasks.inj (hrest.symm.trans hrest'), hlt⟩
    · rintro ⟨stopTime, rest', rfl, hlt⟩
      exact ⟨stopTime, rest', mem_tasks ((hs _ hrest).subset List.mem_cons_self), hrest, hlt⟩
  have hnone : (∀ rest, s.main ≠ .runTasks rest) → ¬ Asks c s (.main now) := fun hne ⟨_, _, _, hrest, _⟩ =>
    hne _ hrest
  unfold stepMain at h
  cases hm : s.main with
  | runTasks rest =>
    rw [hmain rest hm]
    simp only [hm] at h
    cases rest with
    | nil =>
      obtain rfl := Option.some.inj h
      simp
    | cons task rest =>
      obtain ⟨u, hu, rfl⟩ := Option.map_eq_some_iff.mp h
      rw [task_running hu]
      refine or_congr_right ⟨fun ⟨stopTime, htask, hlt⟩ => ⟨stopTime, rest, by rw [htask], hlt⟩, ?_⟩
      rintro ⟨stopTime, rest', hcons, hlt⟩
      exact ⟨stopTime, (List.cons.inj hcons).1, hlt⟩
  | _ =>
    have hno := hnone (by rw [hm]; exact fun _ => MainPc.noConfusion)
    simp only [hm] at h
    grind

/-- **One step ends the loop of the tasks exactly when it asks for it.** -/
theorem step_running (hs : TurnLeft c s) (h : s.step c a = some t) :
    t.isTaskRunning = false ↔ s.isTaskRunning = false ∨ Asks c s a := by
  cases ha : isMain a with
  | true =>
    cases a with
    | main now => exact stepMain_running hs (step_main h)
    | _ => cases ha
  | false =>
    obtain ⟨-, rfl | hr⟩ := main_eq h ha
    · refine iff_of_true (signal_stops h) ?_
      cases hrun : s.isTaskRunning with
      | true => exact .inr hrun
      | false => exact .inl rfl
    · rw [hr]
      cases a with
      | main now => cases ha
      | signal =>
        have hstop := signal_stops h
        rw [hr] at hstop
        exact iff_of_true hstop (.inl hstop)
      | _ => exact ⟨.inl, fun hor => hor.resolve_right id⟩

/-- A turn of the loop of the tasks, when the time has come: `PstTimeCtrl` is still to run, or has run. -/
def Turn (stopTime : CStr) (s : Threads) : Prop := s.isTaskRunning = false ∨ s.main = .lockTask ∨
  ∃ rest, s.main = .runTasks rest ∧ .timeCtrl stopTime ∈ rest

theorem Turn.step {stopTime : CStr} (hc : c.stopTime = some stopTime) (hT : TurnLeft c s) (hs : Turn stopTime s)
    (hlate : ∀ now, a = .main now → stopTime < strftime now.dt) (h : s.step c a = some t) : Turn stopTime t := by
  rcases hs with hstop | hturn
  · exact .inl ((step_running hT h).mpr (.inl hstop))
  · cases ha : isMain a with
    | false => exact .inr (by rwa [(main_eq h ha).1])
    | true =>
      cases a with
      | main now =>
        have hm := step_main h
        unfold stepMain at hm
        rcases hturn with hlock | ⟨rest, hrest, hmem⟩
        · simp only [hlock] at hm
          split at hm
          · obtain rfl := Option.some.inj hm
            exact .inr (.inr ⟨c.tasks, rfl, tasks_of_stopTime hc⟩)
          · cases hm
        · simp only [hrest] at hm
          cases rest with
          | nil => cases hmem
          | cons task rest =>
            rcases List.mem_cons.mp hmem with rfl | hmem
            · exact .inl ((step_running hT h).mpr (.inr ⟨stopTime, rest, hc, hrest, hlate now rfl⟩))
            · obtain ⟨u, -, rfl⟩ := Option.map_eq_some_iff.mp hm
              exact .inr (.inr ⟨rest, rfl, hmem⟩)
      | _ => cases ha

/-- When the loop of the tasks ends. -/
structure Stops (c : Config) (s : Threads) : Prop where
  asked : ∀ as t, (threads c).run s as = some t → (t.isTaskRunning = false ↔ s.isTaskRunning = false ∨
    ∃ bs a cs u, as = bs ++ a :: cs ∧ (threads c).run s bs = some u ∧ Asks c u a)
  /-- one turn after the stop time is enough -/
  turn : ∀ stopTime as t, c.stopTime = some stopTime → s.main = .lockTask → (threads c).run s as = some t →
    (threads c).EachStep (fun _ a => ∀ now, a = .main now → stopTime < strftime now.dt) s as →
    t.main = .testTask → t.isTaskRunning = false

theorem TurnLeft.stops (hs : TurnLeft c s) : Stops c s where
  asked as t hr := System.run_latch (M := threads c) (I := TurnLeft c) (L := fun s => s.isTaskRunning = false)
    (fun _ _ _ hs h => turnLeft_step hs h) (fun _ _ _ hs h => step_running hs h) hs hr
  turn stopTime as t hc hlock hr hlate hend := by
    have hall := System.always_of_eachStep (M := threads c) (I := fun s => TurnLeft c s ∧ Turn stopTime s)
      (P := Turn stopTime) (fun _ _ _ hI hC h => ⟨turnLeft_step hI.1 h, hI.2.step hc hI.1 hC h⟩) (fun _ hI => hI.2)
      as ⟨hs, .inr (.inl hlock)⟩ hlate
    rcases hall.at_end hr with hstop | hlock' | ⟨rest, hrest, -⟩
    · exact hstop
    · rw [hend] at hlock'
      cases hlock'
    · rw [hend] at hrest
      cases hrest

/-- **The service stops when it is asked to**: by a signal, or when the time of the day is past the stop
time, in the first turn of the tasks after it. -/
theorem stops_when_asked : (∀ stop now : TimeOfDay, strftime stop < strftime now ↔ stop.Before now) ∧
    ∀ (c : Config) (as : List Action), (threads c).Always (Stops c) c.threads as :=
  ⟨strftime_lt_iff, fun c as => System.always_of_step (I := TurnLeft c) (fun _ _ _ hs h => turnLeft_step hs h)
    (fun _ hs => hs.stops) as fun _ hrest => nomatch hrest⟩

end Threads

end Yijinjing
