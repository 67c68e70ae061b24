import Yijinjing.Journal.Timer
import Yijinjing.Paged.Wire

/-!
# The clocks of the processes

Every process makes its `NanoTimer` once.  It asks the page server for the difference between the unix time
and the monotonic clock, and takes the difference itself if it gets no answer; the server has made its own
timer the same way before it listens, so it may have asked the server it takes the socket from.  All
processes of a machine read the same monotonic clock.

A difference that has been taken once is handed on unchanged, from server to server and to the clients
(`Process.origin` says where it comes from), so the stamps of processes with the same origin are as far
apart as the instants they were taken at; and two differences that were both taken are nearly the same.
-/

namespace Yijinjing.Clocks

open Lib Wire

/-! ### The processes -/

/-- The json reader, for the texts of the server: `json::parse(text)["secDiff"].get<int64_t>()`, or `none` if
one of the three throws. -/
structure JsonReader where
  secDiff : CStr → Option Int64
  secDiff_dump : ∀ nano d, secDiff (dump nano d) = some d

theorem dump_eq (nano d : Int64) : dump nano d = "\x7b\"nano\":".toList ++
    (decimal nano.toInt ++ (",\"secDiff\"".toList ++ ':' :: (decimal d.toInt ++ "\x7d".toList))) := by
  have hmid : ",\"secDiff\":".toList = ",\"secDiff\"".toList ++ [':'] := by decide
  unfold dump
  rw [hmid]
  simp only [List.append_assoc, List.cons_append, List.nil_append]

/-- A reader that looks for the number behind the second colon. -/
instance : Inhabited JsonReader where
  default :=
    { secDiff := fun text => int64Of (atoi (((text.drop 8).dropWhile (· ≠ ':')).drop 1))
      secDiff_dump := fun nano d => by
        have hdrop : (dump nano d).drop 8 =
            decimal nano.toInt ++ (",\"secDiff\"".toList ++ ':' :: (decimal d.toInt ++ "\x7d".toList)) := by
          rw [dump_eq]
          exact List.drop_left' (by decide)
        have hnano : ∀ c ∈ decimal nano.toInt, decide (c ≠ ':') = true := by
          intro c hc
          refine decide_eq_true fun heq => ?_
          subst heq
          exact absurd (mem_decimal hc) (by decide)
        have hkey : ∀ c ∈ ",\"secDiff\"".toList, decide (c ≠ ':') = true :=
          List.forall_iff_forall_mem.mp (by decide)
        have hnumber : (((dump nano d).drop 8).dropWhile (· ≠ ':')).drop 1 = decimal d.toInt ++ "\x7d".toList := by
          rw [hdrop, List.dropWhile_append_of_pos hnano, List.dropWhile_append_of_pos hkey]
          rfl
        have hend : ∀ c ∈ "\x7d".toList.head?, c.isDigit = false := by
          intro c hc
          obtain rfl := Option.some.inj hc
          rfl
        rw [hnumber, atoi_decimal d.toInt hend]
        exact int64Of_eq_some.mpr rfl }

/-- A machine since it has been started. -/
structure Machine where
  json : JsonReader
  /-- `std::time(NULL)` when the monotonic clock shows so many nanoseconds; it may be set -/
  realTime : ℕ → Int64

/-- `clock_gettime(CLOCK_MONOTONIC)` -/
def monotonic (now : ℕ) : Timespec := ⟨Int64.ofNat (now / 10 ^ 9), Int64.ofNat (now % 10 ^ 9)⟩

structure Process where
  timer : NanoTimer
  /-- which of the differences that have been taken it has -/
  origin : ℕ

/-- A difference that has been taken: when the unix time was read, and when the monotonic clock was. -/
structure Taken where
  unixAt : ℕ
  tickAt : ℕ

/-- A time that `getNanoTime` has returned. -/
structure Stamp where
  process : Process
  nano : Int64
  takenAt : ℕ

structure State where
  /-- what the monotonic clock shows -/
  now : ℕ
  /-- the processes that have a timer -/
  processes : List Process
  /-- the process that listens at the socket -/
  server : Option ℕ
  taken : List Taken
  stamps : List Stamp

/-- What an exchange over the socket finds. -/
structure Connection where
  engine : PageEngine
  data : Mem
  input : Mem
  exchange : Exchange

inductive Action
  | wait (n : ℕ)
  /-- a process makes its timer; `conn` is there if it reaches the server, and `delay` is the time between the
  two clocks are read -/
  | start (conn : Option Connection) (delay : ℕ)
  /-- a process binds the socket -/
  | listen (i : ℕ)
  | stopListening
  /-- a process asks for the time -/
  | getNanoTime (i : ℕ)

/-- The exchange with this server, which answers with this time. -/
def Connection.with (conn : Connection) (nano : Int64) (p : Process) : Exchange :=
  { conn.exchange with server := { conn.exchange.server with nano := nano, secDiff := p.timer.secDiff } }

/-- The process whose server answers. -/
def State.answering (s : State) (conn : Option Connection) : Option (Connection × Process) := do
  let conn ← conn
  let i ← s.server
  let p ← s.processes[i]?
  return (conn, p)

variable (m : Machine)

/-- `get_socket_diff` -/
def socketDiff (conn : Connection) (nano : Int64) (p : Process) : Option Int64 := do
  let (text, _, _) ← getSocketDiff conn.engine conn.data conn.input (conn.with nano p)
  m.json.secDiff (CStr.ofBytes (← text))

/-- The constructor of `NanoTimer`, after `get_socket_diff` has thrown. -/
def startAlone (s : State) (delay : ℕ) : Option State :=
  if s.now + delay < 2 ^ 63 then
    (NanoTimer.create none (m.realTime s.now) (monotonic (s.now + delay))).map fun timer =>
      { s with
        now := s.now + delay
        processes := s.processes ++ [⟨timer, s.taken.length⟩]
        taken := s.taken ++ [⟨s.now, s.now + delay⟩] }
  else none

/-- `NanoTimer::getInstance`, the first time; the server reads its own clock for the answer. -/
def start (s : State) (answering : Option (Connection × Process)) (delay : ℕ) : Option State := do
  let some (conn, p) := answering | startAlone m s delay
  let nano ← p.timer.getNano (monotonic s.now)
  let some d := socketDiff m conn nano p | startAlone m s delay
  let timer ← NanoTimer.create (some d) (m.realTime s.now) (monotonic s.now)
  return { s with processes := s.processes ++ [⟨timer, p.origin⟩] }

/-- A step; there is none if an operation overflows. -/
def step (s : State) : Action → Option State
  | .wait n => if s.now + n < 2 ^ 63 then some { s with now := s.now + n } else none
  | .start conn delay => start m s (s.answering conn) delay
  | .listen i => if i < s.processes.length then some { s with server := some i } else none
  | .stopListening => some { s with server := none }
  | .getNanoTime i => do
    let p ← s.processes[i]?
    let nano ← p.timer.getNano (monotonic s.now)
    return { s with stamps := s.stamps ++ [⟨p, nano, s.now⟩] }

def clocks : System State Action := ⟨⟨0, [], none, [], []⟩, step m⟩

/-! ### Readings of the clocks -/

variable {m : Machine} {s t : State} {p : Process} {now : ℕ}

theorem getTimeNow_monotonic (h : now < 2 ^ 63) : ∃ nano, getTimeNow (monotonic now) = some nano ∧ nano.toInt = now := by
  have hsec : (Int64.ofNat (now / 10 ^ 9)).toInt = now / 10 ^ 9 := Int64.toInt_ofNat_of_lt (by omega)
  have hnsec : (Int64.ofNat (now % 10 ^ 9)).toInt = now % 10 ^ 9 := Int64.toInt_ofNat_of_lt (by omega)
  have hperSec : nanosecondsPerSecond.toInt = 10 ^ 9 := rfl
  obtain ⟨seconds, hs, hseconds⟩ : ∃ x, int64Of (now / 10 ^ 9 * 10 ^ 9 : ℤ) = some x ∧ x.toInt = now / 10 ^ 9 * 10 ^ 9 :=
    exists_int64Of (by omega) (by omega)
  obtain ⟨nano, hn, hnano⟩ : ∃ x, int64Of (now : ℤ) = some x ∧ x.toInt = now := exists_int64Of (by omega) (by omega)
  refine ⟨nano, ?_, hnano⟩
  have hsum : (now / 10 ^ 9 * 10 ^ 9 : ℤ) + (now % 10 ^ 9 : ℤ) = now := by omega
  unfold getTimeNow monotonic
  simp only [hsec, hnsec, hperSec, Option.bind_eq_bind, hs, Option.bind_some, hseconds, hsum, hn]

theorem getNano_monotonic (h : now < 2 ^ 63) {timer : NanoTimer} {nano : Int64} :
    timer.getNano (monotonic now) = some nano ↔ nano.toInt = now + timer.secDiff.toInt := by
  obtain ⟨tick, htick, hnow⟩ := getTimeNow_monotonic h
  rw [NanoTimer.getNano_iff htick, hnow]

/-- **The answer** of a server is its own difference. -/
theorem socketDiff_eq (conn : Connection) (nano : Int64) (p : Process) :
    socketDiff m conn nano p = some p.timer.secDiff := by
  obtain ⟨data, hanswer⟩ := getSocketDiff_spec conn.engine conn.data conn.input (conn.with nano p)
  unfold socketDiff
  rw [hanswer]
  show m.json.secDiff (CStr.ofBytes (CStr.toBytes (dump nano p.timer.secDiff))) = _
  rw [ofBytes_toBytes oneByte_dump, m.json.secDiff_dump]

/-- The difference that is taken when the clocks are read at these instants. -/
def Taken.diff (m : Machine) (t : Taken) : Option Int64 := getLocalDiff (m.realTime t.unixAt) (monotonic t.tickAt)

/-- The unix time goes as the monotonic clock does. -/
def Steady (m : Machine) (offset : ℤ) : Prop := ∀ now, (m.realTime now).toInt = (now + offset) / 10 ^ 9

/-- A difference that has been taken is off by less than a second, and by what has passed in between. -/
theorem Taken.diff_near {x : Taken} {offset : ℤ} {d : Int64} (hsteady : Steady m offset) (htick : x.tickAt < 2 ^ 63)
    (hw : SameWindow (m.realTime x.unixAt).toInt (x.tickAt / 10 ^ 9 : ℤ)) (hd : x.diff m = some d) :
    |d.toInt - (offset - (x.tickAt - x.unixAt))| < 10 ^ 9 := by
  obtain ⟨tick, hnow, htoInt⟩ := getTimeNow_monotonic htick
  have h0 : 0 ≤ tick := by
    rw [Int64.le_iff_toInt_le, htoInt]
    exact Int.natCast_nonneg _
  have hlow := hw.low
  have hhigh := hw.high
  obtain ⟨d', -, hd'⟩ := exists_int64Of (n := ((m.realTime x.unixAt).toInt - x.tickAt / 10 ^ 9) * 10 ^ 9)
    (by omega) (by omega)
  have htaken : x.diff m = some d' := (getLocalDiff_iff hnow h0 (htoInt ▸ hd')).mpr (htoInt ▸ hw)
  obtain rfl := Option.some.inj (hd.symm.trans htaken)
  rw [hd', hsteady x.unixAt, abs_lt]
  constructor
  · omega
  · omega

/-! ### All runs -/

/-- What holds of every reachable state. -/
structure Inv (m : Machine) (s : State) : Prop where
  now : s.now < 2 ^ 63
  taken : ∀ x ∈ s.taken, x.unixAt ≤ x.tickAt ∧ x.tickAt ≤ s.now
  /-- a process has the difference of its origin -/
  processes : ∀ p ∈ s.processes, ∃ x, s.taken[p.origin]? = some x ∧ x.diff m = some p.timer.secDiff
  stamps : ∀ a ∈ s.stamps, a.process ∈ s.processes ∧ a.takenAt ≤ s.now ∧
    a.nano.toInt = a.takenAt + a.process.timer.secDiff.toInt

theorem Inv.init (m : Machine) : Inv m (clocks m).init where
  now := Nat.two_pow_pos 63
  taken _ hx := nomatch hx
  processes _ hp := nomatch hp
  stamps _ ha := nomatch ha

theorem Inv.wait (hs : Inv m s) {n : ℕ} (h : s.now + n < 2 ^ 63) : Inv m { s with now := s.now + n } where
  now := h
  taken x hx := by
    obtain ⟨h1, h2⟩ := hs.taken x hx
    exact ⟨h1, Nat.le_add_right_of_le h2⟩
  processes := hs.processes
  stamps a ha := by
    obtain ⟨h1, h2, h3⟩ := hs.stamps a ha
    exact ⟨h1, Nat.le_add_right_of_le h2, h3⟩

/-- A process that has taken its own difference. -/
theorem Inv.startAlone (hs : Inv m s) {delay : ℕ} (h : startAlone m s delay = some t) : Inv m t := by
  unfold Clocks.startAlone at h
  split at h
  case isFalse => cases h
  rename_i hnow
  obtain ⟨timer, hcreate, rfl⟩ := Option.map_eq_some_iff.mp h
  obtain ⟨d, hdiff, rfl⟩ := Option.map_eq_some_iff.mp hcreate
  refine ⟨hnow, fun x hx => ?_, fun p hp => ?_, fun a ha => ?_⟩
  · rcases List.mem_append.mp hx with hx | hx
    · obtain ⟨h1, h2⟩ := hs.taken x hx
      exact ⟨h1, Nat.le_add_right_of_le h2⟩
    · obtain rfl := List.mem_singleton.mp hx
      exact ⟨Nat.le_add_right _ _, Nat.le_refl _⟩
  · rcases List.mem_append.mp hp with hp | hp
    · obtain ⟨x, hx, hd⟩ := hs.processes p hp
      obtain ⟨hlt, -⟩ := List.getElem?_eq_some_iff.mp hx
      exact ⟨x, (List.getElem?_append_left hlt).trans hx, hd⟩
    · obtain rfl := List.mem_singleton.mp hp
      exact ⟨_, List.getElem?_concat_length, hdiff⟩
  · obtain ⟨h1, h2, h3⟩ := hs.stamps a ha
    exact ⟨List.mem_append_left _ h1, Nat.le_add_right_of_le h2, h3⟩

/-- A process that has been handed the difference of the server. -/
theorem Inv.handed (hs : Inv m s) (hp : p ∈ s.processes) :
    Inv m { s with processes := s.processes ++ [⟨⟨p.timer.secDiff⟩, p.origin⟩] } where
  now := hs.now
  taken := hs.taken
  processes q hq := by
    rcases List.mem_append.mp hq with hq | hq
    · exact hs.processes q hq
    · obtain rfl := List.mem_singleton.mp hq
      exact hs.processes p hp
  stamps a ha := by
    obtain ⟨h1, h2⟩ := hs.stamps a ha
    exact ⟨List.mem_append_left _ h1, h2⟩

theorem Inv.stamp (hs : Inv m s) (hp : p ∈ s.processes) {nano : Int64}
    (hnano : p.timer.getNano (monotonic s.now) = some nano) :
    Inv m { s with stamps := s.stamps ++ [⟨p, nano, s.now⟩] } where
  now := hs.now
  taken := hs.taken
  processes := hs.processes
  stamps a ha := by
    rcases List.mem_append.mp ha with ha | ha
    · exact hs.stamps a ha
    · obtain rfl := List.mem_singleton.mp ha
      exact ⟨hp, Nat.le_refl _, (getNano_monotonic hs.now).mp hnano⟩

/-- Who reaches the server is handed its difference. -/
theorem start_answered {delay : ℕ} {conn : Connection} (h : start m s (some (conn, p)) delay = some t) :
    t = { s with processes := s.processes ++ [⟨⟨p.timer.secDiff⟩, p.origin⟩] } := by
  unfold start at h
  simp only [Option.bind_eq_bind, Option.bind_eq_some_iff, socketDiff_eq] at h
  obtain ⟨nano, -, timer, hcreate, ht⟩ := h
  obtain rfl := Option.some.inj hcreate
  exact (Option.some.inj ht).symm

theorem answering_mem {conn : Option Connection} {c : Connection} (h : s.answering conn = some (c, p)) :
    p ∈ s.processes := by
  unfold State.answering at h
  simp only [Option.bind_eq_bind, Option.bind_eq_some_iff] at h
  obtain ⟨_, -, i, -, q, hq, heq⟩ := h
  obtain ⟨-, rfl⟩ := Prod.mk.inj (Option.some.inj heq)
  exact List.mem_of_getElem? hq

theorem Inv.step {act : Action} (hs : Inv m s) (h : step m s act = some t) : Inv m t := by
  cases act with
  | wait n =>
    simp only [Clocks.step] at h
    split at h
    · obtain rfl := Option.some.inj h
      exact hs.wait ‹_›
    · cases h
  | start conn delay =>
    change start m s (s.answering conn) delay = some t at h
    cases hanswer : s.answering conn with
    | none =>
      rw [hanswer] at h
      exact hs.startAlone h
    | some a =>
      obtain ⟨c, p⟩ := a
      rw [hanswer] at h
      rw [start_answered h]
      exact hs.handed (answering_mem hanswer)
  | listen i =>
    simp only [Clocks.step] at h
    split at h
    · obtain rfl := Option.some.inj h
      exact ⟨hs.now, hs.taken, hs.processes, hs.stamps⟩
    · cases h
  | stopListening =>
    obtain rfl := Option.some.inj h
    exact ⟨hs.now, hs.taken, hs.processes, hs.stamps⟩
  | getNanoTime i =>
    simp only [Clocks.step, Option.bind_eq_bind, Option.bind_eq_some_iff] at h
    obtain ⟨p, hp, nano, hnano, ht⟩ := h
    obtain rfl := Option.some.inj ht
    exact hs.stamp (List.mem_of_getElem? hp) hnano

/-- What the stamps of the processes say about the time. -/
structure Agree (m : Machine) (s : State) : Prop where
  /-- stamps of one origin are as far apart as the instants they were taken at -/
  same : ∀ a ∈ s.stamps, ∀ b ∈ s.stamps, a.process.origin = b.process.origin →
    b.nano.toInt - a.nano.toInt = b.takenAt - a.takenAt
  /-- a process that reaches the server has the origin of the server -/
  handed : ∀ c p conn delay t, s.answering conn = some (c, p) → step m s (.start conn delay) = some t →
    ∃ timer, t.processes = s.processes ++ [⟨timer, p.origin⟩] ∧ timer.secDiff = p.timer.secDiff ∧ t.taken = s.taken
  /-- a stamp is the unix time, but for a second and the time between the readings of the two clocks -/
  near : ∀ offset, Steady m offset → ∀ a ∈ s.stamps, ∃ x, s.taken[a.process.origin]? = some x ∧
    (SameWindow (m.realTime x.unixAt).toInt (x.tickAt / 10 ^ 9 : ℤ) →
      |a.nano.toInt - (a.takenAt + offset - (x.tickAt - x.unixAt))| < 10 ^ 9)

theorem Inv.same (hs : Inv m s) {a b : Stamp} (ha : a ∈ s.stamps) (hb : b ∈ s.stamps)
    (h : a.process.origin = b.process.origin) : b.nano.toInt - a.nano.toInt = b.takenAt - a.takenAt := by
  obtain ⟨hpa, -, hnanoa⟩ := hs.stamps a ha
  obtain ⟨hpb, -, hnanob⟩ := hs.stamps b hb
  obtain ⟨x, hx, hdx⟩ := hs.processes _ hpa
  obtain ⟨y, hy, hdy⟩ := hs.processes _ hpb
  rw [h] at hx
  obtain rfl := Option.some.inj (hx.symm.trans hy)
  have hdiff := Option.some.inj (hdx.symm.trans hdy)
  rw [hnanoa, hnanob, hdiff]
  omega

theorem Inv.near (hs : Inv m s) {offset : ℤ} (hsteady : Steady m offset) {a : Stamp} (ha : a ∈ s.stamps) :
    ∃ x, s.taken[a.process.origin]? = some x ∧
      (SameWindow (m.realTime x.unixAt).toInt (x.tickAt / 10 ^ 9 : ℤ) →
        |a.nano.toInt - (a.takenAt + offset - (x.tickAt - x.unixAt))| < 10 ^ 9) := by
  obtain ⟨hp, -, hnano⟩ := hs.stamps a ha
  obtain ⟨x, hx, hdiff⟩ := hs.processes _ hp
  refine ⟨x, hx, fun hw => ?_⟩
  obtain ⟨-, htick⟩ := hs.taken x (List.mem_of_getElem? hx)
  have hnear := x.diff_near hsteady (htick.trans_lt hs.now) hw hdiff
  have hshift : a.nano.toInt - (a.takenAt + offset - (x.tickAt - x.unixAt)) =
      a.process.timer.secDiff.toInt - (offset - (x.tickAt - x.unixAt)) := by
    rw [hnano]
    omega
  rw [hshift]
  exact hnear

/-- **The clocks agree**: a difference that has been taken is handed on unchanged, and it is the true one but
for a second. -/
theorem clocks_agree (m : Machine) (as : List Action) : (clocks m).Always (Agree m) (clocks m).init as := by
  refine System.always_of_step (I := Inv m) (fun s act t hs ht => hs.step ht) ?_ as (Inv.init m)
  intro s hs
  refine ⟨fun a ha b hb h => hs.same ha hb h, ?_, fun offset hsteady a ha => hs.near hsteady ha⟩
  intro c p conn delay t hanswer ht
  change start m s (s.answering conn) delay = some t at ht
  rw [hanswer] at ht
  rw [start_answered ht]
  exact ⟨⟨p.timer.secDiff⟩, rfl, rfl, rfl⟩

end Yijinjing.Clocks
