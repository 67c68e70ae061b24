import Yijinjing.Journal.Seek
import Yijinjing.Paged.Registration
import Yijinjing.Paged.Grants

/-!
# A writer and its page server

The functions of a `JournalWriter` with the page server behind them.  Every page request is stored into
the slot of the writer and answered by the engine, and the call goes on with that answer; what happens
between two requests is the client's alone.  `served` is the system of one writer, from before it is
created until one of its calls throws, among the other users of the engine.

`env.files` are the page files of the journal as the client maps them and `engine.os` their names as the
server sees them, and the two need not be in step.  Nobody but the journal's writers changes `env.files`, and
while a writer lives no other writer of the journal is registered (`OnlyWriter`).
-/

namespace Yijinjing.Served

open Lib Prog

/-! ### The state of a call -/

/-- A rollover of the writer: the page it left and the one it went on to, and what the server and the
page files were like then. -/
structure Turn where
  pageNum : Int16
  newPageNum : Int16
  engine : PageEngine
  files : Files

structure Session where
  engine : PageEngine
  /-- `serviceIdx` -/
  idx : ℕ
  env : Env
  /-- the rollovers so far -/
  turns : List Turn

abbrev SessionM (α : Type) := Prog Error Session α

/-- The journal, and what is given from outside. -/
structure Setting where
  host : Host
  dir : CStr
  /-- where the operating system maps the next buffer of the server -/
  addr : PageEngine → ℕ
  fresh : ∀ e : PageEngine, addr e ∉ e.os.mapped

/-- A page of the journal, as the counts of the server know it. -/
def Setting.key (c : Setting) (n : Int16) : PageKey := ⟨c.dir, c.host.jname, n⟩

/-- What the client does between page requests. -/
def client {α : Type} (p : JournalM α) : SessionM α :=
  ExceptT.mk fun s => ((p.exec s.env).1, { s with env := (p.exec s.env).2 })

/-- The host of a call whose page request is answered so. -/
def answered (h : Host) (status : CommStatus) : Host :=
  { h with refuse := fun _ => if status = .allocated then none else some status }

variable (c : Setting)

/-- The stores of `PageProvider::getPage` into the slot, and the answer of the comm thread. -/
def request (n : Int16) : SessionM CommStatus := do
  let s ← get
  let engine := (s.engine.ask s.idx n).answer s.idx (c.addr s.engine)
  set { s with engine := engine }
  return (engine.comm s.idx).status

/-! ### `Journal` -/

/-- `Journal::seekTime` -/
def seekTime (time : Int64) : SessionM Bool := do
  let s ← get
  let status ← request c (Journal.soughtPageNum s.env.files time)
  client (Journal.seekTime (answered c.host status) time)

/-- The page number in the request of `loadNextPage`. -/
def nextPageNum : Option Page → Int16
  | none => 1
  | some p => p.pageNum + 1

/-- The rollover from a page is kept in mind. -/
def recordTurn (old : Option Page) : SessionM Unit := modify fun s =>
  match old, s.env.journal.curPage with
  | some p, some q => { s with turns := s.turns ++ [⟨p.pageNum, q.pageNum, s.engine, s.env.files⟩] }
  | _, _ => s

/-- `Journal::loadNextPage` -/
def loadNextPage : SessionM Unit := do
  let s ← get
  if s.env.journal.expired then
    return ()
  let status ← request c (nextPageNum s.env.journal.curPage)
  client (Journal.loadNextPage (answered c.host status))
  recordTurn s.env.journal.curPage

/-- The loop of `Journal::locateFrame` of a writer, for fewer than so many page changes. -/
def locateFrameLoop : ℕ → SessionM ℕ
  | 0 => throw .noEnd
  | fuel + 1 => do
    match ← client Journal.locateWritableFrame with
    | some a => return a
    | none =>
      loadNextPage c
      locateFrameLoop fuel

/-- `Journal::locateFrame` of a writer -/
def journalLocateFrame : SessionM (Option ℕ) := do
  let s ← get
  if s.env.journal.expired then
    return none
  return some (← locateFrameLoop c Journal.pageFuel)

/-! ### `JournalWriter` -/

/-- `journal->locateFrame()`, as a frame that is dereferenced. -/
def frameAddress : SessionM ℕ := do
  match ← journalLocateFrame c with
  | none => throw .nullPage
  | some a => return a

/-- `JournalWriter::seekEnd` -/
def seekEnd : SessionM Unit := do
  let _ ← seekTime c timeToLast
  let _ ← journalLocateFrame c

/-- `JournalWriter::create`, once the client and the journal are registered. -/
def create : SessionM Unit := do
  client (modify fun s => { s with journal := Journal.create true })
  seekEnd c

/-- `JournalWriter::write_frame` -/
def writeFrame (data : List UInt8) (msgType : Int16) (lastFlag : UInt8) : SessionM Int64 := do
  let nano ← client (getNanoTime c.host)
  let frame ← frameAddress c
  client do
    let n ← JournalWriter.curPageNum
    emit ((Frame.setMsgType msgType ++ Frame.setLastFlag lastFlag ++ Frame.setData c.host.autoHash data ++
      Frame.setNano nano ++ Frame.setStatusWritten).map (.frame n frame))
    Journal.passFrame
  return nano

/-- `JournalWriter::locateFrame` -/
def locateFrame : SessionM ℕ := do
  let nano ← client (getNanoTime c.host)
  let frame ← frameAddress c
  client do
    let n ← JournalWriter.curPageNum
    emit ((Frame.setNano nano).map (.frame n frame))
  return frame

/-- The user's copy of a payload to the data area of a frame. -/
def copyData (frame : ℕ) (data : List UInt8) : SessionM Unit := client (JournalWriter.copyData frame data)

/-- `JournalWriter::passFrame` -/
def passFrame (frame length : ℕ) (msgType : Int16) (lastFlag : UInt8) : SessionM Unit :=
  client (JournalWriter.passFrame c.host frame length msgType lastFlag)

/-! ### The system -/

inductive Phase
  /-- the writer is not there yet -/
  | before
  /-- the client has a writer, and no call of it has thrown -/
  | live (clientName : CStr)
  /-- a call has thrown -/
  | gone
  deriving DecidableEq

structure State where
  session : Session
  phase : Phase

/-- A public call of `JournalWriter`. -/
inductive Call
  | seekEnd
  | writeFrame (data : List UInt8) (msgType : Int16) (lastFlag : UInt8)
  | locateFrame
  | copyData (frame : ℕ) (data : List UInt8)
  | passFrame (frame length : ℕ) (msgType : Int16) (lastFlag : UInt8)

def Call.prog : Call → SessionM Unit
  | .seekEnd => Served.seekEnd c
  | .writeFrame data msgType lastFlag => do let _ ← Served.writeFrame c data msgType lastFlag
  | .locateFrame => do let _ ← Served.locateFrame c
  | .copyData frame data => Served.copyData frame data
  | .passFrame frame length msgType lastFlag => Served.passFrame c frame length msgType lastFlag

inductive Action
  /-- somebody else: another client, the server or the file system -/
  | others (a : PageEngine.Action)
  | create (clientName : CStr) (idx : ℕ)
  | call (call : Call)

/-- The slots of a client. -/
def slotsOf (e : PageEngine) (clientName : CStr) : List ℕ :=
  ((e.clientJournals.lookup clientName).map PageClientInfo.userIndexVec).getD []

/-- The slot is that of a writer of the journal. -/
def Writes (m : PageCommMsg) : Prop :=
  m.isWriter = true ∧ m.folder = c.dir ∧ m.name = c.host.jname ∧ m.status ≠ .raw ∧ m.status ≠ .occupied

instance (m : PageCommMsg) : Decidable (Writes c m) := by
  unfold Writes
  infer_instance

/-- Nobody else writes the journal. -/
def OnlyWriter (e : PageEngine) (idx : ℕ) : Prop := ∀ i ∈ e.owned, i ≠ idx → ¬ Writes c (e.comm i)

instance (e : PageEngine) (idx : ℕ) : Decidable (OnlyWriter c e idx) := by
  unfold OnlyWriter
  infer_instance

/-- The client has filled in the slot, and nobody else writes the journal. -/
def CanCreate (e : PageEngine) (clientName : CStr) (idx : ℕ) : Prop :=
  idx ∈ slotsOf e clientName ∧ Writes c (e.comm idx) ∧ (e.comm idx).status = .holding ∧ OnlyWriter c e idx

instance (e : PageEngine) (clientName : CStr) (idx : ℕ) : Decidable (CanCreate c e clientName idx) := by
  unfold CanCreate
  infer_instance

/-- The action asks for a page in the slot. -/
def asks (idx : ℕ) : PageEngine.Action → Bool
  | .request idx' _ _ => idx' == idx
  | .event _ => false

/-- As long as the writer is there, it is the only one, and its slot is its own. -/
def Leaves (s : State) (a : PageEngine.Action) (e : PageEngine) : Prop :=
  match s.phase with
  | .live clientName =>
    asks s.session.idx a = false ∧ s.session.idx ∈ slotsOf e clientName ∧ OnlyWriter c e s.session.idx
  | _ => True

instance (s : State) (a : PageEngine.Action) (e : PageEngine) : Decidable (Leaves c s a e) := by
  unfold Leaves
  split <;> infer_instance

/-- A call of the writer; a writer whose call throws is given up. -/
def execCall (s : State) (clientName : CStr) (p : SessionM Unit) : State :=
  match Prog.exec p s.session with
  | (.ok _, t) => ⟨t, .live clientName⟩
  | (.error _, t) => ⟨t, .gone⟩

def step (s : State) : Action → Option State
  | .others a =>
    match s.session.engine.step a with
    | none => none
    | some e => if Leaves c s a e then some ⟨{ s.session with engine := e }, s.phase⟩ else none
  | .create clientName idx =>
    if s.phase = .before ∧ CanCreate c s.session.engine clientName idx then
      some (execCall ⟨{ s.session with idx := idx }, s.phase⟩ clientName (create c))
    else none
  | .call call =>
    match s.phase with
    | .live clientName => some (execCall s clientName (call.prog c))
    | _ => none

/-- The engine has just started, and the journal has these page files. -/
def start (setup : Setup) (fs : Files) : State where
  session :=
    { engine := setup.engine
      idx := 0
      env := ⟨fs, 0, 0, 0, [], [], Journal.create true⟩
      turns := [] }
  phase := .before

/-- **A writer among the users of the page server.** -/
def served (setup : Setup) (fs : Files) : System State Action := ⟨start setup fs, step c⟩

end Yijinjing.Served
