import Yijinjing.Journal.Calls
import Yijinjing.Lib.Coupling

/-!
# The two page providers

`PageProvider` is implemented twice: `ClientPageProvider.cpp` asks the page service, `LocalPageProvider.cpp`
maps the page file itself.  The functions of a journal are linked with one or the other (`Linked`; with the
service they are those of `Journal`).  As long as the service grants what it is asked for, nobody can tell the
difference: whatever the processes that use the journal call, and in whatever order, each call returns or
throws the same, and the page files are the same (`providers_agree`).
-/

namespace Yijinjing

open Lib Prog

/-- What a journal is linked with. -/
structure Provider where
  getPage : Bool → Int16 → JournalM (Option Page)
  releasePage : Page → JournalM Unit

/-- `ClientPageProvider.cpp` -/
def Provider.client (h : Host) : Provider := ⟨Yijinjing.getPage h, Yijinjing.releasePage⟩

/-- `LocalPageProvider.cpp` -/
def Provider.local (h : Host) : Provider := ⟨Page.load h, Yijinjing.releasePage⟩

namespace Linked

variable (h : Host) (provider : Provider)

/-! ### The functions of a journal -/

def releaseCurPage : JournalM Unit := do
  match (← get).journal.curPage with
  | some p => provider.releasePage p
  | none => return ()

def seekPage (time : Int64) : JournalM Unit := do
  let s ← get
  if time = timeToLast then
    setCurPage (← provider.getPage s.journal.isWriting (Journal.lastPageNum s.files))
    scanCurPage fun b p => p.passWrittenFrame b
  else if time = timeFromFirst then
    setCurPage (← provider.getPage s.journal.isWriting (Journal.firstPageNum s.files))
  else
    setCurPage (← provider.getPage s.journal.isWriting (getPageNumWithTime s.files time))
    scanCurPage fun b p => p.passToTime b time

def seekTime (time : Int64) : JournalM Bool := do
  releaseCurPage provider
  seekPage provider time
  let s ← get
  set (s.setExpired s.journal.curPage.isNone)
  return s.journal.curPage.isSome

def loadNextPage : JournalM Unit := do
  let s ← get
  if s.journal.expired then
    return ()
  match s.journal.curPage with
  | none => setCurPage (← provider.getPage s.journal.isWriting 1)
  | some p =>
    let newPage ← provider.getPage s.journal.isWriting (p.pageNum + 1)
    if s.journal.isWriting then
      p.finishPage h
    provider.releasePage p
    setCurPage newPage

def expire : JournalM Unit := do
  let s ← get
  if !s.journal.expired then
    set (s.setExpired true)
    releaseCurPage provider
    setCurPage none
    let _ ← provider.getPage s.journal.isWriting (-1)

def locateFrameLoop : ℕ → JournalM ℕ
  | 0 => throw .noEnd
  | fuel + 1 => do
    match ← Journal.locateWritableFrame with
    | some a => return a
    | none =>
      loadNextPage h provider
      locateFrameLoop fuel

def turnPage : JournalM Unit := do
  let s ← get
  match s.journal.curPage with
  | some p => if p.isAtPageEnd (s.files.buffer p.pageNum) then loadNextPage h provider
  | none => loadNextPage h provider

def locateFrame : JournalM (Option ℕ) := do
  let s ← get
  if s.journal.expired then
    return none
  if s.journal.isWriting then
    return some (← locateFrameLoop h provider Journal.pageFuel)
  else
    turnPage h provider
    let s ← get
    match s.journal.curPage with
    | some p => return p.locateReadableFrame (s.files.buffer p.pageNum)
    | none => return none

/-! ### The functions of a writer and of a reader -/

def frameAddress : JournalM ℕ := do
  match ← locateFrame h provider with
  | none => throw .nullPage
  | some a => return a

def seekEnd : JournalM Unit := do
  let _ ← seekTime provider timeToLast
  let _ ← locateFrame h provider

def create : JournalM Unit := do
  modify fun s => { s with journal := Journal.create true }
  seekEnd h provider

def writeFrame (data : List UInt8) (msgType : Int16) (lastFlag : UInt8) : JournalM Int64 := do
  let nano ← getNanoTime h
  let frame ← frameAddress h provider
  let n ← JournalWriter.curPageNum
  emit ((Frame.setMsgType msgType ++ Frame.setLastFlag lastFlag ++ Frame.setData h.autoHash data ++
    Frame.setNano nano ++ Frame.setStatusWritten).map (.frame n frame))
  Journal.passFrame
  return nano

def locateWriterFrame : JournalM ℕ := do
  let nano ← getNanoTime h
  let frame ← frameAddress h provider
  let n ← JournalWriter.curPageNum
  emit ((Frame.setNano nano).map (.frame n frame))
  return frame

def getNextFrame : JournalM (Option Record) := do
  match ← locateFrame h provider with
  | none => return none
  | some a =>
    let s ← get
    match s.journal.curPage with
    | none => throw .nullPage
    | some p =>
      Journal.passFrame
      return some (JournalReader.readFrame (s.files.buffer p.pageNum) a)

/-! ### Linked with the service -/

theorem seekTime_client : seekTime (.client h) = Journal.seekTime h := rfl

theorem expire_client : expire (.client h) = Journal.expire h := rfl

theorem loadNextPage_client : loadNextPage h (.client h) = Journal.loadNextPage h := rfl

theorem locateFrameLoop_client (fuel : ℕ) : locateFrameLoop h (.client h) fuel = Journal.locateFrameLoop h fuel := by
  induction fuel with
  | zero => rfl
  | succ fuel ih =>
    unfold locateFrameLoop
    rw [ih, loadNextPage_client]
    rfl

theorem turnPage_client : turnPage h (.client h) = Journal.turnPage h := rfl

theorem locateFrame_client : locateFrame h (.client h) = Journal.locateFrame h := by
  unfold locateFrame
  rw [locateFrameLoop_client, turnPage_client]
  rfl

theorem create_client : create h (.client h) = JournalWriter.create h := by
  unfold create seekEnd
  rw [locateFrame_client]
  rfl

theorem writeFrame_client (data : List UInt8) (msgType : Int16) (lastFlag : UInt8) :
    writeFrame h (.client h) data msgType lastFlag = JournalWriter.writeFrame h data msgType lastFlag := by
  unfold writeFrame frameAddress
  rw [locateFrame_client]
  rfl

theorem locateWriterFrame_client : locateWriterFrame h (.client h) = JournalWriter.locateFrame h := by
  unfold locateWriterFrame frameAddress
  rw [locateFrame_client]
  rfl

theorem getNextFrame_client : getNextFrame h (.client h) = JournalReader.getNextFrame h := by
  unfold getNextFrame
  rw [locateFrame_client]
  rfl

/-! ### The calls of the processes -/

inductive Call
  /-- a journal of a reader is made -/
  | newReader
  | seekTime (time : Int64)
  | expire
  | getNextFrame
  /-- a writer is made -/
  | create
  | writeFrame (data : List UInt8) (msgType : Int16) (lastFlag : UInt8)
  | locateFrame
  | copyData (frame : ℕ) (data : List UInt8)
  | passFrame (frame length : ℕ) (msgType : Int16) (lastFlag : UInt8)

/-- What a call returns. -/
inductive Reply
  | done
  | sought (found : Bool)
  | frame (r : Option Record)
  | nano (n : Int64)
  | address (a : ℕ)

def Call.prog : Call → JournalM Reply
  | .newReader => do
    modify fun s => { s with journal := Journal.create false }
    return .done
  | .seekTime time => return .sought (← Linked.seekTime provider time)
  | .expire => do
    Linked.expire provider
    return .done
  | .getNextFrame => return .frame (← Linked.getNextFrame h provider)
  | .create => do
    Linked.create h provider
    return .done
  | .writeFrame data msgType lastFlag => return .nano (← Linked.writeFrame h provider data msgType lastFlag)
  | .locateFrame => return .address (← locateWriterFrame h provider)
  | .copyData frame data => do
    JournalWriter.copyData frame data
    return .done
  | .passFrame frame length msgType lastFlag => do
    JournalWriter.passFrame h frame length msgType lastFlag
    return .done

/-- The same call of `Journal`, `JournalWriter` and `JournalReader`, which ask the service. -/
def Call.served : Call → JournalM Reply
  | .newReader => do
    modify fun s => { s with journal := Journal.create false }
    return .done
  | .seekTime time => return .sought (← Journal.seekTime h time)
  | .expire => do
    Journal.expire h
    return .done
  | .getNextFrame => return .frame (← JournalReader.getNextFrame h)
  | .create => do
    JournalWriter.create h
    return .done
  | .writeFrame data msgType lastFlag => return .nano (← JournalWriter.writeFrame h data msgType lastFlag)
  | .locateFrame => return .address (← JournalWriter.locateFrame h)
  | .copyData frame data => do
    JournalWriter.copyData frame data
    return .done
  | .passFrame frame length msgType lastFlag => do
    JournalWriter.passFrame h frame length msgType lastFlag
    return .done

theorem Call.prog_client (call : Call) : call.prog h (.client h) = call.served h := by
  cases call with
  | seekTime time => simp only [Call.prog, Call.served, seekTime_client]
  | expire => simp only [Call.prog, Call.served, expire_client]
  | getNextFrame => simp only [Call.prog, Call.served, getNextFrame_client]
  | create => simp only [Call.prog, Call.served, create_client]
  | writeFrame data msgType lastFlag => simp only [Call.prog, Call.served, writeFrame_client]
  | locateFrame => simp only [Call.prog, Call.served, locateWriterFrame_client]
  | _ => rfl

/-- The page files and the clock are shared; the rest is a process's own. -/
structure World where
  files : Files
  tick : ℕ
  process : ℕ → Env

variable (prog : Call → JournalM Reply)

/-- A process makes a call. -/
def World.step (w : World) (i : ℕ) (call : Call) : Except Error Reply × World :=
  let r := (prog call).exec { w.process i with files := w.files, tick := w.tick }
  (r.1, ⟨r.2.files, r.2.tick, Function.update w.process i r.2⟩)

/-- What the processes are returned, and the world afterwards. -/
def World.run : World → List (ℕ × Call) → List (Except Error Reply) × World
  | w, [] => ([], w)
  | w, (i, call) :: calls =>
    let (r, w) := w.step prog i call
    let (rs, w) := World.run w calls
    (r :: rs, w)

/-! ### Nobody can tell the difference -/

/-- The processes are in the same state, but for what they have asked the service. -/
def Same (s t : Env) : Prop := ∃ asked trace, t = { s with asked := asked, trace := trace }

theorem Same.refl (s : Env) : Same s s := ⟨s.asked, s.trace, rfl⟩

theorem Same.files {s t : Env} (h : Same s t) : t.files = s.files := by
  obtain ⟨asked, trace, rfl⟩ := h
  rfl

theorem Same.tick {s t : Env} (h : Same s t) : t.tick = s.tick := by
  obtain ⟨asked, trace, rfl⟩ := h
  rfl

theorem Same.of_fields {s t : Env} (hfiles : t.files = s.files) (htick : t.tick = s.tick) (hmapped : t.mapped = s.mapped)
    (hreleased : t.released = s.released) (hjournal : t.journal = s.journal) : Same s t := by
  obtain ⟨files, tick, asked, mapped, released, trace, journal⟩ := t
  dsimp only at hfiles htick hmapped hreleased hjournal
  subst hfiles htick hmapped hreleased hjournal
  exact ⟨asked, trace, rfl⟩

/-- The providers do the same. -/
structure Agree (P Q : Provider) : Prop where
  getPage : ∀ isWriting n, Coupled Same (P.getPage isWriting n) (Q.getPage isWriting n)
  releasePage : ∀ p, Coupled Same (P.releasePage p) (Q.releasePage p)

variable {h} {P Q : Provider} {s t : Env}

theorem emit_coupled (es : List Effect) : Coupled Same (emit es) (emit es) := by
  refine Coupled.modify ?_
  rintro s _ ⟨asked, trace, rfl⟩
  exact ⟨asked, trace ++ es, rfl⟩

theorem setCurPage_coupled (p : Option Page) : Coupled Same (setCurPage p) (setCurPage p) := by
  refine Coupled.modify ?_
  rintro s _ ⟨asked, trace, rfl⟩
  exact ⟨asked, trace, rfl⟩

/-- A new journal. -/
def newJournal (isWriting : Bool) : JournalM Unit := modify fun s => { s with journal := Journal.create isWriting }

theorem newJournal_coupled (isWriting : Bool) : Coupled Same (newJournal isWriting) (newJournal isWriting) := by
  refine Coupled.modify ?_
  rintro s _ ⟨asked, trace, rfl⟩
  exact ⟨asked, trace, rfl⟩

theorem getNanoTime_coupled : Coupled Same (getNanoTime h) (getNanoTime h) := by
  refine Coupled.get ?_
  rintro s _ ⟨asked, trace, rfl⟩
  exact (CoupledAt.set ⟨asked, trace, rfl⟩).bind fun _ => Coupled.pure _

theorem scanCurPage_coupled (scan : Mem → Page → Option Page) : Coupled Same (scanCurPage scan) (scanCurPage scan) := by
  refine Coupled.get ?_
  rintro s _ ⟨asked, trace, rfl⟩
  have hst : Same s { s with asked := asked, trace := trace } := ⟨asked, trace, rfl⟩
  dsimp only
  split
  · exact (Coupled.pure _).at hst
  · split
    · exact (setCurPage_coupled _).at hst
    · exact (Coupled.throw _).at hst

theorem releaseCurPage_coupled (hPQ : Agree P Q) : Coupled Same (releaseCurPage P) (releaseCurPage Q) := by
  refine Coupled.get ?_
  rintro s _ ⟨asked, trace, rfl⟩
  have hst : Same s { s with asked := asked, trace := trace } := ⟨asked, trace, rfl⟩
  dsimp only
  split
  · exact (hPQ.releasePage _).at hst
  · exact (Coupled.pure _).at hst

theorem seekPage_coupled (hPQ : Agree P Q) (time : Int64) : Coupled Same (seekPage P time) (seekPage Q time) := by
  refine Coupled.get ?_
  rintro s _ ⟨asked, trace, rfl⟩
  have hst : Same s { s with asked := asked, trace := trace } := ⟨asked, trace, rfl⟩
  dsimp only
  split
  · exact ((hPQ.getPage _ _).bind fun p => (setCurPage_coupled p).bind fun _ => scanCurPage_coupled _).at hst
  · split
    · exact ((hPQ.getPage _ _).bind setCurPage_coupled).at hst
    · exact ((hPQ.getPage _ _).bind fun p => (setCurPage_coupled p).bind fun _ => scanCurPage_coupled _).at hst

theorem seekTime_coupled (hPQ : Agree P Q) (time : Int64) : Coupled Same (seekTime P time) (seekTime Q time) := by
  refine (releaseCurPage_coupled hPQ).bind fun _ => (seekPage_coupled hPQ time).bind fun _ => Coupled.get ?_
  rintro s _ ⟨asked, trace, rfl⟩
  exact (CoupledAt.set ⟨asked, trace, rfl⟩).bind fun _ => Coupled.pure _

theorem finishPage_coupled (p : Page) : Coupled Same (p.finishPage h) (p.finishPage h) :=
  getNanoTime_coupled.bind fun _ => (emit_coupled _).bind fun _ => emit_coupled _

theorem loadNextPage_coupled (hPQ : Agree P Q) : Coupled Same (loadNextPage h P) (loadNextPage h Q) := by
  refine Coupled.get ?_
  rintro s _ ⟨asked, trace, rfl⟩
  have hst : Same s { s with asked := asked, trace := trace } := ⟨asked, trace, rfl⟩
  dsimp only
  split
  · exact (Coupled.pure _).at hst
  · split
    · exact ((hPQ.getPage _ _).bind setCurPage_coupled).at hst
    · rename_i p _
      refine ((hPQ.getPage _ _).bind fun newPage => ?_).at hst
      have hend : Coupled Same (do P.releasePage p; setCurPage newPage) (do Q.releasePage p; setCurPage newPage) :=
        (hPQ.releasePage p).bind fun _ => setCurPage_coupled newPage
      split
      · exact (finishPage_coupled p).bind fun _ => hend
      · exact hend

theorem expire_coupled (hPQ : Agree P Q) : Coupled Same (expire P) (expire Q) := by
  refine Coupled.get ?_
  rintro s _ ⟨asked, trace, rfl⟩
  have hst : Same s { s with asked := asked, trace := trace } := ⟨asked, trace, rfl⟩
  dsimp only
  split
  · refine (CoupledAt.set ⟨asked, trace, rfl⟩).bind fun _ => (releaseCurPage_coupled hPQ).bind fun _ => ?_
    exact (setCurPage_coupled none).bind fun _ => (hPQ.getPage _ _).bind fun _ => Coupled.pure _
  · exact (Coupled.pure _).at hst

theorem locateWritableFrame_coupled : Coupled Same Journal.locateWritableFrame Journal.locateWritableFrame := by
  refine Coupled.get ?_
  rintro s _ ⟨asked, trace, rfl⟩
  have hst : Same s { s with asked := asked, trace := trace } := ⟨asked, trace, rfl⟩
  dsimp only
  split
  · exact (Coupled.throw _).at hst
  · split
    · exact (Coupled.throw _).at hst
    · exact ((setCurPage_coupled _).bind fun _ => Coupled.pure _).at hst

theorem locateFrameLoop_coupled (hPQ : Agree P Q) (fuel : ℕ) :
    Coupled Same (locateFrameLoop h P fuel) (locateFrameLoop h Q fuel) := by
  induction fuel with
  | zero => exact Coupled.throw _
  | succ fuel ih =>
    refine locateWritableFrame_coupled.bind fun a => ?_
    cases a with
    | some a => exact Coupled.pure a
    | none => exact (loadNextPage_coupled hPQ).bind fun _ => ih

theorem turnPage_coupled (hPQ : Agree P Q) : Coupled Same (turnPage h P) (turnPage h Q) := by
  refine Coupled.get ?_
  rintro s _ ⟨asked, trace, rfl⟩
  have hst : Same s { s with asked := asked, trace := trace } := ⟨asked, trace, rfl⟩
  dsimp only
  split
  · split
    · exact (loadNextPage_coupled hPQ).at hst
    · exact (Coupled.pure _).at hst
  · exact (loadNextPage_coupled hPQ).at hst

theorem locateFrame_coupled (hPQ : Agree P Q) : Coupled Same (locateFrame h P) (locateFrame h Q) := by
  refine Coupled.get ?_
  rintro s _ ⟨asked, trace, rfl⟩
  have hst : Same s { s with asked := asked, trace := trace } := ⟨asked, trace, rfl⟩
  dsimp only
  split
  · exact (Coupled.pure _).at hst
  · split
    · exact ((locateFrameLoop_coupled hPQ _).bind fun _ => Coupled.pure _).at hst
    · refine ((turnPage_coupled hPQ).bind fun _ => Coupled.get ?_).at hst
      rintro s _ ⟨asked, trace, rfl⟩
      have hst : Same s { s with asked := asked, trace := trace } := ⟨asked, trace, rfl⟩
      dsimp only
      split
      · exact (Coupled.pure _).at hst
      · exact (Coupled.pure _).at hst

theorem passFrame_coupled : Coupled Same Journal.passFrame Journal.passFrame := by
  refine Coupled.get ?_
  rintro s _ ⟨asked, trace, rfl⟩
  have hst : Same s { s with asked := asked, trace := trace } := ⟨asked, trace, rfl⟩
  dsimp only
  split
  · exact (Coupled.throw _).at hst
  · exact (setCurPage_coupled _).at hst

theorem curPageNum_coupled : Coupled Same JournalWriter.curPageNum JournalWriter.curPageNum := by
  refine Coupled.get ?_
  rintro s _ ⟨asked, trace, rfl⟩
  have hst : Same s { s with asked := asked, trace := trace } := ⟨asked, trace, rfl⟩
  dsimp only
  split
  · exact (Coupled.throw _).at hst
  · exact (Coupled.pure _).at hst

theorem frameAddress_coupled (hPQ : Agree P Q) : Coupled Same (frameAddress h P) (frameAddress h Q) := by
  refine (locateFrame_coupled hPQ).bind fun a => ?_
  cases a with
  | none => exact Coupled.throw _
  | some a => exact Coupled.pure a

theorem create_coupled (hPQ : Agree P Q) : Coupled Same (create h P) (create h Q) :=
  (newJournal_coupled true).bind fun _ => (seekTime_coupled hPQ timeToLast).bind fun _ =>
    (locateFrame_coupled hPQ).bind fun _ => Coupled.pure _

theorem writeFrame_coupled (hPQ : Agree P Q) (data : List UInt8) (msgType : Int16) (lastFlag : UInt8) :
    Coupled Same (writeFrame h P data msgType lastFlag) (writeFrame h Q data msgType lastFlag) :=
  getNanoTime_coupled.bind fun _ => (frameAddress_coupled hPQ).bind fun _ => curPageNum_coupled.bind fun _ =>
    (emit_coupled _).bind fun _ => passFrame_coupled.bind fun _ => Coupled.pure _

theorem locateWriterFrame_coupled (hPQ : Agree P Q) :
    Coupled Same (locateWriterFrame h P) (locateWriterFrame h Q) :=
  getNanoTime_coupled.bind fun _ => (frameAddress_coupled hPQ).bind fun _ => curPageNum_coupled.bind fun _ =>
    (emit_coupled _).bind fun _ => Coupled.pure _

theorem copyData_coupled (frame : ℕ) (data : List UInt8) :
    Coupled Same (JournalWriter.copyData frame data) (JournalWriter.copyData frame data) :=
  curPageNum_coupled.bind fun _ => emit_coupled _

theorem passWriterFrame_coupled (frame length : ℕ) (msgType : Int16) (lastFlag : UInt8) :
    Coupled Same (JournalWriter.passFrame h frame length msgType lastFlag)
      (JournalWriter.passFrame h frame length msgType lastFlag) := by
  refine curPageNum_coupled.bind fun n => Coupled.get ?_
  rintro s _ ⟨asked, trace, rfl⟩
  exact ((emit_coupled _).bind fun _ => passFrame_coupled).at ⟨asked, trace, rfl⟩

theorem getNextFrame_coupled (hPQ : Agree P Q) : Coupled Same (getNextFrame h P) (getNextFrame h Q) := by
  refine (locateFrame_coupled hPQ).bind fun a => ?_
  cases a with
  | none => exact Coupled.pure _
  | some a =>
    refine Coupled.get ?_
    rintro s _ ⟨asked, trace, rfl⟩
    have hst : Same s { s with asked := asked, trace := trace } := ⟨asked, trace, rfl⟩
    dsimp only
    split
    · exact (Coupled.throw _).at hst
    · exact (passFrame_coupled.bind fun _ => Coupled.pure _).at hst

/-- **Every call** ends the same way with providers that agree. -/
theorem Call.prog_coupled (hPQ : Agree P Q) (call : Call) : Coupled Same (call.prog h P) (call.prog h Q) := by
  cases call with
  | newReader => exact (newJournal_coupled false).bind fun _ => Coupled.pure _
  | seekTime time => exact (seekTime_coupled hPQ time).bind fun _ => Coupled.pure _
  | expire => exact (expire_coupled hPQ).bind fun _ => Coupled.pure _
  | getNextFrame => exact (getNextFrame_coupled hPQ).bind fun _ => Coupled.pure _
  | create => exact (create_coupled hPQ).bind fun _ => Coupled.pure _
  | writeFrame data msgType lastFlag =>
    exact (writeFrame_coupled hPQ data msgType lastFlag).bind fun _ => Coupled.pure _
  | locateFrame => exact (locateWriterFrame_coupled hPQ).bind fun _ => Coupled.pure _
  | copyData frame data => exact (copyData_coupled frame data).bind fun _ => Coupled.pure _
  | passFrame frame length msgType lastFlag =>
    exact (passWriterFrame_coupled frame length msgType lastFlag).bind fun _ => Coupled.pure _

/-! ### The local provider and the service -/

theorem loadPageBuffer_coupled (isWriting : Bool) (n : Int16) :
    Coupled Same (loadPageBuffer isWriting n) (loadPageBuffer isWriting n) := by
  cases isWriting with
  | true => exact (emit_coupled _).bind fun _ => Coupled.pure _
  | false =>
    refine Coupled.get ?_
    rintro s _ ⟨asked, trace, rfl⟩
    exact (Coupled.pure _).at ⟨asked, trace, rfl⟩

theorem initialize_coupled (n : Int16) : Coupled Same ( Page.initialize h n) ( Page.initialize h n) :=
  (emit_coupled _).bind fun _ => getNanoTime_coupled.bind fun _ => emit_coupled _

/-- A page is loaded the same way once its file is open. -/
theorem load_coupled {isWriting : Bool} {n : Int16}
    (hload : CoupledAt Same (loadPageBuffer isWriting n) s (loadPageBuffer isWriting n) t) :
    CoupledAt Same (Page.load h isWriting n) s (Page.load h isWriting n) t := by
  refine hload.bind fun opened => ?_
  split
  · exact Coupled.pure _
  refine Coupled.get ?_
  rintro s _ ⟨asked, trace, rfl⟩
  refine (CoupledAt.set ⟨asked, trace, rfl⟩).bind fun _ => ?_
  dsimp only
  split
  · split
    · exact Coupled.pure _
    · exact (initialize_coupled n).bind fun _ => Coupled.pure _
  · split
    · exact (Coupled.throw _).bind fun _ => Coupled.pure _
    · exact Coupled.pure _

theorem exec_create_twice (fs : Files) (n : Int16) :
    (Effect.create n).exec ((Effect.create n).exec fs) = (Effect.create n).exec fs := by
  by_cases hfile : (fs.lookup n).isSome
  · simp only [Effect.exec, hfile, if_true]
  · have hmade : ((fs.insert n zeroPage).lookup n).isSome := by
      rw [AList.lookup_insert]
      rfl
    simp only [Effect.exec, hfile, hmade, Bool.false_eq_true, if_false, if_true]

theorem getPage_granted {isWriting : Bool} {n : Int16} {u : Env} (hserve : Runs (serve h isWriting n) t .allocated u) :
    (getPage h isWriting n).exec t = (Page.load h isWriting n).exec u := by
  unfold getPage
  rw [hserve.exec_bind]
  rfl

theorem load_missing {n : Int16} (hfile : s.files.lookup n = none) : Runs (Page.load h false n) s none s := by
  have hopen : Runs (loadPageBuffer false n) s false s := by
    refine (Runs.get s).bind ?_
    rw [hfile]
    exact Runs.pure _ _
  exact hopen.bind (Runs.pure _ _)

/-- The server has made the file of a writer's page before the writer does. -/
theorem loadPageBuffer_made (n : Int16) (hst : Same s t) :
    CoupledAt Same (loadPageBuffer true n) s (loadPageBuffer true n) (t.emitAll [.create n]) := by
  obtain ⟨asked, trace, rfl⟩ := hst
  have hs := loadPageBuffer_runs (n := n) s
  have ht := loadPageBuffer_runs (n := n) ({ s with asked := asked, trace := trace }.emitAll [.create n])
  unfold CoupledAt
  rw [hs, ht]
  refine ⟨rfl, Same.of_fields ?_ rfl rfl rfl rfl⟩
  show (Effect.lastByte n).exec ((Effect.create n).exec ((Effect.create n).exec s.files)) = _
  rw [exec_create_twice]
  rfl

/-- **The providers agree** as long as the service grants every page. -/
theorem agree_granting (h : Host) : Agree (.local h.granting) (.client h.granting) where
  getPage isWriting n := by
    intro s t hst
    have hasked : Same s { t with asked := t.asked + 1 } := by
      obtain ⟨asked, trace, rfl⟩ := hst
      exact ⟨asked + 1, trace, rfl⟩
    have hg := h.grants_granting
    show CoupledAt Same (Page.load h.granting isWriting n) s (getPage h.granting isWriting n) t
    by_cases hfile : (t.files.lookup n).isSome
    · unfold CoupledAt
      rw [getPage_granted (serve_runs_isSome hg isWriting hfile)]
      exact load_coupled ((loadPageBuffer_coupled isWriting n).at hasked)
    · have hmissing : t.files.lookup n = none := Option.not_isSome_iff_eq_none.mp hfile
      cases isWriting with
      | true =>
        unfold CoupledAt
        rw [getPage_granted (serve_runs_create hg hmissing)]
        exact load_coupled (loadPageBuffer_made n hasked)
      | false =>
        have hlocal := load_missing (h := h.granting) (hst.files ▸ hmissing : s.files.lookup n = none)
        have hclient := getPage_runs_missing hg hmissing
        unfold CoupledAt
        rw [hlocal, hclient]
        exact ⟨rfl, hasked⟩
  releasePage p := by
    refine Coupled.modify ?_
    rintro s _ ⟨asked, trace, rfl⟩
    exact ⟨asked, trace, rfl⟩

/-! ### All processes -/

structure World.Same (w v : World) : Prop where
  files : v.files = w.files
  tick : v.tick = w.tick
  process : ∀ i, Linked.Same (w.process i) (v.process i)

variable {prog prog' : Call → JournalM Reply}

theorem World.step_same (hprog : ∀ call, Coupled Linked.Same (prog call) (prog' call)) {w v : World} (hwv : w.Same v)
    (i : ℕ) (call : Call) :
    (w.step prog i call).1 = (v.step prog' i call).1 ∧ (w.step prog i call).2.Same (v.step prog' i call).2 := by
  have hstart : Linked.Same { w.process i with files := w.files, tick := w.tick }
      { v.process i with files := v.files, tick := v.tick } := by
    obtain ⟨asked, trace, heq⟩ := hwv.process i
    rw [heq, hwv.files, hwv.tick]
    exact ⟨asked, trace, rfl⟩
  obtain ⟨hval, hend⟩ := (hprog call).at hstart
  refine ⟨hval, hend.files, hend.tick, fun j => ?_⟩
  show Linked.Same (Function.update w.process i _ j) (Function.update v.process i _ j)
  by_cases hj : j = i
  · subst hj
    rw [Function.update_self, Function.update_self]
    exact hend
  · rw [Function.update_of_ne hj, Function.update_of_ne hj]
    exact hwv.process j

theorem World.run_same (hprog : ∀ call, Coupled Linked.Same (prog call) (prog' call)) (calls : List (ℕ × Call))
    {w v : World} (hwv : w.Same v) :
    (w.run prog calls).1 = (v.run prog' calls).1 ∧ (w.run prog calls).2.Same (v.run prog' calls).2 := by
  induction calls generalizing w v with
  | nil => exact ⟨rfl, hwv⟩
  | cons call calls ih =>
    obtain ⟨i, call⟩ := call
    obtain ⟨hval, hstep⟩ := World.step_same hprog hwv i call
    obtain ⟨hvals, hend⟩ := ih hstep
    exact ⟨congrArg₂ List.cons hval hvals, hend⟩

end Linked

open Linked in
/-- **The two providers cannot be told apart**: whatever the processes call, in whatever order, they are
returned the same, and the page files are the same afterwards. -/
theorem providers_agree (h : Host) (w : World) (calls : List (ℕ × Call)) :
    (w.run (Call.prog h.granting (.local h.granting)) calls).1 = (w.run (Call.served h.granting) calls).1 ∧
      (w.run (Call.prog h.granting (.local h.granting)) calls).2.files =
        (w.run (Call.served h.granting) calls).2.files := by
  have hprog (call : Call) : Coupled Same (call.prog h.granting (.local h.granting)) (call.served h.granting) := by
    rw [← Call.prog_client]
    exact call.prog_coupled (agree_granting h)
  have hself : w.Same w := ⟨rfl, rfl, fun i => Same.refl _⟩
  obtain ⟨hvals, hend⟩ := World.run_same hprog calls hself
  exact ⟨hvals, hend.files.symm⟩

end Yijinjing
