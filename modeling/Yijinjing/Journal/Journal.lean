import Yijinjing.Journal.Page

/-!
# `Journal`, `JournalWriter` and `JournalReader`

`ClientPageProvider.cpp` (`getPage`, `releasePage`), `Journal.cpp`, `Journal.h`, `JournalWriter.cpp`
and, for a reader of one journal, `JournalReader.h`.  The answer to a page request is the one the
page service gives when nothing else holds the page: a writer's page file is made if it is missing,
a reader's must exist; `Host.refuse` overrides it.
-/

namespace Yijinjing

open Lib

variable (h : Host)

/-- The answer of the page service to a page request, and what it does to the page files. -/
def serve (isWriting : Bool) (n : Int16) : JournalM CommStatus := do
  let s ← get
  set { s with asked := s.asked + 1 }
  match h.refuse s.asked with
  | some status => return status
  | none =>
    if (s.files.lookup n).isSome then
      return .allocated
    else if isWriting then
      emit [.create n]
      return .allocated
    else
      return .nonExist

def getPage (isWriting : Bool) (n : Int16) : JournalM (Option Page) := do
  let status ← serve h isWriting n
  if status = .allocated then
    Page.load h isWriting n
  else if status = .moreThanOneWrite then
    throw .moreThanOneWrite
  else
    return none

def releasePage (p : Page) : JournalM Unit :=
  modify fun s => { s with released := s.released ++ [p.buffer] }

def scanCurPage (scan : Mem → Page → Option Page) : JournalM Unit := do
  let s ← get
  match s.journal.curPage with
  | none => return ()
  | some p =>
    match scan (s.files.buffer p.pageNum) p with
    | some p' => setCurPage (some p')
    | none => throw .noEnd

namespace Journal

def create (isWriting : Bool) : Journal := { isWriting := isWriting, expired := false, curPage := none }

/-- `pageNums.back()`, or 1 if there are none -/
def lastPageNum (fs : Files) : Int16 := (getPageNums fs).getLast?.getD 1

/-- `pageNums.front()`, or 1 if there are none -/
def firstPageNum (fs : Files) : Int16 := (getPageNums fs).head?.getD 1

def releaseCurPage : JournalM Unit := do
  match (← get).journal.curPage with
  | some p => releasePage p
  | none => return ()

def seekPage (time : Int64) : JournalM Unit := do
  let s ← get
  if time = timeToLast then
    setCurPage (← getPage h s.journal.isWriting (lastPageNum s.files))
    scanCurPage fun b p => p.passWrittenFrame b
  else if time = timeFromFirst then
    setCurPage (← getPage h s.journal.isWriting (firstPageNum s.files))
  else
    setCurPage (← getPage h s.journal.isWriting (getPageNumWithTime s.files time))
    scanCurPage fun b p => p.passToTime b time

def seekTime (time : Int64) : JournalM Bool := do
  releaseCurPage
  seekPage h time
  let s ← get
  set (s.setExpired s.journal.curPage.isNone)
  return s.journal.curPage.isSome

def loadNextPage : JournalM Unit := do
  let s ← get
  if s.journal.expired then
    return ()
  match s.journal.curPage with
  | none => setCurPage (← getPage h s.journal.isWriting 1)
  | some p =>
    let newPage ← getPage h s.journal.isWriting (p.pageNum + 1)
    if s.journal.isWriting then
      p.finishPage h
    releasePage p
    setCurPage newPage

def expire : JournalM Unit := do
  let s ← get
  if !s.journal.expired then
    set (s.setExpired true)
    releaseCurPage
    setCurPage none
    let _ ← getPage h s.journal.isWriting (-1)

/-- `curPage->locateWritableFrame()` -/
def locateWritableFrame : JournalM (Option ℕ) := do
  let s ← get
  match s.journal.curPage with
  | none => throw .nullPage
  | some p =>
    let b := s.files.buffer p.pageNum
    match p.passWrittenFrame b with
    | none => throw .noEnd
    | some p' =>
      setCurPage (some p')
      return if p'.isWritable b then some p'.frame else none

/-- The loop of `Journal::locateFrame` of a writer, for fewer than so many page changes. -/
def locateFrameLoop : ℕ → JournalM ℕ
  | 0 => throw .noEnd
  | fuel + 1 => do
    match ← locateWritableFrame with
    | some a => return a
    | none =>
      loadNextPage h
      locateFrameLoop fuel

/-- More page changes than a page number has values. -/
def pageFuel : ℕ := 65536

/-- A reader at the end of a page, or without one, turns to the next. -/
def turnPage : JournalM Unit := do
  let s ← get
  match s.journal.curPage with
  | some p => if p.isAtPageEnd (s.files.buffer p.pageNum) then loadNextPage h
  | none => loadNextPage h

def locateFrame : JournalM (Option ℕ) := do
  let s ← get
  if s.journal.expired then
    return none
  if s.journal.isWriting then
    return some (← locateFrameLoop h pageFuel)
  else
    turnPage h
    let s ← get
    match s.journal.curPage with
    | some p => return p.locateReadableFrame (s.files.buffer p.pageNum)
    | none => return none

def passFrame : JournalM Unit := do
  let s ← get
  match s.journal.curPage with
  | none => throw .nullPage
  | some p => setCurPage (some (p.passFrame (s.files.buffer p.pageNum)))

end Journal

/-! ### `JournalWriter` -/

namespace JournalWriter

/-- The page number of the page that the writer's frame address points into. -/
def curPageNum : JournalM Int16 := do
  match (← get).journal.curPage with
  | none => throw .nullPage
  | some p => return p.pageNum

/-- `journal->locateFrame()`, as a frame that is dereferenced. -/
def frameAddress : JournalM ℕ := do
  match ← Journal.locateFrame h with
  | none => throw .nullPage
  | some a => return a

def seekEnd : JournalM Unit := do
  let _ ← Journal.seekTime h timeToLast
  let _ ← Journal.locateFrame h

/-- `JournalWriter::create`, once the client and the journal are registered. -/
def create : JournalM Unit := do
  modify fun s => { s with journal := Journal.create true }
  seekEnd h

def writeFrame (data : List UInt8) (msgType : Int16) (lastFlag : UInt8) : JournalM Int64 := do
  let nano ← getNanoTime h
  let frame ← frameAddress h
  let n ← curPageNum
  emit ((Frame.setMsgType msgType ++ Frame.setLastFlag lastFlag ++ Frame.setData h.autoHash data ++
    Frame.setNano nano ++ Frame.setStatusWritten).map (.frame n frame))
  Journal.passFrame
  return nano

def locateFrame : JournalM ℕ := do
  let nano ← getNanoTime h
  let frame ← frameAddress h
  let n ← curPageNum
  emit ((Frame.setNano nano).map (.frame n frame))
  return frame

/-- The user's copy of a payload to the data area of a located frame. -/
def copyData (frame : ℕ) (data : List UInt8) : JournalM Unit := do
  let n ← curPageNum
  emit [.frame n frame (.data data)]

def passFrame (frame length : ℕ) (msgType : Int16) (lastFlag : UInt8) : JournalM Unit := do
  let n ← curPageNum
  let b := (← get).files.buffer n
  emit ((Frame.setMsgType msgType ++ Frame.setLastFlag lastFlag ++
    Frame.setDataLength h.autoHash b frame length ++ Frame.setStatusWritten).map (.frame n frame))
  Journal.passFrame

end JournalWriter

/-! ### `JournalReader` on one journal -/

namespace JournalReader

/-- What a frame obtained from a reader gives its user. -/
def readFrame (b : Mem) (a : ℕ) : Record :=
  { data := Frame.getData b a
    nano := Frame.getNano b a
    msgType := Frame.getMsgType b a
    lastFlag := Frame.getLastFlag b a }

/-- `JournalReader::getNextFrame` with one journal, and the record read off the frame.  The
comparison of the times cannot drop the only frame there is: `minNano` starts as `TIME_TO_LAST`. -/
def getNextFrame : JournalM (Option Record) := do
  match ← Journal.locateFrame h with
  | none => return none
  | some a =>
    let s ← get
    match s.journal.curPage with
    | none => throw .nullPage
    | some p =>
      Journal.passFrame
      return some (readFrame (s.files.buffer p.pageNum) a)

/-- Call `getNextFrame` until it returns null, at most so many times. -/
def drain : ℕ → JournalM (List Record)
  | 0 => throw .noEnd
  | fuel + 1 => do
    match ← getNextFrame h with
    | none => return []
    | some r => return r :: (← drain fuel)

/-- A process that has made a reader of the journal and not yet sought. -/
def start (fs : Files) : Env :=
  { files := fs, tick := 0, asked := 0, mapped := 0, released := [], trace := [],
    journal := Journal.create false }

/-- Seek a time, and call `getNextFrame` until it returns null. -/
def readFrom (time : Int64) (fuel : ℕ) : JournalM (List Record) := do
  let _ ← Journal.seekTime h time
  drain h fuel

end JournalReader

end Yijinjing
