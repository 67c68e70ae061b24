import Mathlib.Data.List.AList
import Yijinjing.Lib.Loop
import Yijinjing.Lib.Prog
import Yijinjing.Journal.Frame
import Yijinjing.Journal.PageCommStruct

/-!
# Pages, the page files of a journal and the stores into them

`Page.h`, `Page.cpp` and the directory functions of `PageUtil.cpp`.  The page files of one journal
are a map from page numbers to page buffers, shared by everyone who maps them.  Whatever a process
does to them is an `Effect`; the program of a journal call (`JournalM`) executes its effects on the
files and records them in order, so that they can also be executed one at a time.
-/

namespace Yijinjing

open Lib

/-! ### The page files -/

/-- The page files of the journal, by page number. -/
abbrev Files := AList fun _ : Int16 => Mem

/-- The content of a new page file. -/
def zeroPage : Mem := fun _ => 0

/-- Change the page file `n`, if it is there. -/
def Files.update (fs : Files) (n : Int16) (f : Mem → Mem) : Files :=
  match fs.lookup n with
  | some b => fs.insert n (f b)
  | none => fs

/-- The buffer of the page file `n`. -/
def Files.buffer (fs : Files) (n : Int16) : Mem := (fs.lookup n).getD zeroPage

/-- What a process does to the page files in one step. -/
inductive Effect where
  /-- the file is made, filled with zeros, if it is not there -/
  | create (n : Int16)
  /-- `LoadPageBuffer` in write mode writes a zero at the last byte -/
  | lastByte (n : Int16)
  | header (n : Int16) (s : HeaderStore)
  | frame (n : Int16) (a : ℕ) (s : FrameStore)
  deriving DecidableEq

def Effect.exec (fs : Files) : Effect → Files
  | .create n => if (fs.lookup n).isSome then fs else fs.insert n zeroPage
  | .lastByte n => fs.update n fun b => b.storeAs (journalPageSize - 1) (0 : UInt8)
  | .header n s => fs.update n s.exec
  | .frame n a s => fs.update n fun b => s.exec a b

/-- Execute some effects in order. -/
def execAll (fs : Files) (es : List Effect) : Files := es.foldl Effect.exec fs

/-- `PageUtil::GetPageNums`, for a journal whose page files its pattern lists and no others
(`listPageNums_files`): a name without special characters of regular expressions, and with dots only if no
other journal's name differs from it in these places alone.  The pattern admits digits only. -/
def getPageNums (fs : Files) : List Int16 :=
  (fs.keys.filter fun n => decide (0 ≤ n)).mergeSort fun m n => decide (m ≤ n)

/-- The backward loop of `GetPageNumWithTime`, over the numbers in descending order. -/
def pageNumWithTime (fs : Files) (time : Int64) : List Int16 → Int16
  | [] => 1
  | n :: ns => if PageHeader.startNano (fs.buffer n) < time then n else pageNumWithTime fs time ns

/-- `PageUtil::GetPageNumWithTime` -/
def getPageNumWithTime (fs : Files) (time : Int64) : Int16 :=
  pageNumWithTime fs time (getPageNums fs).reverse

/-! ### `Page.h` -/

/-- `Page`: `buffer` stands for the address of the mapping, `frame` is an offset into it. -/
structure Page where
  buffer : ℕ
  frame : ℕ
  position : ℤ
  frameNum : ℤ
  pageNum : Int16
  deriving DecidableEq

namespace Page

variable (b : Mem) (p : Page)

def getCurStatus : UInt8 := Frame.getStatus b p.frame

def isAtPageEnd : Bool := getCurStatus b p == journalFrameStatusPageEnd

def passFrame : Page :=
  { p with
    position := p.position + (Frame.getFrameLength b p.frame).toInt
    frame := Frame.getNextEntry b p.frame
    frameNum := p.frameNum + 1 }

@[simp] theorem passFrame_frame : (p.passFrame b).frame = Frame.getNextEntry b p.frame := rfl

@[simp] theorem passFrame_pageNum : (p.passFrame b).pageNum = p.pageNum := rfl

/-- More turns than any loop over the frames of a page makes. -/
def scanFuel : ℕ := journalPageSize

/-- `none`: the loop goes on for more turns than the page has bytes. -/
def passWrittenFrame : Option Page :=
  whileLoop (fun p => getCurStatus b p == journalFrameStatusWritten) (passFrame b) scanFuel p

def passToTime (time : Int64) : Option Page :=
  whileLoop
    (fun p => getCurStatus b p == journalFrameStatusWritten &&
      decide (Frame.getNano b p.frame < time))
    (passFrame b) scanFuel p

/-- The test of `locateWritableFrame`, after `passWrittenFrame`. -/
def isWritable : Bool :=
  getCurStatus b p == journalFrameStatusRaw &&
    decide (p.position + pageMinHeadroom < journalPageSize)

def locateReadableFrame : Option ℕ :=
  if getCurStatus b p == journalFrameStatusWritten then some p.frame else none

end Page

/-! ### The program of a journal call -/

/-- What the journal calls of a run are given from outside: the name of the journal, the build
option `FRAME_AUTO_SET_HASHCODE`, the values of successive calls of `getNanoTime`, and the page
requests that the service does not grant, with its answer.

The name fits `journal_name`; the terminator behind a full field is where `page_num` is stored later.
Longer names, and what they store over, are the subject of `Registrant.Carried`. -/
structure Host where
  jname : CStr
  name_fits : jname.length ≤ journalShortNameMaxLength
  autoHash : Bool
  clock : ℕ → Int64
  refuse : ℕ → Option CommStatus

inductive Error where
  /-- "more than one writer is writing" -/
  | moreThanOneWrite
  /-- "page version mismatch" -/
  | versionMismatch
  /-- a null `curPage` is dereferenced -/
  | nullPage
  /-- a loop over the frames or the pages does not end -/
  | noEnd
  deriving DecidableEq

/-- `Journal` -/
structure Journal where
  isWriting : Bool
  expired : Bool
  curPage : Option Page
  deriving DecidableEq

/-- What a journal call reads and changes: the page files, the number of clock readings, page
requests and mappings made, the mappings released, the effects so far and the `Journal` object. -/
structure Env where
  files : Files
  tick : ℕ
  asked : ℕ
  mapped : ℕ
  released : List ℕ
  trace : List Effect
  journal : Journal

abbrev JournalM (α : Type) := Prog Error Env α

def Env.emit (s : Env) (e : Effect) : Env :=
  { s with files := e.exec s.files, trace := s.trace ++ [e] }

def Env.emitAll (s : Env) (es : List Effect) : Env :=
  { s with files := execAll s.files es, trace := s.trace ++ es }

def Env.setCurPage (s : Env) (p : Option Page) : Env :=
  { s with journal := { s.journal with curPage := p } }

def Env.setExpired (s : Env) (expired : Bool) : Env :=
  { s with journal := { s.journal with expired := expired } }

def emit (es : List Effect) : JournalM Unit := modify fun s => s.emitAll es

def setCurPage (p : Option Page) : JournalM Unit := modify fun s => s.setCurPage p

variable (h : Host)

def getNanoTime : JournalM Int64 := do
  let s ← get
  set { s with tick := s.tick + 1 }
  return h.clock s.tick

/-- `Page::finishPage` -/
def Page.finishPage (p : Page) : JournalM Unit := do
  let nano ← getNanoTime h
  emit [.header p.pageNum (.closeNano nano),
    .header p.pageNum (.frameNum (Int32.ofInt p.frameNum)),
    .header p.pageNum (.lastPos (Int32.ofInt p.position))]
  emit (Frame.setStatusPageClosed.map (.frame p.pageNum p.frame))

/-- The C string of the journal name, with its terminator. -/
def Host.nameBytes : List UInt8 := h.jname.map (fun c => UInt8.ofNat c.toNat) ++ [0]

/-- The part of `Page::load` that initializes a raw page. -/
def Page.initialize (n : Int16) : JournalM Unit := do
  emit [.header n (.journalName h.nameBytes)]
  let nano ← getNanoTime h
  emit [.header n (.startNano nano), .header n (.closeNano (-1)), .header n (.pageNum n),
    .header n (.status journalPageStatusInited), .header n (.frameVersion frameHeaderVersion)]

/-- `PageUtil::LoadPageBuffer` on a page file: false if it cannot be opened. -/
def loadPageBuffer (isWriting : Bool) (n : Int16) : JournalM Bool := do
  if isWriting then
    emit [.create n, .lastByte n]
    return true
  else
    return ((← get).files.lookup n).isSome

/-- The constructor of `Page`. -/
def Page.new (buffer : ℕ) (n : Int16) : Page :=
  { buffer := buffer, frame := pageInitPosition, position := pageInitPosition, frameNum := 0,
    pageNum := n }

/-- `Page::load` -/
def Page.load (isWriting : Bool) (n : Int16) : JournalM (Option Page) := do
  if !(← loadPageBuffer isWriting n) then
    return none
  let s ← get
  set { s with mapped := s.mapped + 1 }
  let b := s.files.buffer n
  if PageHeader.status b == journalPageStatusRaw then
    if !isWriting then
      return none
    Page.initialize h n
  else if 0 < PageHeader.frameVersion b ∧ PageHeader.frameVersion b ≠ frameHeaderVersion then
    throw .versionMismatch
  return some (Page.new s.mapped n)

end Yijinjing
