import Yijinjing.Lib.Transition
import Yijinjing.Journal.Party
import Yijinjing.Journal.ReaderSeek

/-!
# One writer, one reader, one store at a time

The system of a writer (`Party`) and a reader of the same journal.  A reader step is one read of
`JournalReader::getNextFrame`, of the page change inside it or of the fields of the frame that it
returns; a writer step starts a call of `write_frame` or performs one of its stores.

`caughtUp` is a record of what was true during the last call of the reader: at some moment of it, all
published records had been returned.
-/

namespace Yijinjing.Publication

open Lib Prog

/-! ### The reader, one read at a time -/

inductive ReaderPc where
  /-- the last call has returned a frame, and its fields have been read -/
  | idle
  /-- the last call has returned null -/
  | null
  /-- a version mismatch was thrown -/
  | thrown
  /-- `isAtPageEnd` -/
  | atPageEnd
  /-- `getPage`: the answer of the service to the request -/
  | request (n : Int16)
  /-- `Page::load`: the file is mapped -/
  | mapPage (n : Int16)
  /-- `Page::load`: `header->status` -/
  | headerStatus (n : Int16)
  /-- `Page::load`: `header->frame_version` -/
  | headerVersion (n : Int16)
  /-- `locateReadableFrame` -/
  | locate
  /-- `header->nano` in `getNextFrame` -/
  | nano
  /-- `Frame::next`: the length that it returns -/
  | nextLength
  /-- `Frame::next`: the address of the next entry -/
  | nextEntry (length : Int32)
  /-- the user reads the fields of the returned frame -/
  | getNano (a : ℕ)
  | getMsgType (a : ℕ) (nano : Int64)
  | getLastFlag (a : ℕ) (nano : Int64) (msgType : Int16)
  | getDataLength (a : ℕ) (nano : Int64) (msgType : Int16) (lastFlag : UInt8)
  | getData (a : ℕ) (nano : Int64) (msgType : Int16) (lastFlag : UInt8) (length : Int32)
  deriving DecidableEq

structure Reader where
  pc : ReaderPc
  curPage : Option Page
  mapped : ℕ
  returned : List Record

namespace Reader

def inCall (r : Reader) : Bool :=
  match r.pc with
  | .atPageEnd | .request _ | .mapPage _ | .headerStatus _ | .headerVersion _ | .locate | .nano
  | .nextLength | .nextEntry _ => true
  | _ => false

def goto (r : Reader) (pc : ReaderPc) : Reader := { r with pc := pc }

/-- `getPage` yields no page: the current page becomes null, and the call returns null. -/
def noPage (r : Reader) : Reader := { r with curPage := none, pc := .null }

def step (fs : Files) (r : Reader) : Reader :=
  match r.pc, r.curPage with
  | .thrown, _ => r
  | .idle, some _ | .null, some _ => r.goto .atPageEnd
  | .request n, _ => if (fs.lookup n).isSome then r.goto (.mapPage n) else r.noPage
  | .mapPage n, _ => if (fs.lookup n).isSome then r.goto (.headerStatus n) else r.noPage
  | .headerStatus n, _ =>
    if PageHeader.status (fs.buffer n) == journalPageStatusRaw then r.noPage
    else r.goto (.headerVersion n)
  | .headerVersion n, _ =>
    if 0 < PageHeader.frameVersion (fs.buffer n) ∧ PageHeader.frameVersion (fs.buffer n) ≠ frameHeaderVersion then
      r.goto .thrown
    else { r with curPage := some (Page.new r.mapped n), mapped := r.mapped + 1, pc := .locate }
  | .getNano a, some p => r.goto (.getMsgType a (Frame.getNano (fs.buffer p.pageNum) a))
  | .getMsgType a nano, some p => r.goto (.getLastFlag a nano (Frame.getMsgType (fs.buffer p.pageNum) a))
  | .getLastFlag a nano msgType, some p =>
    r.goto (.getDataLength a nano msgType (Frame.getLastFlag (fs.buffer p.pageNum) a))
  | .getDataLength a nano msgType lastFlag, some p =>
    r.goto (.getData a nano msgType lastFlag (Frame.getDataLength (fs.buffer p.pageNum) a))
  | .getData a nano msgType lastFlag length, some p =>
    let data := (fs.buffer p.pageNum).load (a + basicFrameHeaderLength) length.toInt.toNat
    { r with returned := r.returned ++ [⟨data, nano, msgType, lastFlag⟩], pc := .idle }
  | .atPageEnd, some p =>
    if p.isAtPageEnd (fs.buffer p.pageNum) then r.goto (.request (p.pageNum + 1)) else r.goto .locate
  | .locate, some p =>
    if (p.locateReadableFrame (fs.buffer p.pageNum)).isSome then r.goto .nano else r.goto .null
  -- with one journal the time that is read has no consequence
  | .nano, some _ => r.goto .nextLength
  | .nextLength, some p => r.goto (.nextEntry (Frame.getFrameLength (fs.buffer p.pageNum) p.frame))
  | .nextEntry length, some p =>
    { r with
      curPage := some { p with
        position := p.position + length.toInt
        frame := Frame.getNextEntry (fs.buffer p.pageNum) p.frame
        frameNum := p.frameNum + 1 }
      pc := .getNano p.frame }
  -- without a current page, `locateFrame` asks for the first one
  | _, none => r.goto (.request 1)

end Reader

/-! ### The system -/

structure State where
  writer : Party
  reader : Reader
  caughtUp : Bool

inductive Action where
  | write (data : List UInt8) (msgType : Int16) (lastFlag : UInt8)
  | store
  | read

/-- Keep track of the moments at which everything published has been returned. -/
def observe (s : State) (writer : Party) (reader : Reader) : State :=
  let now := decide (reader.returned = writer.published)
  { writer := writer
    reader := reader
    caughtUp :=
      if s.reader.inCall then s.caughtUp || now
      else if reader.inCall then now
      else s.caughtUp }

def step (h : Host) (s : State) : Action → Option State
  | .write data msgType lastFlag =>
    let writer := s.writer.write h data msgType lastFlag
    if s.writer.alive ∧ s.writer.todo = [] ∧ Party.Admissible data ∧ Party.PagesLeft writer.env.files then
      some (observe s writer s.reader)
    else none
  | .store => s.writer.perform.map fun writer => observe s writer s.reader
  | .read => some (observe s s.writer (s.reader.step s.writer.files))

def firstWriter (h : Host) : Party := (Party.empty.create h).finish

def readerEnv (h : Host) : Env := { (firstWriter h).env with journal := Journal.create false }

/-- A reader that has sought `TIME_FROM_FIRST`. -/
def firstReader (h : Host) : Reader :=
  { pc := .idle
    curPage := (Prog.exec (Journal.seekTime h timeFromFirst) (readerEnv h)).2.journal.curPage
    mapped := 0
    returned := [] }

def publication (h : Host) : System State Action where
  init := { writer := firstWriter h, reader := firstReader h, caughtUp := false }
  step := step h

/-- The reader has been given a prefix of what is published, and it has been told that there is nothing
more only when, at some moment of the call, there was nothing more. -/
structure Safe (s : State) : Prop where
  prefix_published : s.reader.returned <+: s.writer.published
  null_caughtUp : s.reader.pc = .null → s.caughtUp = true

/-! ### The invariant -/

/-- While the user reads the fields of a returned frame, the cursor is already behind it. -/
def ReaderPc.passed : ReaderPc → ℕ
  | .getNano _ | .getMsgType _ _ | .getLastFlag _ _ _ | .getDataLength _ _ _ _ | .getData _ _ _ _ _ => 1
  | _ => 0

/-- What each point of the reader's program knows when the reader stands at `(i, j)`. -/
def Knows (v : View) (caughtUp : Bool) (i j : ℕ) : ReaderPc → Prop
  | .idle | .atPageEnd => True
  | .null => caughtUp = true
  | .thrown => False
  | .request n | .mapPage n | .headerStatus n | .headerVersion n =>
    n = pageNo (i + 1) ∧ i + 1 < v.pages.length ∧ j = (v.row i).length
  | .locate => caughtUp = true ∨ j < (v.row i).length
  | .nano | .nextLength => j < (v.row i).length
  | .nextEntry length => ∃ hj : j < (v.row i).length, length = Int32.ofNat ((v.row i)[j]).size
  | .getNano a => a = v.addr i j ∧ j < (v.row i).length
  | .getMsgType a nano => a = v.addr i j ∧ ∃ hj : j < (v.row i).length, nano = ((v.row i)[j]).nano
  | .getLastFlag a nano msgType => a = v.addr i j ∧ ∃ hj : j < (v.row i).length,
      nano = ((v.row i)[j]).nano ∧ msgType = ((v.row i)[j]).msgType
  | .getDataLength a nano msgType lastFlag => a = v.addr i j ∧ ∃ hj : j < (v.row i).length,
      nano = ((v.row i)[j]).nano ∧ msgType = ((v.row i)[j]).msgType ∧ lastFlag = ((v.row i)[j]).lastFlag
  | .getData a nano msgType lastFlag length => a = v.addr i j ∧ ∃ hj : j < (v.row i).length,
      nano = ((v.row i)[j]).nano ∧ msgType = ((v.row i)[j]).msgType ∧
        lastFlag = ((v.row i)[j]).lastFlag ∧ length.toInt = ((v.row i)[j]).data.length

/-- The reader stands at `(i, j)` and has returned what is before. -/
structure ReaderInv (v : View) (r : Reader) (caughtUp : Bool) (i j : ℕ) : Prop where
  place : v.Place i j
  knows : Knows v caughtUp i j r.pc
  curPage : ∃ buffer, r.curPage = some (v.cursor buffer i (j + r.pc.passed))
  returned : r.returned = taken (recordRows v.pages) i j

structure Inv (s : State) (v : View) : Prop where
  writer : PartyRep s.writer v
  alive : s.writer.alive = true
  reader : ∃ i j, ReaderInv v s.reader s.caughtUp i j
  now : s.reader.inCall = true → s.reader.returned = s.writer.published → s.caughtUp = true

variable {h : Host} {s t : State} {v w : View} {r : Reader} {c c' : Bool} {i j : ℕ} {fs : Files}
  {ρ : Option Record} {e : Effect}

/-! ### A store of the writer -/

theorem Next.row_prefix (hn : Next ρ fs v e w) (hi : i < v.pages.length) : v.row i <+: w.row i :=
  hn.grows.row_prefix (by rwa [length_recordRows])

theorem Next.addr_eq (hn : Next ρ fs v e w) (hpl : v.Place i j) : w.addr i j = v.addr i j := by
  have e : (w.row i).take j = (v.row i).take j := hn.grows.take_eq hpl
  unfold View.addr
  rw [e]

theorem Next.length_le (hn : Next ρ fs v e w) : v.pages.length ≤ w.pages.length := by
  have := hn.grows.length_le
  rwa [length_recordRows, length_recordRows] at this

/-- What the reader knows stays true when the writer goes on. -/
theorem Knows.next (hn : Next ρ fs v e w) (hpl : v.Place i j) (hc : c = true → c' = true) {pc : ReaderPc}
    (hk : Knows v c i j pc) : Knows w c' i j pc := by
  have hpre := Next.row_prefix hn hpl.lt
  have hlen : ∀ {j}, j < (v.row i).length → j < (w.row i).length :=
    fun hj => Nat.lt_of_lt_of_le hj hpre.length_le
  have hget : ∀ {j} (hj : j < (v.row i).length) (hj' : j < (w.row i).length),
      (w.row i)[j] = (v.row i)[j] :=
    fun hj _ => (hpre.getElem hj).symm
  have hrow : i + 1 < v.pages.length → w.row i = v.row i := fun hi =>
    hn.grows.getD_of_lt (by rwa [length_recordRows])
  have haddr := Next.addr_eq hn hpl
  cases pc with
  | idle => trivial
  | atPageEnd => trivial
  | null => exact hc hk
  | thrown => exact hk
  | request n => exact ⟨hk.1, Nat.lt_of_lt_of_le hk.2.1 (Next.length_le hn), hrow hk.2.1 ▸ hk.2.2⟩
  | mapPage n => exact ⟨hk.1, Nat.lt_of_lt_of_le hk.2.1 (Next.length_le hn), hrow hk.2.1 ▸ hk.2.2⟩
  | headerStatus n => exact ⟨hk.1, Nat.lt_of_lt_of_le hk.2.1 (Next.length_le hn), hrow hk.2.1 ▸ hk.2.2⟩
  | headerVersion n => exact ⟨hk.1, Nat.lt_of_lt_of_le hk.2.1 (Next.length_le hn), hrow hk.2.1 ▸ hk.2.2⟩
  | locate => exact hk.imp hc hlen
  | nano => exact hlen hk
  | nextLength => exact hlen hk
  | nextEntry length =>
    obtain ⟨hj, hl⟩ := hk
    exact ⟨hlen hj, by rw [hget hj]; exact hl⟩
  | getNano a => exact ⟨haddr ▸ hk.1, hlen hk.2⟩
  | getMsgType a nano =>
    obtain ⟨ha, hj, hl⟩ := hk
    exact ⟨haddr ▸ ha, hlen hj, by rw [hget hj]; exact hl⟩
  | getLastFlag a nano msgType =>
    obtain ⟨ha, hj, hl⟩ := hk
    exact ⟨haddr ▸ ha, hlen hj, by rw [hget hj]; exact hl⟩
  | getDataLength a nano msgType lastFlag =>
    obtain ⟨ha, hj, hl⟩ := hk
    exact ⟨haddr ▸ ha, hlen hj, by rw [hget hj]; exact hl⟩
  | getData a nano msgType lastFlag length =>
    obtain ⟨ha, hj, hl⟩ := hk
    exact ⟨haddr ▸ ha, hlen hj, by rw [hget hj]; exact hl⟩

theorem Knows.place (hpl : v.Place i j) {pc : ReaderPc} (hk : Knows v c i j pc) :
    v.Place i (j + pc.passed) := by
  refine ⟨hpl.1, ?_⟩
  have hle : j ≤ (v.row i).length := hpl.2
  show j + pc.passed ≤ (v.row i).length
  cases pc with
  | getNano a => exact hk.2
  | getMsgType a nano => exact hk.2.choose
  | getLastFlag a nano msgType => exact hk.2.choose
  | getDataLength a nano msgType lastFlag => exact hk.2.choose
  | getData a nano msgType lastFlag length => exact hk.2.choose
  | _ => exact hle

theorem ReaderInv.next (hn : Next ρ fs v e w) (hr : ReaderInv v r c i j) (hc : c = true → c' = true) :
    ReaderInv w r c' i j := by
  obtain ⟨buffer, hcur⟩ := hr.curPage
  have htake : (w.row i).take (j + r.pc.passed) = (v.row i).take (j + r.pc.passed) :=
    hn.grows.take_eq (hr.knows.place hr.place)
  refine ⟨hn.grows.inLog hr.place, hr.knows.next hn hr.place hc, ⟨buffer, ?_⟩, ?_⟩
  · rw [hcur]
    unfold View.cursor
    rw [htake]
  · rw [hr.returned, hn.grows.taken_eq hr.place]

end Yijinjing.Publication
