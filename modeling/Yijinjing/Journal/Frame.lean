import Yijinjing.Utils

/-!
# Frames and page headers in a page buffer

`FrameHeader.h`, `Frame.hpp` and `PageHeader.h`.  A page buffer is a byte memory; a `Frame` is the
address of its packed header (`status` 1 byte, `nano` 8, `length` 4, `hash` 4, `msg_type` 2,
`last_flag` 1), followed by the data.  The page header sits at address 0 of the buffer.

A setter is given by the store it makes (`FrameStore`, `HeaderStore`), so that the stores of a call
can be executed at once or one at a time.
-/

namespace Yijinjing

open Lib

/-! ### `FrameHeader.h` -/

def journalFrameStatusRaw : UInt8 := 0
def journalFrameStatusWritten : UInt8 := 1
def journalFrameStatusPageEnd : UInt8 := 2

/-- `sizeof(FrameHeader)` -/
def basicFrameHeaderLength : ℕ := 20

/-- `__FRAME_HEADER_VERSION__` -/
def frameHeaderVersion : Int16 := 2

/-- What one frame holds: the arguments of `write_frame` and the time it was stamped with. -/
structure Record where
  data : List UInt8
  nano : Int64
  msgType : Int16
  lastFlag : UInt8
  deriving DecidableEq

/-- The bytes of the frame of a record. -/
def Record.size (r : Record) : ℕ := basicFrameHeaderLength + r.data.length

namespace Frame

variable (b : Mem) (a : ℕ)

def getStatus : UInt8 := b a
def getNano : Int64 := b.loadAs Int64 (a + 1)
def getFrameLength : Int32 := b.loadAs Int32 (a + 9)
def getHashCode : UInt32 := b.loadAs UInt32 (a + 13)
def getMsgType : Int16 := b.loadAs Int16 (a + 17)
def getLastFlag : UInt8 := b.loadAs UInt8 (a + 19)
def getDataLength : Int32 := getFrameLength b a - Int32.ofNat basicFrameHeaderLength

/-- The bytes of the data field (`getData` with `getDataLength`). -/
def getData : List UInt8 := b.load (a + basicFrameHeaderLength) (getDataLength b a).toInt.toNat

/-- Address of the next frame header. -/
def getNextEntry : ℕ := addressAdd a (getFrameLength b a)

end Frame

/-- One store of a `Frame` method, at the frame's address. -/
inductive FrameStore where
  | msgType (v : Int16)
  | lastFlag (v : UInt8)
  | data (bs : List UInt8)
  | frameLength (v : Int32)
  | hashCode (v : UInt32)
  | nano (v : Int64)
  | nextStatus (v : UInt8)
  | status (v : UInt8)
  deriving DecidableEq

def FrameStore.exec (a : ℕ) (b : Mem) : FrameStore → Mem
  | .msgType v => b.storeAs (a + 17) v
  | .lastFlag v => b.storeAs (a + 19) v
  | .data bs => b.store (a + basicFrameHeaderLength) bs
  | .frameLength v => b.storeAs (a + 9) v
  | .hashCode v => b.storeAs (a + 13) v
  | .nano v => b.storeAs (a + 1) v
  | .nextStatus v => b.storeAs (Frame.getNextEntry b a) v
  | .status v => b.storeAs a v

namespace Frame

/-- The store of `setHashCode`, made under `FRAME_AUTO_SET_HASHCODE` only. -/
def autoHashCode (autoHash : Bool) (data : List UInt8) : List FrameStore :=
  if autoHash then [.hashCode (murmurHash2 data hashSeed)] else []

/-- `setFrameLength(BASIC_FRAME_HEADER_LENGTH + dataLength)` -/
def setFrameLength (dataLength : ℕ) : List FrameStore :=
  [.frameLength (Int32.ofNat (basicFrameHeaderLength + dataLength))]

def setMsgType (v : Int16) : List FrameStore := [.msgType v]
def setLastFlag (v : UInt8) : List FrameStore := [.lastFlag v]
def setNano (v : Int64) : List FrameStore := [.nano v]

def setData (autoHash : Bool) (data : List UInt8) : List FrameStore :=
  [.data data] ++ setFrameLength data.length ++ autoHashCode autoHash data

/-- `setDataLength`: the hash is taken over the data area of the frame itself. -/
def setDataLength (autoHash : Bool) (b : Mem) (a dataLength : ℕ) : List FrameStore :=
  setFrameLength dataLength ++
    autoHashCode autoHash (b.load (a + basicFrameHeaderLength) dataLength)

/-- `setStatusWritten`: first the status of the next entry, then the frame's own. -/
def setStatusWritten : List FrameStore :=
  [.nextStatus journalFrameStatusRaw, .status journalFrameStatusWritten]

def setStatusPageClosed : List FrameStore := [.status journalFrameStatusPageEnd]

end Frame

/-! ### `PageHeader.h` -/

def journalPageStatusRaw : UInt8 := 0
def journalPageStatusInited : UInt8 := 1

/-- `sizeof(PageHeader)` -/
def pageHeaderSize : ℕ := 137

namespace PageHeader

variable (b : Mem)

def status : UInt8 := b 0
def pageNum : Int16 := b.loadAs Int16 31
def startNano : Int64 := b.loadAs Int64 33
def closeNano : Int64 := b.loadAs Int64 41
def frameNum : Int32 := b.loadAs Int32 49
def lastPos : Int32 := b.loadAs Int32 53
def frameVersion : Int16 := b.loadAs Int16 57

end PageHeader

/-- One store into the page header. -/
inductive HeaderStore where
  | journalName (cs : List UInt8)
  | startNano (v : Int64)
  | closeNano (v : Int64)
  | pageNum (v : Int16)
  | status (v : UInt8)
  | frameVersion (v : Int16)
  | frameNum (v : Int32)
  | lastPos (v : Int32)
  deriving DecidableEq

def HeaderStore.exec (b : Mem) : HeaderStore → Mem
  | .journalName cs => b.store 1 cs
  | .startNano v => b.storeAs 33 v
  | .closeNano v => b.storeAs 41 v
  | .pageNum v => b.storeAs 31 v
  | .status v => b.storeAs 0 v
  | .frameVersion v => b.storeAs 57 v
  | .frameNum v => b.storeAs 49 v
  | .lastPos v => b.storeAs 53 v

/-- The first frame of a page (`PAGE_INIT_POSITION`). -/
def pageInitPosition : ℕ := pageHeaderSize

end Yijinjing
