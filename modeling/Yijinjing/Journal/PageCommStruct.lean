import Yijinjing.Utils

/-!
# The page communication slots

`PageCommStruct.h`: the statuses of a slot of the communication file and the slot itself.  The
fields of a slot are written by two parties; the comments of the source say which.  A C string is
the list of its characters up to the terminator.
-/

namespace Yijinjing

/-- The `PAGED_COMM_*` constants. -/
inductive CommStatus where
  /-- this msg block is not allocated (default) -/
  | raw
  /-- comm msg idx occupied (by server) -/
  | occupied
  /-- folder / name ready (by client) -/
  | holding
  /-- page number specified (by client) -/
  | requesting
  /-- finish allocated, user may getPage (by server) -/
  | allocated
  | nonExist
  | memOverflow
  | moreThanOneWrite
  | cannotRenameFromTemp
  deriving DecidableEq

abbrev CStr := List Char

/-- The fields that the map order of `PageCommMsg` compares. -/
structure PageKey where
  folder : CStr
  name : CStr
  pageNum : Int16
  deriving DecidableEq

structure PageCommMsg where
  status : CommStatus
  folder : CStr
  name : CStr
  isWriter : Bool
  pageNum : Int16
  lastPageNum : Int16
  deriving DecidableEq

/-- The slot as a map key: `operator ==` and `operator <` look at these fields only. -/
def PageCommMsg.key (m : PageCommMsg) : PageKey := ⟨m.folder, m.name, m.pageNum⟩

/-- A slot of the zero-filled communication file. -/
def PageCommMsg.zero : PageCommMsg := ⟨.raw, [], [], false, 0, 0⟩

/-- `MAX_COMM_USER_NUMBER` -/
def maxCommUserNumber : ℕ := 1000

end Yijinjing
