import Yijinjing.Lib.CString
import Yijinjing.Paged.Registration

/-!
# Registration, byte by byte

`PagedSocketRequest` and `PageCommMsg` are packed structs with character arrays of a fixed size, and
`PageProvider` copies names into them by their own length.  The functions of `ClientPageProvider.cpp` are
given here by the stores they make, and `process_msg` and the slots by what the server reads; the memory
around a struct and what a buffer held before are arbitrary.
-/

namespace Yijinjing

open Lib

/-! ### Bytes and characters -/

/-- The characters of a byte string. -/
def CStr.ofBytes (bs : List UInt8) : CStr := bs.map fun b => Char.ofNat b.toNat

theorem CStr.ofBytes_injective : Function.Injective CStr.ofBytes := by
  refine List.map_injective_iff.mpr fun b c h => ?_
  have hval : ∀ b : UInt8, (Char.ofNat b.toNat).toNat = b.toNat := fun b => by
    have hlt := b.toNat_lt
    have hvalid : b.toNat.isValidChar := .inl (by omega)
    unfold Char.ofNat
    rw [dif_pos hvalid]
    rfl
  have hnat := congrArg Char.toNat h
  rw [hval, hval] at hnat
  exact UInt8.toNat_inj.mp hnat

/-! ### `PageSocketStruct.h` -/

/-- `PAGED_SOCKET_JOURNAL_REGISTER` -/
def pagedSocketJournalRegister : UInt8 := 11
/-- `PAGED_SOCKET_READER_REGISTER` -/
def pagedSocketReaderRegister : UInt8 := 12
/-- `PAGED_SOCKET_WRITER_REGISTER` -/
def pagedSocketWriterRegister : UInt8 := 13

/-- `SOCKET_MESSAGE_MAX_LENGTH` -/
def socketMessageMaxLength : ℕ := 500

/-- What a registration reads of a request.  The struct has `type` (1 byte), `name` (30), `pid` (4),
`hash_code` (4) and `source` (2). -/
structure PagedSocketRequest where
  type : UInt8
  name : List UInt8
  pid : Int32
  deriving DecidableEq

/-- `sizeof(PagedSocketRequest)` -/
def pagedSocketRequestSize : ℕ := 41

/-- The request in a message, `req->name` read as a C string; a name without an end is no request. -/
def PagedSocketRequest.decode (data : Mem) : Option PagedSocketRequest :=
  (data.cString (socketMessageMaxLength - 1) 1).map fun name => ⟨data 0, name, data.loadAs Int32 31⟩

/-! ### `PageCommStruct.h` -/

namespace CommStatus

/-- The values of the `PAGED_COMM_*` constants. -/
def byte : CommStatus → UInt8
  | raw => 0
  | occupied => 1
  | holding => 2
  | requesting => 3
  | allocated => 4
  | nonExist => 11
  | memOverflow => 12
  | moreThanOneWrite => 13
  | cannotRenameFromTemp => 14

def ofByte (b : UInt8) : Option CommStatus :=
  [raw, occupied, holding, requesting, allocated, nonExist, memOverflow, moreThanOneWrite,
    cannotRenameFromTemp].find? fun status => status.byte = b

end CommStatus

/-- `sizeof(PageCommMsg)`: `status` (1 byte), `folder` (100), `name` (30), `is_writer` (1), `page_num` (2)
and `last_page_num` (2). -/
def pageCommMsgSize : ℕ := 136

/-- `GET_COMM_MSG`, as an offset into the communication file. -/
def getCommMsg (idx : ℕ) : ℕ := idx * pageCommMsgSize

/-- The slot at an offset of the communication file, its names read as C strings. -/
def PageCommMsg.decode (m : Mem) (a : ℕ) : Option PageCommMsg :=
  match CommStatus.ofByte (m a), m.cString (commSize - (a + 1)) (a + 1),
    m.cString (commSize - (a + 101)) (a + 101) with
  | some status, some folder, some name =>
    some
      { status := status
        folder := CStr.ofBytes folder
        name := CStr.ofBytes name
        isWriter := m (a + 131) ≠ 0
        pageNum := m.loadAs Int16 (a + 132)
        lastPageNum := m.loadAs Int16 (a + 134) }
  | _, _, _ => none

/-! ### The stores of the client and the server -/

/-- The local variables of a request: the memory around `req`, its address, and `reqBuf`. -/
structure Locals where
  stack : Mem
  req : ℕ
  reqBuf : Mem

/-- Who registers, and for which journal. -/
structure Registrant where
  clientName : List UInt8
  pid : Int32
  isWriter : Bool
  dir : List UInt8
  jname : List UInt8

namespace PageProvider

/-- `PagedSocketRequest req = {}`, and its type. -/
def newRequest (v : Locals) (type : UInt8) : Locals :=
  { v with stack := (v.stack.store v.req (List.replicate pagedSocketRequestSize 0)).storeAs v.req type }

/-- `req.pid = getpid()` -/
def setPid (v : Locals) (pid : Int32) : Locals := { v with stack := v.stack.storeAs (v.req + 31) pid }

/-- `getSocketRspOnReq`: the name is copied into the request, and the request into the message. -/
def getSocketRspOnReq (v : Locals) (name : List UInt8) : Locals :=
  let stack := v.stack.storeCString (v.req + 1) name
  { v with stack := stack, reqBuf := v.reqBuf.store 0 (stack.load v.req pagedSocketRequestSize) }

variable (r : Registrant)

/-- The request type of `register_client`. -/
def clientType : UInt8 := if r.isWriter then pagedSocketWriterRegister else pagedSocketReaderRegister

/-- The request that `register_client` sends. -/
def clientRequest (v : Locals) : Locals :=
  getSocketRspOnReq (setPid (newRequest v (clientType r)) r.pid) r.clientName

/-- The request that `register_journal` sends. -/
def journalRequest (v : Locals) : Locals :=
  getSocketRspOnReq (newRequest v pagedSocketJournalRegister) r.clientName

/-- The stores of `register_journal` into the slot it has been given. -/
def fillSlot (m : Mem) (a : ℕ) : Option Mem :=
  if m a = CommStatus.occupied.byte then
    some (((((m.storeCString (a + 1) r.dir).storeCString (a + 101) r.jname).storeAs (a + 131)
      (if r.isWriter then 1 else 0 : UInt8))).storeAs a CommStatus.holding.byte)
  else none

/-- The stores of `getPage` into the slot. -/
def requestPage (m : Mem) (a : ℕ) (pageNum : Int16) : Mem :=
  (m.storeAs (a + 132) pageNum).storeAs a CommStatus.requesting.byte

end PageProvider

namespace PageSocketHandler

/-- The response of `process_msg`, if it reports success. -/
inductive Response where
  | client (rsp : ClientRsp)
  | journal (idx : ℕ)

/-- The cases of `process_msg` that register. -/
def processMsg (e : PageEngine) (req : PagedSocketRequest) (nano : Int64) : Option Response × PageEngine :=
  if req.type = pagedSocketJournalRegister then
    let (idx, e) := e.regJournal (CStr.ofBytes req.name)
    (idx.map .journal, e)
  else if req.type = pagedSocketReaderRegister ∨ req.type = pagedSocketWriterRegister then
    let (rsp, e) := e.regClient (CStr.ofBytes req.name) req.pid (req.type = pagedSocketWriterRegister) nano
    (rsp.map .client, e)
  else (none, e)

/-- What `reg_journal` stores into the slot that it gives away. -/
def occupySlot (m : Mem) (a : ℕ) : Mem := (m.storeAs a CommStatus.occupied.byte).storeAs (a + 134) (0 : Int16)

end PageSocketHandler

/-! ### A registration -/

/-- The page service, and the memory in which the client makes its two requests. -/
structure World where
  engine : PageEngine
  nano : Int64
  /-- the bytes of the communication file -/
  comm : Mem
  /-- the engine looks for RAW slots in the communication file -/
  raw_iff : ∀ idx < maxCommUserNumber,
    comm (getCommMsg idx) = CommStatus.raw.byte ↔ (engine.comm idx).status = .raw
  clientVars : Locals
  journalVars : Locals

/-- What a registration leaves. -/
structure Outcome where
  clientVars : Locals
  clientReq : PagedSocketRequest
  journalVars : Locals
  journalReq : PagedSocketRequest
  idx : ℕ
  comm : Mem

namespace Registrant

variable (r : Registrant) (w : World)

open PageProvider PageSocketHandler

/-- `register_client` and `register_journal`, with the server between; `none` if one of them throws. -/
def register : Option Outcome :=
  let clientVars := clientRequest r w.clientVars
  let journalVars := journalRequest r w.journalVars
  match PagedSocketRequest.decode clientVars.reqBuf, PagedSocketRequest.decode journalVars.reqBuf with
  | some clientReq, some journalReq =>
    match processMsg w.engine clientReq w.nano with
    | (some (.client _), e) =>
      match processMsg e journalReq w.nano with
      | (some (.journal idx), _) =>
        (fillSlot r (occupySlot w.comm (getCommMsg idx)) (getCommMsg idx)).map fun comm =>
          ⟨clientVars, clientReq, journalVars, journalReq, idx, comm⟩
      | _ => none
    | _ => none
  | _, _ => none

/-- **The registration is faithful**: the server reads what the client means, for every page that is
requested afterwards, and nothing else is stored over. -/
structure Carried (o : Outcome) : Prop where
  clientName : o.clientReq.name = r.clientName
  pid : o.clientReq.pid = r.pid
  journalClient : o.journalReq.name = r.clientName
  slot : ∀ pageNum, ∃ msg,
    PageCommMsg.decode (requestPage o.comm (getCommMsg o.idx) pageNum) (getCommMsg o.idx) = some msg ∧
      msg.folder = CStr.ofBytes r.dir ∧ msg.name = CStr.ofBytes r.jname ∧ msg.isWriter = r.isWriter ∧
      msg.path = genPageFullPath (CStr.ofBytes r.dir) (CStr.ofBytes r.jname) pageNum
  client_only : ∀ i, i < w.clientVars.req ∨ w.clientVars.req + pagedSocketRequestSize ≤ i →
    o.clientVars.stack i = w.clientVars.stack i
  journal_only : ∀ i, i < w.journalVars.req ∨ w.journalVars.req + pagedSocketRequestSize ≤ i →
    o.journalVars.stack i = w.journalVars.stack i
  slot_only : ∀ i, i < getCommMsg o.idx ∨ getCommMsg o.idx + pageCommMsgSize ≤ i → o.comm i = w.comm i

/-- The names fit the fields, or what runs over is the same as what belongs there. -/
structure Encodable : Prop where
  clientName_cstr : 0 ∉ r.clientName
  clientName_fits : r.clientName.length < 40
  /-- the bytes of the name behind its field are those of the pid -/
  pid_kept : ((r.clientName ++ [0]).drop journalShortNameMaxLength).take 4 <+: Scalar.encode r.pid
  dir_cstr : 0 ∉ r.dir
  /-- what runs over the folder is stored again as the journal name -/
  dir_fits : r.dir.length < journalFolderMaxLength ∨ r.dir.drop journalFolderMaxLength = r.jname
  jname_cstr : 0 ∉ r.jname
  /-- the terminator behind a full field is the `is_writer` of a reader -/
  jname_fits : r.jname.length < journalShortNameMaxLength ∨
    r.jname.length = journalShortNameMaxLength ∧ r.isWriter = false

instance decidableEncodable : Decidable r.Encodable :=
  decidable_of_iff (0 ∉ r.clientName ∧ r.clientName.length < 40 ∧
      ((r.clientName ++ [0]).drop journalShortNameMaxLength).take 4 <+: Scalar.encode r.pid ∧ 0 ∉ r.dir ∧
      (r.dir.length < journalFolderMaxLength ∨ r.dir.drop journalFolderMaxLength = r.jname) ∧ 0 ∉ r.jname ∧
      (r.jname.length < journalShortNameMaxLength ∨
        r.jname.length = journalShortNameMaxLength ∧ r.isWriter = false))
    ⟨fun ⟨h₁, h₂, h₃, h₄, h₅, h₆, h₇⟩ => ⟨h₁, h₂, h₃, h₄, h₅, h₆, h₇⟩,
      fun ⟨h₁, h₂, h₃, h₄, h₅, h₆, h₇⟩ => ⟨h₁, h₂, h₃, h₄, h₅, h₆, h₇⟩⟩

end Registrant

/-! ### The slot -/

open PageProvider PageSocketHandler

variable {r : Registrant} {w : World} {m : Mem} {a n i : ℕ} {bs : List UInt8} {pageNum : Int16}

theorem Registrant.Encodable.jname_length (hr : r.Encodable) : r.jname.length ≤ 30 := by
  have h30 : journalShortNameMaxLength = 30 := rfl
  rcases hr.jname_fits with h | h <;> omega

theorem Registrant.Encodable.dir_length (hr : r.Encodable) : r.dir.length ≤ 130 := by
  have h100 : journalFolderMaxLength = 100 := rfl
  have hjlen := hr.jname_length
  rcases hr.dir_fits with h | h
  · omega
  · have hover := congrArg List.length h
    rw [List.length_drop] at hover
    omega

/-- The bytes of the slot when a page is requested. -/
def requestedSlot (r : Registrant) (m : Mem) (a : ℕ) (pageNum : Int16) : Mem :=
  requestPage (((((occupySlot m a).storeCString (a + 1) r.dir).storeCString (a + 101) r.jname).storeAs (a + 131)
    (if r.isWriter then 1 else 0 : UInt8)).storeAs a CommStatus.holding.byte) a pageNum

/-- The client finds the slot occupied. -/
theorem fillSlot_occupySlot (r : Registrant) (m : Mem) (a : ℕ) : ∃ m', fillSlot r (occupySlot m a) a = some m' ∧
    ∀ pageNum, requestPage m' a pageNum = requestedSlot r m a pageNum := by
  have hocc : occupySlot m a a = CommStatus.occupied.byte := by
    refine ((m.storeAs a _).storeAs_outside (0 : Int16) (.inl (by omega))).trans ?_
    exact m.storeAs_byte _ _
  exact ⟨_, if_pos hocc, fun _ => rfl⟩

theorem requestedSlot_status (r : Registrant) (m : Mem) (a : ℕ) (pageNum : Int16) :
    requestedSlot r m a pageNum a = CommStatus.requesting.byte := Mem.storeAs_byte _ _ _

theorem requestedSlot_pageNum (r : Registrant) (m : Mem) (a : ℕ) (pageNum : Int16) :
    (requestedSlot r m a pageNum).At (a + 132) (Scalar.encode pageNum) :=
  Mem.At.storeAs (Mem.at_store _ _ _) _ (.inr (by simp))

theorem requestedSlot_isWriter (r : Registrant) (m : Mem) (a : ℕ) (pageNum : Int16) :
    requestedSlot r m a pageNum (a + 131) = if r.isWriter then 1 else 0 := by
  refine (Mem.storeAs_outside _ _ (.inr (by simp))).trans ?_
  refine (Mem.storeAs_outside _ _ (.inl (by omega))).trans ?_
  refine (Mem.storeAs_outside _ _ (.inr (by simp))).trans ?_
  exact Mem.storeAs_byte _ _ _

/-- What lies between the status and `is_writer` is not stored over. -/
theorem requestedSlot_at (hat : (((occupySlot m a).storeCString (a + 1) r.dir).storeCString (a + 101) r.jname).At n bs)
    (hlo : a < n) (hhi : n + bs.length ≤ a + 131) : (requestedSlot r m a pageNum).At n bs := by
  have h131 := hat.storeAs (b := a + 131) (if r.isWriter then 1 else 0 : UInt8) (.inl hhi)
  have hhold := h131.storeAs (b := a) CommStatus.holding.byte (.inr (by simp; omega))
  have h132 := hhold.storeAs (b := a + 132) pageNum (.inl (by omega))
  exact h132.storeAs (b := a) CommStatus.requesting.byte (.inr (by simp; omega))

/-- The journal name is found in the slot. -/
theorem requestedSlot_name (hr : r.Encodable) (m : Mem) (a : ℕ) (pageNum : Int16) :
    (requestedSlot r m a pageNum).At (a + 101) (r.jname ++ [0]) := by
  have hstored : (((occupySlot m a).storeCString (a + 1) r.dir).storeCString (a + 101) r.jname).At (a + 101)
      (r.jname ++ [0]) := Mem.at_store _ _ _
  have h30 : journalShortNameMaxLength = 30 := rfl
  rcases hr.jname_fits with hlt | ⟨hlen, hreader⟩
  · refine requestedSlot_at hstored (by omega) ?_
    rw [List.length_append, List.length_singleton]
    omega
  · -- the terminator is the flag of a reader
    refine Mem.at_append.mpr ⟨requestedSlot_at (Mem.at_append.mp hstored).1 (by omega) (by omega), ?_⟩
    have hflag := requestedSlot_isWriter r m a pageNum
    rw [hreader, if_neg (by decide)] at hflag
    have haddr : a + 101 + r.jname.length = a + 131 := by omega
    rw [haddr]
    exact Mem.at_singleton.mpr hflag

/-- The directory is found in the slot. -/
theorem requestedSlot_folder (hr : r.Encodable) (m : Mem) (a : ℕ) (pageNum : Int16) :
    (requestedSlot r m a pageNum).At (a + 1) (r.dir ++ [0]) := by
  have hstored : ((occupySlot m a).storeCString (a + 1) r.dir).At (a + 1) (r.dir ++ [0]) := Mem.at_store _ _ _
  have h100 : journalFolderMaxLength = 100 := rfl
  by_cases hlt : r.dir.length < journalFolderMaxLength
  · have hlen : (r.dir ++ [0]).length ≤ 100 := by
      rw [List.length_append, List.length_singleton]
      omega
    exact requestedSlot_at (hstored.store (.inl (by omega))) (by omega) (by omega)
  · -- what runs over the folder is the journal name
    have hover := hr.dir_fits.resolve_left hlt
    have htake : (r.dir.take journalFolderMaxLength).length = 100 := by
      rw [List.length_take]
      omega
    have hsplit : r.dir ++ [0] = r.dir.take journalFolderMaxLength ++ (r.jname ++ [0]) := by
      rw [← hover, ← List.append_assoc, List.take_append_drop]
    rw [hsplit] at hstored ⊢
    refine Mem.at_append.mpr ⟨?_, ?_⟩
    · have hfront := (Mem.at_append.mp hstored).1
      exact requestedSlot_at (hfront.store (.inl (by omega))) (by omega) (by omega)
    · have haddr : a + 1 + (r.dir.take journalFolderMaxLength).length = a + 101 := by omega
      rw [haddr]
      exact requestedSlot_name hr m a pageNum

/-- `reg_journal` has cleared the last page number. -/
theorem requestedSlot_lastPageNum (hr : r.Encodable) (m : Mem) (a : ℕ) (pageNum : Int16) :
    (requestedSlot r m a pageNum).At (a + 134) (Scalar.encode (0 : Int16)) := by
  have hjlen := hr.jname_length
  have hdlen := hr.dir_length
  have hcleared : (occupySlot m a).At (a + 134) (Scalar.encode (0 : Int16)) := Mem.at_store _ _ _
  have hdir : ((occupySlot m a).store (a + 1) (r.dir ++ [0])).At (a + 134) (Scalar.encode (0 : Int16)) :=
    hcleared.store (.inr (by simp; omega))
  have hjname : (((occupySlot m a).store (a + 1) (r.dir ++ [0])).store (a + 101) (r.jname ++ [0])).At (a + 134)
      (Scalar.encode (0 : Int16)) := hdir.store (.inr (by simp; omega))
  have hflag := hjname.storeAs (b := a + 131) (if r.isWriter then 1 else 0 : UInt8) (.inr (by simp))
  have hhold := hflag.storeAs (b := a) CommStatus.holding.byte (.inr (by simp))
  have hnum := hhold.storeAs (b := a + 132) pageNum (.inr (by simp))
  exact hnum.storeAs (b := a) CommStatus.requesting.byte (.inr (by simp))

/-- The communication file holds the slots, and 1024 bytes more. -/
theorem getCommMsg_le {idx : ℕ} (hidx : idx < maxCommUserNumber) :
    getCommMsg idx + pageCommMsgSize + 1024 ≤ commSize := by
  have h136 : pageCommMsgSize = 136 := rfl
  unfold getCommMsg commSize
  rw [h136]
  omega

/-- The server reads the slot as the client has filled it. -/
theorem decode_requestedSlot (hr : r.Encodable) (m : Mem) {idx : ℕ} (hidx : idx < maxCommUserNumber)
    (pageNum : Int16) : PageCommMsg.decode (requestedSlot r m (getCommMsg idx) pageNum) (getCommMsg idx) =
      some ⟨.requesting, CStr.ofBytes r.dir, CStr.ofBytes r.jname, r.isWriter, pageNum, 0⟩ := by
  have ha := getCommMsg_le hidx
  have h136 : pageCommMsgSize = 136 := rfl
  have hjlen := hr.jname_length
  have hdlen := hr.dir_length
  have hstatus := requestedSlot_status r m (getCommMsg idx) pageNum
  have hfolder := Mem.cString_eq_some_iff.mpr ⟨show r.dir.length < commSize - (getCommMsg idx + 1) by omega,
    hr.dir_cstr, requestedSlot_folder hr m (getCommMsg idx) pageNum⟩
  have hname := Mem.cString_eq_some_iff.mpr ⟨show r.jname.length < commSize - (getCommMsg idx + 101) by omega,
    hr.jname_cstr, requestedSlot_name hr m (getCommMsg idx) pageNum⟩
  have hflag := requestedSlot_isWriter r m (getCommMsg idx) pageNum
  have hnum := (requestedSlot_pageNum r m (getCommMsg idx) pageNum).loadAs
  have hlast := (requestedSlot_lastPageNum hr m (getCommMsg idx) pageNum).loadAs
  unfold PageCommMsg.decode
  rw [hstatus, hfolder, hname, hflag, hnum, hlast]
  have hbyte : CommStatus.ofByte CommStatus.requesting.byte = some .requesting := by decide
  simp only [hbyte]
  cases r.isWriter <;> rfl

/-- The bytes of a slot are the slot of the page service: filled in by its client, which asks for a page. -/
theorem decode_ask_hold (hr : r.Encodable) (m : Mem) {idx : ℕ} (hidx : idx < maxCommUserNumber)
    (pageNum : Int16) (e : PageEngine) :
    PageCommMsg.decode (requestedSlot r m (getCommMsg idx) pageNum) (getCommMsg idx) =
      some (ask (hold ((e.occupy idx).comm idx) (CStr.ofBytes r.dir) (CStr.ofBytes r.jname) r.isWriter) pageNum) := by
  rw [decode_requestedSlot hr m hidx, PageEngine.occupy_comm, if_pos rfl]
  rfl

/-! ### The requests -/

variable {v : Locals} {name s : List UInt8}

theorem getSocketRspOnReq_type (v : Locals) (name : List UInt8) :
    (getSocketRspOnReq v name).reqBuf 0 = v.stack v.req := by
  have hcopy := Mem.copy_apply (v.stack.storeCString (v.req + 1) name) v.reqBuf (a := v.req) (b := 0)
    (show 0 < pagedSocketRequestSize by decide)
  exact hcopy.trans (Mem.store_outside _ (.inl (by omega)))

theorem getSocketRspOnReq_pid (v : Locals) (name : List UInt8) :
    (getSocketRspOnReq v name).reqBuf.loadAs Int32 31 =
      (getSocketRspOnReq v name).stack.loadAs Int32 (v.req + 31) := by
  have hcopy := Mem.copy_loadAs (β := Int32) (v.stack.storeCString (v.req + 1) name) v.reqBuf (a := v.req)
    (b := 0) (show 31 + Scalar.width Int32 ≤ pagedSocketRequestSize by decide)
  rwa [Nat.zero_add] at hcopy

/-- As much of the name as the struct holds is found in the message. -/
theorem getSocketRspOnReq_name (v : Locals) (name : List UInt8) :
    (getSocketRspOnReq v name).reqBuf.At 1 ((name ++ [0]).take 40) := by
  have hstored : (v.stack.storeCString (v.req + 1) name).At (v.req + 1) (name ++ [0]) := Mem.at_store _ _ _
  rw [← List.take_append_drop 40 (name ++ [0])] at hstored
  have hfits : 1 + ((name ++ [0]).take 40).length ≤ pagedSocketRequestSize := by
    rw [List.length_take]
    have h41 : pagedSocketRequestSize = 41 := rfl
    omega
  have hcopy : (getSocketRspOnReq v name).reqBuf.At (0 + 1) ((name ++ [0]).take 40) :=
    (Mem.at_append.mp hstored).1.copy hfits
  rwa [Nat.zero_add] at hcopy

/-- Behind the struct the message holds what it held before. -/
theorem getSocketRspOnReq_rest (v : Locals) (name : List UInt8) (hi : pagedSocketRequestSize ≤ i) :
    (getSocketRspOnReq v name).reqBuf i = v.reqBuf i :=
  Mem.store_outside _ (.inr (by rwa [Mem.length_load, Nat.zero_add]))

theorem getSocketRspOnReq_decode {type : UInt8} (hs : (getSocketRspOnReq v name).reqBuf.At 1 (s ++ [0]))
    (htype : v.stack v.req = type) (hzero : 0 ∉ s) (hlen : s.length ≤ 40) :
    PagedSocketRequest.decode (getSocketRspOnReq v name).reqBuf =
      some ⟨type, s, (getSocketRspOnReq v name).stack.loadAs Int32 (v.req + 31)⟩ := by
  have h500 : socketMessageMaxLength = 500 := rfl
  have hread := Mem.cString_eq_some_iff.mpr
    ⟨show s.length < socketMessageMaxLength - 1 by omega, hzero, hs⟩
  unfold PagedSocketRequest.decode
  rw [hread, getSocketRspOnReq_type, getSocketRspOnReq_pid, htype]
  rfl

/-- The server reads a name that fits the struct. -/
theorem getSocketRspOnReq_decode_name (hzero : 0 ∉ name) (hlen : name.length < 40) (v : Locals) :
    PagedSocketRequest.decode (getSocketRspOnReq v name).reqBuf =
      some ⟨v.stack v.req, name, (getSocketRspOnReq v name).stack.loadAs Int32 (v.req + 31)⟩ := by
  have hsent := getSocketRspOnReq_name v name
  rw [List.take_of_length_le (by rw [List.length_append, List.length_singleton]; omega)] at hsent
  exact getSocketRspOnReq_decode hsent rfl hzero (by omega)

/-- Nothing outside a struct is stored over by a name that fits it. -/
theorem getSocketRspOnReq_outside (hlen : name.length < 40) (v : Locals)
    (hi : i < v.req ∨ v.req + pagedSocketRequestSize ≤ i) : (getSocketRspOnReq v name).stack i = v.stack i := by
  have h41 : pagedSocketRequestSize = 41 := rfl
  refine Mem.store_outside _ ?_
  rw [List.length_append, List.length_singleton]
  omega

theorem newRequest_type (v : Locals) (type : UInt8) : (newRequest v type).stack v.req = type :=
  Mem.storeAs_byte _ _ _

theorem newRequest_outside (v : Locals) (type : UInt8) (hi : i < v.req ∨ v.req + pagedSocketRequestSize ≤ i) :
    (newRequest v type).stack i = v.stack i := by
  have h41 : pagedSocketRequestSize = 41 := rfl
  refine (Mem.storeAs_outside _ _ (by simp; omega)).trans (Mem.store_outside _ ?_)
  rwa [List.length_replicate]

theorem setPid_outside (v : Locals) (pid : Int32) (hi : i < v.req + 31 ∨ v.req + 35 ≤ i) :
    (setPid v pid).stack i = v.stack i :=
  Mem.storeAs_outside _ _ (by simp; omega)

/-- The pid is kept if the name stores its bytes again. -/
theorem clientRequest_pid (hr : r.Encodable) (v : Locals) :
    (clientRequest r v).stack.loadAs Int32 (v.req + 31) = r.pid := by
  refine Mem.At.loadAs fun j hj => ?_
  have h4 : (Scalar.encode r.pid).length = 4 := Scalar.length_encode _
  have h30 : journalShortNameMaxLength = 30 := rfl
  have hstored := Mem.at_store (setPid (newRequest v (clientType r)) r.pid).stack (v.req + 1) (r.clientName ++ [0])
  by_cases hlt : 30 + j < (r.clientName ++ [0]).length
  · have hlen : j < (((r.clientName ++ [0]).drop journalShortNameMaxLength).take 4).length := by
      rw [List.length_take, List.length_drop]
      omega
    have hkept := (List.prefix_iff_getElem.mp hr.pid_kept).2 j hlen
    rw [List.getElem_take, List.getElem_drop] at hkept
    have haddr : v.req + 31 + j = v.req + 1 + (30 + j) := by omega
    rw [haddr]
    exact (hstored (30 + j) hlt).trans hkept
  · refine (Mem.store_outside (a := v.req + 1) _ (.inr (by omega))).trans ?_
    exact Mem.at_store (newRequest v (clientType r)).stack (v.req + 31) (Scalar.encode r.pid) j hj

namespace Registrant

/-! ### A faithful registration -/

variable {o : Outcome}

/-- What a registration has gone through. -/
theorem register_cases (h : r.register w = some o) :
    PagedSocketRequest.decode (clientRequest r w.clientVars).reqBuf = some o.clientReq ∧
      o.clientVars = clientRequest r w.clientVars ∧
      PagedSocketRequest.decode (journalRequest r w.journalVars).reqBuf = some o.journalReq ∧
      o.journalVars = journalRequest r w.journalVars ∧ o.idx < maxCommUserNumber ∧
      fillSlot r (occupySlot w.comm (getCommMsg o.idx)) (getCommMsg o.idx) = some o.comm := by
  unfold register at h
  dsimp only at h
  split at h
  case h_2 => cases h
  case h_1 clientReq journalReq hclient hjournal =>
  split at h
  case h_2 => cases h
  case h_1 e _ =>
  split at h
  case h_2 => cases h
  case h_1 idx e' hrsp =>
  obtain ⟨comm, hfill, rfl⟩ := Option.map_eq_some_iff.mp h
  refine ⟨hclient, rfl, hjournal, rfl, ?_, hfill⟩
  unfold processMsg at hrsp
  split at hrsp
  · rcases e.regJournal_cases (CStr.ofBytes journalReq.name) with ⟨-, hreg⟩ | ⟨_, -, -, hreg⟩ | ⟨j, _, hfree, -, hreg⟩
    · rw [hreg] at hrsp
      cases hrsp
    · rw [hreg] at hrsp
      cases hrsp
    · rw [hreg] at hrsp
      cases hrsp
      exact (PageEngine.freeIdx_some hfree).1
  · split at hrsp
    · rcases hreg : e.regClient (CStr.ofBytes journalReq.name) journalReq.pid
        (journalReq.type = pagedSocketWriterRegister) w.nano with ⟨rsp, e''⟩
      rw [hreg] at hrsp
      cases rsp <;> cases hrsp
    · cases hrsp

/-- Only the slot is stored over. -/
theorem fillSlot_outside (hr : r.Encodable) {m' : Mem} (h : fillSlot r (occupySlot m a) a = some m')
    (hi : i < a ∨ a + pageCommMsgSize ≤ i) : m' i = m i := by
  have h136 : pageCommMsgSize = 136 := rfl
  have hjlen := hr.jname_length
  have hdlen := hr.dir_length
  unfold fillSlot at h
  split at h
  case isFalse => cases h
  obtain rfl := Option.some.inj h
  refine (Mem.storeAs_outside _ _ (by simp; omega)).trans ?_
  refine (Mem.storeAs_outside _ _ (by simp; omega)).trans ?_
  refine (Mem.store_outside _ (by simp; omega)).trans ?_
  refine (Mem.store_outside _ (by simp; omega)).trans ?_
  refine (Mem.storeAs_outside _ _ (by simp; omega)).trans ?_
  exact Mem.storeAs_outside _ _ (by simp; omega)

theorem Encodable.carried (hr : r.Encodable) (h : r.register w = some o) : r.Carried w o := by
  obtain ⟨hclient, hcvars, hjournal, hjvars, hidx, hfill⟩ := register_cases h
  have hcreq := Option.some.inj (hclient.symm.trans
    (getSocketRspOnReq_decode_name hr.clientName_cstr hr.clientName_fits _))
  have hjreq := Option.some.inj (hjournal.symm.trans
    (getSocketRspOnReq_decode_name hr.clientName_cstr hr.clientName_fits _))
  obtain ⟨m', hm', hslot⟩ := fillSlot_occupySlot r w.comm (getCommMsg o.idx)
  obtain rfl := Option.some.inj (hm'.symm.trans hfill)
  refine ⟨by rw [hcreq], ?_, by rw [hjreq], fun pageNum => ?_, fun i hi => ?_, fun i hi => ?_, fun i hi => ?_⟩
  · rw [hcreq]
    exact clientRequest_pid hr w.clientVars
  · rw [hslot]
    exact ⟨_, decode_requestedSlot hr w.comm hidx pageNum, rfl, rfl, rfl, rfl⟩
  · rw [hcvars]
    refine (getSocketRspOnReq_outside hr.clientName_fits
      (setPid (newRequest w.clientVars (clientType r)) r.pid) hi).trans ?_
    refine (setPid_outside _ _ ?_).trans (newRequest_outside w.clientVars _ hi)
    have h41 : pagedSocketRequestSize = 41 := rfl
    show i < w.clientVars.req + 31 ∨ w.clientVars.req + 35 ≤ i
    omega
  · rw [hjvars]
    exact (getSocketRspOnReq_outside hr.clientName_fits (newRequest w.journalVars pagedSocketJournalRegister)
      hi).trans (newRequest_outside w.journalVars _ hi)
  · exact fillSlot_outside hr hfill hi

/-! ### A registration that is not faithful -/

/-- A stack that does not hold what a long name stores behind its struct. -/
def freshVars (name : List UInt8) : Locals := ⟨fun _ => (name ++ [0]).getD 40 0 + 1, 0, fun _ => 0⟩

/-- Nobody has registered yet. -/
def freshWorld (r : Registrant) : World where
  engine := Setup.bare.engine
  nano := 0
  comm _ := 0
  raw_iff _ _ := ⟨fun _ => rfl, fun _ => rfl⟩
  clientVars := freshVars r.clientName
  journalVars := freshVars r.clientName

/-- The server finds the same name in both messages, whatever stands behind it. -/
theorem exists_sent (name : List UInt8) : ∃ s : List UInt8, s.length ≤ 40 ∧ 0 ∉ s ∧
    ∀ m : Mem, m.At 1 ((name ++ [0]).take 40) → m 41 = 0 → m.At 1 (s ++ [0]) := by
  by_cases hmem : 0 ∈ (name ++ [0]).take 40
  · obtain ⟨s, rest, hs, hzero⟩ := List.eq_append_cons_of_mem hmem
    have hlen := congrArg List.length hs
    have hle := List.length_take_le 40 (name ++ [0])
    rw [hlen, List.length_append] at hle
    refine ⟨s, by omega, hzero, fun m hm _ => ?_⟩
    rw [hs, List.append_cons] at hm
    exact (Mem.at_append.mp hm).1
  · have hlen : ((name ++ [0]).take 40).length = 40 := by
      refine List.length_take_of_le (Nat.le_of_not_lt fun hlt => hmem ?_)
      rw [List.take_of_length_le hlt.le]
      exact List.mem_append_right _ List.mem_cons_self
    refine ⟨_, hlen.le, hmem, fun m hm h41 => Mem.at_append.mpr ⟨hm, ?_⟩⟩
    rw [hlen]
    exact Mem.at_singleton.mpr h41

theorem processMsg_client {e : PageEngine} {nano : Int64} {pid : Int32}
    (hl : e.clientJournals.lookup (CStr.ofBytes s) = none) : ∃ rsp, processMsg e ⟨clientType r, s, pid⟩ nano =
      (some (.client rsp), (e.regClient (CStr.ofBytes s) pid r.isWriter nano).2) := by
  have htype : clientType r ≠ pagedSocketJournalRegister ∧
      (clientType r = pagedSocketReaderRegister ∨ clientType r = pagedSocketWriterRegister) ∧
      decide (clientType r = pagedSocketWriterRegister) = r.isWriter := by
    unfold clientType
    cases r.isWriter <;> decide
  obtain ⟨rsp, hrsp⟩ : ∃ rsp, (e.regClient (CStr.ofBytes s) pid r.isWriter nano).1 = some rsp := by
    unfold PageEngine.regClient
    rw [hl]
    exact ⟨_, rfl⟩
  refine ⟨rsp, ?_⟩
  unfold processMsg
  rw [if_neg htype.1, if_pos htype.2.1, htype.2.2]
  dsimp only
  rw [hrsp]
  rfl

theorem processMsg_journal {e : PageEngine} {nano : Int64} {pid : Int32} (hfree : (e.comm 0).status = .raw)
    (hl : ∃ info, e.clientJournals.lookup (CStr.ofBytes s) = some info) :
    ∃ e', processMsg e ⟨pagedSocketJournalRegister, s, pid⟩ nano = (some (.journal 0), e') := by
  rcases e.regJournal_cases (CStr.ofBytes s) with ⟨hnone, -⟩ | ⟨_, -, hnone, -⟩ | ⟨idx, _, hidx, -, hreg⟩
  · rw [PageEngine.freeIdx_of_raw_zero hfree] at hnone
    cases hnone
  · obtain ⟨info, hl⟩ := hl
    rw [hl] at hnone
    cases hnone
  · rw [PageEngine.freeIdx_of_raw_zero hfree] at hidx
    obtain rfl := Option.some.inj hidx
    unfold processMsg
    rw [if_pos rfl, hreg]
    exact ⟨_, rfl⟩

theorem setPid_newRequest_type (v : Locals) (type : UInt8) (pid : Int32) :
    (setPid (newRequest v type) pid).stack v.req = type :=
  (setPid_outside (newRequest v type) pid (.inl (Nat.lt_add_of_pos_right (by decide)))).trans (newRequest_type v type)

/-- The first registration goes through, whatever the names are. -/
theorem register_fresh (r : Registrant) : ∃ o, r.register r.freshWorld = some o := by
  obtain ⟨s, hlen, hzero, hsent⟩ := exists_sent r.clientName
  obtain ⟨pid, hclient⟩ : ∃ pid, PagedSocketRequest.decode (clientRequest r r.freshWorld.clientVars).reqBuf =
      some ⟨clientType r, s, pid⟩ :=
    ⟨_, getSocketRspOnReq_decode (hsent _ (getSocketRspOnReq_name _ _) (getSocketRspOnReq_rest _ _ le_rfl))
      (setPid_newRequest_type r.freshWorld.clientVars _ _) hzero hlen⟩
  obtain ⟨pid', hjournal⟩ : ∃ pid', PagedSocketRequest.decode (journalRequest r r.freshWorld.journalVars).reqBuf =
      some ⟨pagedSocketJournalRegister, s, pid'⟩ :=
    ⟨_, getSocketRspOnReq_decode (hsent _ (getSocketRspOnReq_name _ _) (getSocketRspOnReq_rest _ _ le_rfl))
      (newRequest_type r.freshWorld.journalVars _) hzero hlen⟩
  have hnobody : r.freshWorld.engine.clientJournals.lookup (CStr.ofBytes s) = none := rfl
  obtain ⟨rsp, hrsp⟩ : ∃ rsp, processMsg r.freshWorld.engine ⟨clientType r, s, pid⟩ r.freshWorld.nano =
      (some (.client rsp), (r.freshWorld.engine.regClient (CStr.ofBytes s) pid r.isWriter r.freshWorld.nano).2) :=
    processMsg_client hnobody
  obtain ⟨-, hcomm, -⟩ := PageEngine.regClient_none pid r.isWriter r.freshWorld.nano hnobody
  obtain ⟨-, htable⟩ := PageEngine.regClient_tables pid r.isWriter r.freshWorld.nano hnobody
  generalize (r.freshWorld.engine.regClient (CStr.ofBytes s) pid r.isWriter r.freshWorld.nano).2 = e
    at hrsp hcomm htable
  have hfree : (e.comm 0).status = .raw := by
    rw [hcomm]
    rfl
  obtain ⟨e', hjrsp⟩ : ∃ e', processMsg e ⟨pagedSocketJournalRegister, s, pid'⟩ r.freshWorld.nano =
      (some (.journal 0), e') :=
    processMsg_journal hfree ⟨_, htable ▸ AList.lookup_insert r.freshWorld.engine.clientJournals⟩
  obtain ⟨m', hfill, -⟩ := fillSlot_occupySlot r r.freshWorld.comm (getCommMsg 0)
  unfold register
  dsimp only
  rw [hclient, hjournal]
  dsimp only
  rw [hrsp]
  dsimp only
  rw [hjrsp]
  dsimp only
  rw [hfill]
  exact ⟨_, rfl⟩

/-- The two names are where the server looks for them. -/
theorem requestedSlot_cstrs (h : ∃ msg, PageCommMsg.decode (requestedSlot r m a pageNum) a = some msg ∧
    msg.folder = CStr.ofBytes r.dir ∧ msg.name = CStr.ofBytes r.jname ∧ msg.isWriter = r.isWriter ∧
      msg.path = genPageFullPath (CStr.ofBytes r.dir) (CStr.ofBytes r.jname) pageNum) :
    0 ∉ r.dir ∧ 0 ∉ r.jname ∧ (requestedSlot r m a pageNum).At (a + 1) (r.dir ++ [0]) ∧
      (requestedSlot r m a pageNum).At (a + 101) (r.jname ++ [0]) := by
  obtain ⟨msg, hmsg, hfolder, hname, -, -⟩ := h
  unfold PageCommMsg.decode at hmsg
  split at hmsg
  case h_2 => cases hmsg
  case h_1 status dir jname _ hdir hjname =>
  obtain rfl := Option.some.inj hmsg
  obtain rfl := CStr.ofBytes_injective hfolder
  obtain rfl := CStr.ofBytes_injective hname
  obtain ⟨-, hdzero, hdat⟩ := Mem.cString_eq_some_iff.mp hdir
  obtain ⟨-, hjzero, hjat⟩ := Mem.cString_eq_some_iff.mp hjname
  exact ⟨hdzero, hjzero, hdat, hjat⟩

/-- A journal name that is found for every page does not run into the page number. -/
theorem jname_fits_of_at (h : ∀ pageNum, (requestedSlot r m a pageNum).At (a + 101) (r.jname ++ [0])) :
    r.jname.length < journalShortNameMaxLength ∨
      r.jname.length = journalShortNameMaxLength ∧ r.isWriter = false := by
  have h30 : journalShortNameMaxLength = 30 := rfl
  have hlen : (r.jname ++ [0]).length = r.jname.length + 1 := List.length_append
  have hshort : r.jname.length ≤ 30 := by
    refine Nat.le_of_not_lt fun hlong => ?_
    have hin : 31 < (r.jname ++ [0]).length := by omega
    have hbyte : ∀ pageNum : Int16, (r.jname ++ [0])[31] = (Scalar.encode pageNum)[0] := fun pageNum =>
      (h pageNum 31 hin).symm.trans (requestedSlot_pageNum r m a pageNum 0 (by simp))
    exact absurd ((hbyte 1).symm.trans (hbyte 2)) (by decide)
  rcases Nat.lt_or_eq_of_le hshort with hlt | heq
  · exact .inl hlt
  · refine .inr ⟨heq, ?_⟩
    have hflag := (Mem.at_append.mp (h 0)).2
    rw [heq, Mem.at_singleton] at hflag
    have hwriter := (requestedSlot_isWriter r m a 0).symm.trans hflag
    cases hw : r.isWriter
    · rfl
    · rw [hw] at hwriter
      cases hwriter

theorem dir_fits_of_at (h : 0 ∉ r.dir ∧ 0 ∉ r.jname ∧ m.At (a + 1) (r.dir ++ [0]) ∧
    m.At (a + 101) (r.jname ++ [0])) :
    r.dir.length < journalFolderMaxLength ∨ r.dir.drop journalFolderMaxLength = r.jname := by
  obtain ⟨hdzero, hjzero, hdir, hjname⟩ := h
  have h100 : journalFolderMaxLength = 100 := rfl
  rcases Nat.lt_or_ge r.dir.length journalFolderMaxLength with hlt | hge
  · exact .inl hlt
  · rw [← List.take_append_drop journalFolderMaxLength r.dir, List.append_assoc] at hdir
    have hover := (Mem.at_append.mp hdir).2
    rw [List.length_take_of_le hge] at hover
    exact .inr (Mem.at_cString_unique hover hjname (fun hmem => hdzero (List.mem_of_mem_drop hmem)) hjzero)

/-- What runs over the pid is the pid. -/
theorem pid_kept_of_at (hat : m.At 1 (r.clientName ++ [0])) (hpid : m.loadAs Int32 31 = r.pid) :
    ((r.clientName ++ [0]).drop journalShortNameMaxLength).take 4 <+: Scalar.encode r.pid := by
  have h30 : journalShortNameMaxLength = 30 := rfl
  have hbytes : Scalar.encode r.pid = m.load 31 4 := by
    rw [← hpid]
    exact encode_decode_int32 (Mem.length_load _ _ _)
  rw [hbytes]
  have hlen : (((r.clientName ++ [0]).drop journalShortNameMaxLength).take 4).length ≤ 4 := List.length_take_le _ _
  refine List.prefix_iff_getElem.mpr ⟨by rwa [Mem.length_load], fun j hj => ?_⟩
  have hin : 30 + j < (r.clientName ++ [0]).length := by
    rw [List.length_take, List.length_drop] at hj
    omega
  rw [List.getElem_take, List.getElem_drop]
  simp only [Mem.load, List.getElem_map, List.getElem_range]
  have haddr : 31 + j = 1 + (30 + j) := by omega
  rw [haddr]
  exact (hat (30 + j) hin).symm

/-- A registration that is faithful in every world encodes its names. -/
theorem encodable_of_carried (h : ∀ w o, r.register w = some o → r.Carried w o) : r.Encodable := by
  obtain ⟨o, ho⟩ := register_fresh r
  have hcarried := h _ _ ho
  obtain ⟨hclient, hcvars, hjournal, hjvars, -, hfill⟩ := register_cases ho
  have h41 : pagedSocketRequestSize = 41 := rfl
  have hstored : (clientRequest r r.freshWorld.clientVars).stack.At 1 (r.clientName ++ [0]) := Mem.at_store _ _ _
  -- a longer name stores over what lies behind the struct
  have hfits : r.clientName.length < 40 := by
    refine Nat.lt_of_not_le fun hlong => ?_
    have hlen : 40 < (r.clientName ++ [0]).length := by
      rw [List.length_append, List.length_singleton]
      omega
    have hkept := hcarried.client_only 41 (.inr (Nat.le_refl _))
    rw [hcvars] at hkept
    have hbyte : (r.clientName ++ [0])[40] = (r.clientName ++ [0]).getD 40 0 + 1 := (hstored 40 hlen).symm.trans hkept
    rw [List.getD_eq_getElem?_getD, List.getElem?_eq_getElem hlen, Option.getD_some] at hbyte
    have hsum := congrArg UInt8.toNat hbyte
    rw [UInt8.toNat_add, UInt8.toNat_one] at hsum
    omega
  obtain ⟨read, hread, hreq⟩ := Option.map_eq_some_iff.mp hclient
  have hname : read = r.clientName := (congrArg PagedSocketRequest.name hreq).trans hcarried.clientName
  rw [hname] at hread
  have hpid : (clientRequest r r.freshWorld.clientVars).stack.loadAs Int32 31 = r.pid := by
    refine (getSocketRspOnReq_pid _ r.clientName).symm.trans ?_
    exact (congrArg PagedSocketRequest.pid hreq).trans hcarried.pid
  obtain ⟨m', hm', hslot⟩ := fillSlot_occupySlot r r.freshWorld.comm (getCommMsg o.idx)
  obtain rfl := Option.some.inj (hm'.symm.trans hfill)
  have hcstrs := fun pageNum => requestedSlot_cstrs (hslot pageNum ▸ hcarried.slot pageNum)
  exact
    { clientName_cstr := (Mem.cString_eq_some_iff.mp hread).2.1
      clientName_fits := hfits
      pid_kept := pid_kept_of_at hstored hpid
      dir_cstr := (hcstrs 0).1
      dir_fits := dir_fits_of_at (hcstrs 0)
      jname_cstr := (hcstrs 0).2.1
      jname_fits := jname_fits_of_at fun pageNum => (hcstrs pageNum).2.2.2 }

/-- Names without a zero that leave room for their terminators are encoded. -/
theorem encodable_of_short (hname : 0 ∉ r.clientName) (hdir : 0 ∉ r.dir) (hjname : 0 ∉ r.jname)
    (hnlen : r.clientName.length < journalShortNameMaxLength) (hdlen : r.dir.length < journalFolderMaxLength)
    (hjlen : r.jname.length < journalShortNameMaxLength) : r.Encodable where
  clientName_cstr := hname
  clientName_fits := Nat.lt_trans hnlen (by decide)
  pid_kept := by
    rw [List.drop_eq_nil_of_le (by rw [List.length_append]; exact hnlen)]
    exact List.nil_prefix
  dir_cstr := hdir
  dir_fits := .inl hdlen
  jname_cstr := hjname
  jname_fits := .inl hjlen

/-- **A registration is faithful in every world if and only if the names can be encoded.** -/
theorem carried_iff (r : Registrant) : (∀ w o, r.register w = some o → r.Carried w o) ↔ r.Encodable :=
  ⟨encodable_of_carried, fun hr _ _ h => hr.carried h⟩

/-- The writer of a journal whose name fills its field. -/
def fullName : Registrant where
  clientName := "writer".toUTF8.toList
  pid := 4711
  isWriter := true
  dir := "/tmp".toUTF8.toList
  jname := List.replicate journalShortNameMaxLength 'j'.toUInt8

/-- The flag of a writer follows a journal name that fills its field, and the server reads on. -/
theorem fullName_not_carried : ¬ ∀ w o, fullName.register w = some o → fullName.Carried w o :=
  fun h => absurd (encodable_of_carried h).jname_fits (by decide)

end Registrant

/-- **The page service's own stores are those of the bytes** for names that fit: its slots are what the server reads. -/
theorem PageProvider.Fits.decode_ask_hold {dir jname : List UInt8} (hfit : Fits (CStr.ofBytes dir) (CStr.ofBytes jname))
    (hdir : 0 ∉ dir) (hjname : 0 ∉ jname) (isWriter : Bool) (m : Mem) {idx : ℕ} (hidx : idx < maxCommUserNumber)
    (pageNum : Int16) (e : PageEngine) :
    PageCommMsg.decode (requestedSlot ⟨[], 0, isWriter, dir, jname⟩ m (getCommMsg idx) pageNum) (getCommMsg idx) =
      some (ask (hold ((e.occupy idx).comm idx) (CStr.ofBytes dir) (CStr.ofBytes jname) isWriter) pageNum) := by
  obtain ⟨hdlen, hjlen⟩ := hfit
  rw [CStr.ofBytes, List.length_map] at hdlen hjlen
  have hnone : ([] : List UInt8).length < journalShortNameMaxLength := by decide
  have henc : Registrant.Encodable ⟨[], 0, isWriter, dir, jname⟩ :=
    Registrant.encodable_of_short List.not_mem_nil hdir hjname hnone hdlen hjlen
  exact Yijinjing.decode_ask_hold henc m hidx pageNum e

end Yijinjing
