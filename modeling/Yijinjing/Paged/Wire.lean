import Yijinjing.Paged.Encodings

/-!
# The socket, byte for byte

An exchange over the socket: `ClientPageProvider.cpp` writes a message of which a struct and a name are the
first bytes, `process_msg` overwrites its copy of the message with the response, and the client reads the
response struct out of what comes back.  What the buffers and structs held before is arbitrary, and
`read_some` may deliver only a part of a message as long as the structs have arrived.

If the name of the client and the name of the communication file fit their fields, an exchange is the call
of the engine's function with the client's arguments, and the client reads what the function returns
(`registerClient_spec`, `registerJournal_spec`, `exitClient_spec`).
-/

namespace Yijinjing

open Lib

/-- The bytes of a text. -/
def CStr.toBytes (cs : CStr) : List UInt8 := cs.map fun c => UInt8.ofNat c.toNat

namespace Wire

open PageProvider

/-! ### `PageSocketStruct.h` -/

/-- `PAGED_SOCKET_CONNECTION_TEST` -/
def pagedSocketConnectionTest : UInt8 := 0
/-- `PAGED_SOCKET_CLIENT_EXIT` -/
def pagedSocketClientExit : UInt8 := 19
/-- `TIMER_SEC_DIFF_REQUEST` -/
def timerSecDiffRequest : UInt8 := 99

/-- `sizeof(PagedSocketResponse)`: `type` (1 byte), `success` (1) and `error_msg` (100). -/
def pagedSocketResponseSize : ℕ := 102

/-- `sizeof(PagedSocketRspClient)`: behind the response `comm_file` (100) and, aligned, `file_size` at 204
and `hash_code` at 208. -/
def pagedSocketRspClientSize : ℕ := 212

/-- `sizeof(PagedSocketRspJournal)`: behind the response, aligned, `comm_idx` at 104. -/
def pagedSocketRspJournalSize : ℕ := 108

/-! ### `PageSocketHandler::process_msg` -/

/-- What an exchange finds in the server: the memory at `rsp`, what the variables hold that `reg_client`
has not set, and the times. -/
structure ServerVars where
  rsp : Mem
  fileSize : Int32
  hashCode : Int32
  nano : Int64
  secDiff : Int64

/-- `rsp = {}`, its type and its success. -/
def newResponse (m : Mem) (size : ℕ) (type : UInt8) (success : Bool) : Mem :=
  ((m.store 0 (List.replicate size 0)).storeAs 0 type).storeAs 1 (if success then 1 else 0 : UInt8)

/-- The stores into a `PagedSocketRspJournal`; `none` is the index -1. -/
def rspJournal (m : Mem) (type : UInt8) (idx : Option ℕ) : Mem :=
  (newResponse m pagedSocketRspJournalSize type idx.isSome).storeAs 104
    (idx.elim (-1) Int32.ofNat)

/-- The stores into a `PagedSocketRspClient`; the name of the file comes last. -/
def rspClient (m : Mem) (type : UInt8) (ret : Bool) (fileSize hashCode : Int32) (commFile : List UInt8) : Mem :=
  (((newResponse m pagedSocketRspClientSize type ret).storeAs 204 fileSize).storeAs 208 hashCode).storeCString
    102 commFile

/-- The response to a registration; without success the variables are as they were. -/
def rspOfClient (v : ServerVars) (type : UInt8) : Option ClientRsp → Mem
  | some r => rspClient v.rsp type true (Int32.ofNat r.fileSize) r.hashCode (CStr.toBytes r.commFile)
  | none => rspClient v.rsp type false v.fileSize v.hashCode []

/-- `timer.dump()` -/
def dump (nano secDiff : Int64) : CStr :=
  "\x7b\"nano\":".toList ++ decimal nano.toInt ++ ",\"secDiff\":".toList ++ decimal secDiff.toInt ++ "\x7d".toList

def greetings : CStr := "Hello, world!".toList

/-- `process_msg` on the message in `data`; `none` if the name in it has no end. -/
def processMsg (e : PageEngine) (data : Mem) (v : ServerVars) : Option (Mem × PageEngine) :=
  let type := data 0
  let name := (data.cString (socketMessageMaxLength - 1) 1).map CStr.ofBytes
  if type = timerSecDiffRequest then
    some (data.storeCString 0 (CStr.toBytes (dump v.nano v.secDiff)), e)
  else if type = pagedSocketConnectionTest then
    some (data.storeCString 0 (CStr.toBytes greetings), e)
  else if type = pagedSocketJournalRegister then
    name.map fun name =>
      let (idx, e) := e.regJournal name
      (data.store 0 ((rspJournal v.rsp type idx).load 0 pagedSocketRspJournalSize), e)
  else if type = pagedSocketReaderRegister ∨ type = pagedSocketWriterRegister then
    name.map fun name =>
      let (ret, e) := e.regClient name (data.loadAs Int32 31) (type = pagedSocketWriterRegister) v.nano
      (data.store 0 ((rspOfClient v type ret).load 0 pagedSocketRspClientSize), e)
  else if type = pagedSocketClientExit then
    name.map fun name =>
      (data.store 0 ((newResponse v.rsp pagedSocketResponseSize type true).load 0 pagedSocketResponseSize),
        e.exitClient name (data.loadAs Int32 35) true)
  else some (data, e)

/-! ### `ClientPageProvider.cpp` -/

/-- How many bytes of the request and of the response `read_some` delivers. -/
structure Arrival where
  request : ℕ
  response : ℕ
  request_ge : pagedSocketRequestSize ≤ request
  request_le : request ≤ socketMessageMaxLength
  response_ge : pagedSocketRspClientSize ≤ response
  response_le : response ≤ socketMessageMaxLength

/-- All that an exchange finds: the variables of the client, the array for the response and the server. -/
structure Exchange where
  vars : Locals
  rspArray : Mem
  server : ServerVars
  arrival : Arrival

/-- `getSocketRsp`: what the client finds in the array, and the server with its `_data`. -/
def getSocketRsp (e : PageEngine) (data reqBuf : Mem) (x : Exchange) : Option (Mem × Mem × PageEngine) :=
  (processMsg e (data.store 0 (reqBuf.load 0 x.arrival.request)) x.server).map fun (data, e) =>
    (x.rspArray.store 0 (data.load 0 x.arrival.response), data, e)

/-- What `register_client` keeps of the response. -/
structure Granted where
  hashCode : Int32
  commFile : Option (List UInt8)
  fileSize : Int32

/-- What `register_client` reads in the array; it throws if that is no success. -/
def readClient (type : UInt8) (rsp : Mem) : Option Granted :=
  if rsp 0 = type ∧ rsp 1 ≠ 0 then
    some ⟨rsp.loadAs Int32 208, rsp.cString (socketMessageMaxLength - 102) 102, rsp.loadAs Int32 204⟩
  else none

def registerClient (name : List UInt8) (pid : Int32) (isWriter : Bool) (e : PageEngine) (data : Mem) (x : Exchange) :
    Option (Option Granted × Mem × PageEngine) :=
  let r : Registrant := ⟨name, pid, isWriter, [], []⟩
  (getSocketRsp e data (clientRequest r x.vars).reqBuf x).map fun (rsp, data, e) =>
    (readClient (clientType r) rsp, data, e)

/-- What `register_journal` reads in the array: the index in the communication file. -/
def readJournal (rsp : Mem) : Option Int32 :=
  if rsp 0 = pagedSocketJournalRegister ∧ rsp 1 ≠ 0 then some (rsp.loadAs Int32 104) else none

/-- `register_journal`, up to the slot. -/
def registerJournal (name : List UInt8) (e : PageEngine) (data : Mem) (x : Exchange) :
    Option (Option Int32 × Mem × PageEngine) :=
  let r : Registrant := ⟨name, 0, false, [], []⟩
  (getSocketRsp e data (journalRequest r x.vars).reqBuf x).map fun (rsp, data, e) => (readJournal rsp, data, e)

/-- The request of `exit_client`. -/
def exitRequest (name : List UInt8) (hashCode : Int32) (v : Locals) : Locals :=
  let v := newRequest v pagedSocketClientExit
  getSocketRspOnReq { v with stack := v.stack.storeAs (v.req + 35) hashCode } name

def exitClient (name : List UInt8) (hashCode : Int32) (e : PageEngine) (data : Mem) (x : Exchange) :
    Option (Mem × PageEngine) :=
  (getSocketRsp e data (exitRequest name hashCode x.vars).reqBuf x).map fun (_, data, e) => (data, e)

/-- `get_socket_diff`, up to the text that it hands to the json reader. -/
def getSocketDiff (e : PageEngine) (data : Mem) (input : Mem) (x : Exchange) :
    Option (Option (List UInt8) × Mem × PageEngine) :=
  (getSocketRsp e data (input.storeAs 0 timerSecDiffRequest) x).map fun (rsp, data, e) =>
    (rsp.cString socketMessageMaxLength 0, data, e)

/-! ### What arrives at the server -/

/-- The name fits its field. -/
structure ShortName (name : List UInt8) : Prop where
  cstr : 0 ∉ name
  fits : name.length < journalShortNameMaxLength

/-- The name of the communication file fits its field, and the two bytes behind it. -/
structure CommFileFits (commFile : CStr) : Prop where
  cstr : 0 ∉ CStr.toBytes commFile
  fits : commFile.length < 102

/-- What `process_msg` reads of a message. -/
structure Received (m : Mem) (type : UInt8) (name : List UInt8) (pid hashCode : Int32) : Prop where
  type : m 0 = type
  name : m.cString (socketMessageMaxLength - 1) 1 = some name
  pid : m.loadAs Int32 31 = pid
  hashCode : m.loadAs Int32 35 = hashCode

variable {name : List UInt8} {v : Locals} {data : Mem} {n : ℕ}

/-- A field behind the name is sent as it is. -/
theorem reqBuf_loadAs (hname : ShortName name) (v : Locals) {k : ℕ} (hlo : 31 ≤ k) (hhi : k + 4 ≤ 41) :
    (getSocketRspOnReq v name).reqBuf.loadAs Int32 k = v.stack.loadAs Int32 (v.req + k) := by
  have hfits := hname.fits
  have h30 : journalShortNameMaxLength = 30 := rfl
  have hcopy := Mem.copy_loadAs (β := Int32) (v.stack.storeCString (v.req + 1) name) v.reqBuf (a := v.req)
    (b := 0) (c := k) (n := pagedSocketRequestSize) hhi
  rw [Nat.zero_add] at hcopy
  refine hcopy.trans (Mem.loadAs_congr fun i hi _ => Mem.store_outside _ (.inr ?_))
  rw [List.length_append, List.length_singleton]
  omega

theorem Received.of_request (hname : ShortName name) (v : Locals) (data : Mem) (hn : pagedSocketRequestSize ≤ n) :
    Received (data.store 0 ((getSocketRspOnReq v name).reqBuf.load 0 n)) (v.stack v.req) name
      (v.stack.loadAs Int32 (v.req + 31)) (v.stack.loadAs Int32 (v.req + 35)) := by
  have h41 : pagedSocketRequestSize = 41 := rfl
  have h30 : journalShortNameMaxLength = 30 := rfl
  have hfits := hname.fits
  have hlen : (name ++ [0]).length = name.length + 1 := by simp
  have hsent := getSocketRspOnReq_name v name
  rw [List.take_of_length_le (by omega)] at hsent
  refine ⟨?_, ?_, ?_, ?_⟩
  · exact (Mem.copy_prefix _ _ (by omega)).trans (getSocketRspOnReq_type v name)
  · refine Mem.cString_eq_some_iff.mpr ⟨?_, hname.cstr, hsent.copy_prefix data (by omega)⟩
    have h500 : socketMessageMaxLength = 500 := rfl
    omega
  · rw [Mem.copy_prefix_loadAs _ _ (by simp; omega), reqBuf_loadAs hname v (by omega) (by omega)]
  · rw [Mem.copy_prefix_loadAs _ _ (by simp; omega), reqBuf_loadAs hname v (by omega) (by omega)]

/-- What the client has written into its struct. -/
theorem Received.of_client (hname : ShortName name) (pid : Int32) (isWriter : Bool) (v : Locals) (data : Mem)
    (hn : pagedSocketRequestSize ≤ n) : ∃ hashCode,
      Received (data.store 0 ((clientRequest ⟨name, pid, isWriter, [], []⟩ v).reqBuf.load 0 n))
        (clientType ⟨name, pid, isWriter, [], []⟩) name pid hashCode := by
  let r : Registrant := ⟨name, pid, isWriter, [], []⟩
  have hr := Received.of_request hname (setPid (newRequest v (clientType r)) r.pid) data hn
  have hreq : (setPid (newRequest v (clientType r)) r.pid).req = v.req := rfl
  have htype : (setPid (newRequest v (clientType r)) r.pid).stack v.req = clientType r :=
    Registrant.setPid_newRequest_type v (clientType r) r.pid
  have hpid : (setPid (newRequest v (clientType r)) r.pid).stack.loadAs Int32 (v.req + 31) = pid :=
    Mem.loadAs_storeAs _ _ _
  rw [hreq, htype, hpid] at hr
  exact ⟨_, hr⟩

theorem Received.of_journal (hname : ShortName name) (v : Locals) (data : Mem) (hn : pagedSocketRequestSize ≤ n) :
    ∃ pid hashCode, Received (data.store 0 ((journalRequest ⟨name, 0, false, [], []⟩ v).reqBuf.load 0 n))
      pagedSocketJournalRegister name pid hashCode := by
  have hr := Received.of_request hname (newRequest v pagedSocketJournalRegister) data hn
  have hreq : (newRequest v pagedSocketJournalRegister).req = v.req := rfl
  rw [hreq, newRequest_type] at hr
  exact ⟨_, _, hr⟩

theorem Received.of_exit (hname : ShortName name) (hashCode : Int32) (v : Locals) (data : Mem)
    (hn : pagedSocketRequestSize ≤ n) : ∃ pid,
      Received (data.store 0 ((exitRequest name hashCode v).reqBuf.load 0 n)) pagedSocketClientExit name pid
        hashCode := by
  let v' := newRequest v pagedSocketClientExit
  let v'' : Locals := { v' with stack := v'.stack.storeAs (v'.req + 35) hashCode }
  have hr := Received.of_request hname v'' data hn
  have hreq : v''.req = v.req := rfl
  have htype : v''.stack v.req = pagedSocketClientExit :=
    (Mem.storeAs_outside _ _ (.inl (by show v.req < v.req + 35; omega))).trans (newRequest_type v _)
  have hhash : v''.stack.loadAs Int32 (v.req + 35) = hashCode := Mem.loadAs_storeAs _ _ _
  rw [hreq, htype, hhash] at hr
  exact ⟨_, hr⟩

/-! ### What comes back to the client -/

section Response

variable {m rsp : Mem} {size : ℕ} {type : UInt8} {success : Bool} {x : Exchange}

theorem newResponse_type (m : Mem) (size : ℕ) (type : UInt8) (success : Bool) :
    newResponse m size type success 0 = type := by
  unfold newResponse
  rw [Mem.storeAs_outside _ _ (.inl (by omega)), Mem.storeAs_byte]

theorem newResponse_success (m : Mem) (size : ℕ) (type : UInt8) (success : Bool) :
    newResponse m size type success 1 ≠ 0 ↔ success = true := by
  unfold newResponse
  rw [Mem.storeAs_byte]
  cases success <;> decide

/-- The client sees the response struct. -/
def Shows (m rsp : Mem) (size : ℕ) : Prop := ∀ i < size, m i = rsp i

theorem Shows.of_exchange (data rsp : Mem) (x : Exchange) (hsize : size ≤ pagedSocketRspClientSize) :
    Shows (x.rspArray.store 0 ((data.store 0 (rsp.load 0 size)).load 0 x.arrival.response)) rsp size := by
  intro i hi
  have hge := x.arrival.response_ge
  exact (Mem.copy_prefix _ _ (by omega)).trans (Mem.copy_prefix _ _ hi)

theorem Shows.loadAs (h : Shows m rsp size) {k : ℕ} (hk : k + 4 ≤ size) :
    m.loadAs Int32 k = rsp.loadAs Int32 k :=
  Mem.loadAs_congr fun i _ hi => h i (by rw [width_int32] at hi; omega)

theorem Shows.at {bs : List UInt8} {a : ℕ} (h : Shows m rsp size) (hat : rsp.At a bs) (ha : a + bs.length ≤ size) :
    m.At a bs :=
  hat.congr fun i _ hi => (h i (by omega)).symm

theorem rspClient_fields {commFile : List UInt8} (hlen : commFile.length < 102) (ret : Bool)
    (fileSize hashCode : Int32) :
    rspClient m type ret fileSize hashCode commFile 0 = type ∧
      (rspClient m type ret fileSize hashCode commFile 1 ≠ 0 ↔ ret = true) ∧
      (rspClient m type ret fileSize hashCode commFile).loadAs Int32 204 = fileSize ∧
      (rspClient m type ret fileSize hashCode commFile).loadAs Int32 208 = hashCode ∧
      (rspClient m type ret fileSize hashCode commFile).At 102 (commFile ++ [0]) := by
  have hstored : (commFile ++ [0]).length = commFile.length + 1 := by simp
  unfold rspClient Mem.storeCString
  refine ⟨?_, ?_, ?_, ?_, Mem.at_store _ _ _⟩
  · rw [Mem.store_outside _ (.inl (by omega)), Mem.storeAs_outside _ _ (.inl (by omega)),
      Mem.storeAs_outside _ _ (.inl (by omega)), newResponse_type]
  · rw [Mem.store_outside _ (.inl (by omega)), Mem.storeAs_outside _ _ (.inl (by omega)),
      Mem.storeAs_outside _ _ (.inl (by omega)), newResponse_success]
  · rw [Mem.loadAs_store_disjoint _ (by simp; omega), Mem.loadAs_storeAs_disjoint _ _ (by simp),
      Mem.loadAs_storeAs]
  · rw [Mem.loadAs_store_disjoint _ (by simp; omega), Mem.loadAs_storeAs]

end Response

/-! ### The exchanges -/

section Exchanges

variable {e : PageEngine} {pid hashCode : Int32} {isWriter : Bool} {m : Mem}

/-- What the client is to read of what `reg_client` returns. -/
def granted (r : ClientRsp) : Granted := ⟨r.hashCode, some (CStr.toBytes r.commFile), Int32.ofNat r.fileSize⟩

theorem regClient_commFile {name : CStr} {nano : Int64} {r : ClientRsp}
    (h : (e.regClient name pid isWriter nano).1 = some r) : r.commFile = e.commFile := by
  unfold PageEngine.regClient at h
  split at h
  · cases h
  · obtain rfl := Option.some.inj h
    rfl

theorem processMsg_client {type : UInt8} (hr : Received m type name pid hashCode) (v : ServerVars)
    (htype : type = if isWriter then pagedSocketWriterRegister else pagedSocketReaderRegister) :
    processMsg e m v = some
      (m.store 0 ((rspOfClient v type (e.regClient (CStr.ofBytes name) pid isWriter v.nano).1).load 0
          pagedSocketRspClientSize),
        (e.regClient (CStr.ofBytes name) pid isWriter v.nano).2) := by
  have hdec : decide (type = pagedSocketWriterRegister) = isWriter ∧ type ≠ timerSecDiffRequest ∧
      type ≠ pagedSocketConnectionTest ∧ type ≠ pagedSocketJournalRegister ∧
      (type = pagedSocketReaderRegister ∨ type = pagedSocketWriterRegister) := by
    rw [htype]
    cases isWriter <;> decide
  obtain ⟨hw, h1, h2, h3, h4⟩ := hdec
  unfold processMsg
  dsimp only
  rw [hr.type, hr.name, hr.pid, hw, if_neg h1, if_neg h2, if_neg h3, if_pos h4]
  rfl

theorem readClient_spec {type : UInt8} {v : ServerVars} {ret : Option ClientRsp}
    (hret : ∀ r, ret = some r → CommFileFits r.commFile)
    (hm : Shows m (rspOfClient v type ret) pagedSocketRspClientSize) : readClient type m = ret.map granted := by
  have h212 : pagedSocketRspClientSize = 212 := rfl
  unfold readClient
  cases ret with
  | none =>
    obtain ⟨-, hsuccess, -⟩ := @rspClient_fields v.rsp type [] (by simp) false v.fileSize v.hashCode
    refine if_neg fun h => ?_
    rw [hm 1 (by omega)] at h
    exact Bool.noConfusion (hsuccess.mp h.2)
  | some r =>
    obtain ⟨hcstr, hfits⟩ := hret r rfl
    have hbytes : (CStr.toBytes r.commFile).length = r.commFile.length := List.length_map _
    obtain ⟨htype, hsuccess, hsize, hcode, hat⟩ := @rspClient_fields v.rsp type
      (CStr.toBytes r.commFile) (by omega) true (Int32.ofNat r.fileSize) r.hashCode
    have hread : m.cString (socketMessageMaxLength - 102) 102 = some (CStr.toBytes r.commFile) := by
      have h500 : socketMessageMaxLength = 500 := rfl
      refine Mem.cString_eq_some_iff.mpr ⟨by omega, hcstr, hm.at hat ?_⟩
      rw [List.length_append, List.length_singleton]
      omega
    have h0 := hm 0 (by omega)
    have h1 := hm 1 (by omega)
    have h204 := hm.loadAs (k := 204) (by omega)
    have h208 := hm.loadAs (k := 208) (by omega)
    rw [if_pos ⟨h0.trans htype, by rw [h1]; exact hsuccess.mpr rfl⟩, hread, h204, h208]
    unfold rspOfClient
    dsimp only
    rw [hsize, hcode]
    rfl

/-- **Registration of a client**: the engine registers it, and the client reads what the engine returns. -/
theorem registerClient_spec (hname : ShortName name) (hfile : CommFileFits e.commFile) (pid : Int32)
    (isWriter : Bool) (data : Mem) (x : Exchange) :
    ∃ data', registerClient name pid isWriter e data x = some
      ((e.regClient (CStr.ofBytes name) pid isWriter x.server.nano).1.map granted, data',
        (e.regClient (CStr.ofBytes name) pid isWriter x.server.nano).2) := by
  obtain ⟨hashCode, hr⟩ := Received.of_client hname pid isWriter x.vars data x.arrival.request_ge
  have htype : (if isWriter then pagedSocketWriterRegister else pagedSocketReaderRegister) =
      if isWriter then pagedSocketWriterRegister else pagedSocketReaderRegister := rfl
  have hmsg := processMsg_client (e := e) hr x.server htype
  unfold registerClient getSocketRsp
  dsimp only
  rw [hmsg]
  refine ⟨_, congrArg some (Prod.ext ?_ rfl)⟩
  refine readClient_spec (fun r hr => ?_) (Shows.of_exchange _ _ x le_rfl)
  rw [regClient_commFile hr]
  exact hfile

/-! The journals. -/

theorem rspJournal_fields (m : Mem) (type : UInt8) (idx : Option ℕ) :
    rspJournal m type idx 0 = type ∧ (rspJournal m type idx 1 ≠ 0 ↔ idx.isSome) ∧
      (rspJournal m type idx).loadAs Int32 104 = idx.elim (-1) Int32.ofNat := by
  unfold rspJournal
  refine ⟨?_, ?_, Mem.loadAs_storeAs _ _ _⟩
  · rw [Mem.storeAs_outside _ _ (.inl (by omega)), newResponse_type]
  · rw [Mem.storeAs_outside _ _ (.inl (by omega)), newResponse_success]

theorem readJournal_spec {v : ServerVars} {idx : Option ℕ}
    (hm : Shows m (rspJournal v.rsp pagedSocketJournalRegister idx) pagedSocketRspJournalSize) :
    readJournal m = idx.map Int32.ofNat := by
  have h108 : pagedSocketRspJournalSize = 108 := rfl
  obtain ⟨htype, hsuccess, hidx⟩ := rspJournal_fields v.rsp pagedSocketJournalRegister idx
  unfold readJournal
  rw [hm 0 (by omega), htype, hm.loadAs (k := 104) (by omega), hidx]
  cases idx with
  | none =>
    refine if_neg fun h => ?_
    rw [hm 1 (by omega)] at h
    exact Bool.noConfusion (hsuccess.mp h.2)
  | some idx => exact if_pos ⟨rfl, by rw [hm 1 (by omega)]; exact hsuccess.mpr rfl⟩

theorem processMsg_journal (hr : Received m pagedSocketJournalRegister name pid hashCode) (v : ServerVars) :
    processMsg e m v = some
      (m.store 0 ((rspJournal v.rsp pagedSocketJournalRegister (e.regJournal (CStr.ofBytes name)).1).load 0
          pagedSocketRspJournalSize),
        (e.regJournal (CStr.ofBytes name)).2) := by
  have h1 : pagedSocketJournalRegister ≠ timerSecDiffRequest := by decide
  have h2 : pagedSocketJournalRegister ≠ pagedSocketConnectionTest := by decide
  unfold processMsg
  dsimp only
  rw [hr.type, hr.name, if_neg h1, if_neg h2, if_pos rfl]
  rfl

/-- **Registration of a journal**: the client reads the index that the engine returns, and throws for -1. -/
theorem registerJournal_spec (hname : ShortName name) (e : PageEngine) (data : Mem) (x : Exchange) :
    ∃ data', registerJournal name e data x = some
      ((e.regJournal (CStr.ofBytes name)).1.map Int32.ofNat, data', (e.regJournal (CStr.ofBytes name)).2) := by
  obtain ⟨pid, hashCode, hr⟩ := Received.of_journal hname x.vars data x.arrival.request_ge
  have hmsg := processMsg_journal (e := e) hr x.server
  have hle : pagedSocketRspJournalSize ≤ pagedSocketRspClientSize := by
    unfold pagedSocketRspJournalSize pagedSocketRspClientSize
    omega
  have hshows := Shows.of_exchange (data.store 0 ((journalRequest ⟨name, 0, false, [], []⟩ x.vars).reqBuf.load 0
    x.arrival.request)) (rspJournal x.server.rsp pagedSocketJournalRegister (e.regJournal (CStr.ofBytes name)).1) x hle
  unfold registerJournal getSocketRsp
  dsimp only
  rw [hmsg, Option.map_some, Option.map_some]
  dsimp only
  rw [readJournal_spec hshows]
  exact ⟨_, rfl⟩

/-- **Leaving**: the engine is told the name and the hash code that the client keeps. -/
theorem exitClient_spec (hname : ShortName name) (hashCode : Int32) (e : PageEngine) (data : Mem) (x : Exchange) :
    ∃ data', exitClient name hashCode e data x =
      some (data', e.exitClient (CStr.ofBytes name) hashCode true) := by
  obtain ⟨pid, hr⟩ := Received.of_exit hname hashCode x.vars data x.arrival.request_ge
  have hne : ∀ type ∈ [timerSecDiffRequest, pagedSocketConnectionTest, pagedSocketJournalRegister,
      pagedSocketReaderRegister, pagedSocketWriterRegister], pagedSocketClientExit ≠ type :=
    List.forall_iff_forall_mem.mp (by decide)
  unfold exitClient getSocketRsp processMsg
  dsimp only
  rw [hr.type, hr.name, hr.hashCode, if_neg (hne _ (by simp)), if_neg (hne _ (by simp)), if_neg (hne _ (by simp)),
    if_neg (not_or.mpr ⟨hne _ (by simp), hne _ (by simp)⟩), if_pos rfl]
  exact ⟨_, rfl⟩

/-! The timer. -/

/-- A character of one byte that does not end a C string. -/
def OneByte (c : Char) : Prop := 0 < c.toNat ∧ c.toNat < 256

instance (c : Char) : Decidable (OneByte c) := by unfold OneByte; infer_instance

theorem oneByte_decimal {n : ℤ} {c : Char} (hc : c ∈ decimal n) : OneByte c := by
  rcases mem_decimal hc with rfl | hd
  · decide
  · have h48 : '0'.val.toNat = 48 := rfl
    have h57 : '9'.val.toNat = 57 := rfl
    simp only [Char.isDigit, Bool.and_eq_true, decide_eq_true_eq, ge_iff_le, UInt32.le_iff_toNat_le] at hd
    unfold OneByte Char.toNat
    omega

theorem oneByte_dump {nano secDiff : Int64} : ∀ c ∈ dump nano secDiff, OneByte c := by
  have hopen : ∀ c ∈ "\x7b\"nano\":".toList, OneByte c := List.forall_iff_forall_mem.mp (by decide)
  have hmid : ∀ c ∈ ",\"secDiff\":".toList, OneByte c := List.forall_iff_forall_mem.mp (by decide)
  have hclose : ∀ c ∈ "\x7d".toList, OneByte c := List.forall_iff_forall_mem.mp (by decide)
  intro c hc
  unfold dump at hc
  simp only [List.mem_append] at hc
  rcases hc with (((hc | hc) | hc) | hc) | hc
  · exact hopen c hc
  · exact oneByte_decimal hc
  · exact hmid c hc
  · exact oneByte_decimal hc
  · exact hclose c hc

theorem length_decimal_le (v : Int64) : (decimal v.toInt).length ≤ 20 := by
  have hlo := v.le_toInt
  have hhi := v.toInt_lt
  cases h : v.toInt with
  | ofNat n =>
    rw [h, Int.ofNat_eq_natCast] at hhi
    exact (Nat.length_toDigits_le_iff (by decide) (by decide)).mpr (by omega)
  | negSucc n =>
    rw [h] at hlo
    have hlen : (Nat.toDigits 10 (n + 1)).length ≤ 19 :=
      (Nat.length_toDigits_le_iff (by decide) (by decide)).mpr (by omega)
    exact Nat.succ_le_succ hlen

theorem length_dump_le (nano secDiff : Int64) : (dump nano secDiff).length ≤ 60 := by
  have h1 := length_decimal_le nano
  have h2 := length_decimal_le secDiff
  have hopen : "\x7b\"nano\":".toList.length = 8 := by decide
  have hmid : ",\"secDiff\":".toList.length = 11 := by decide
  have hclose : "\x7d".toList.length = 1 := by decide
  unfold dump
  simp only [List.length_append]
  omega

theorem zero_not_mem_toBytes {cs : CStr} (h : ∀ c ∈ cs, OneByte c) : 0 ∉ CStr.toBytes cs := by
  intro hmem
  obtain ⟨c, hc, hzero⟩ := List.mem_map.mp hmem
  obtain ⟨hpos, hlt⟩ := h c hc
  have hnat := congrArg UInt8.toNat hzero
  rw [UInt8.toNat_ofNat_of_lt' hlt] at hnat
  exact absurd hnat (Nat.ne_of_gt hpos)

theorem ofBytes_toBytes {cs : CStr} (h : ∀ c ∈ cs, OneByte c) : CStr.ofBytes (CStr.toBytes cs) = cs := by
  unfold CStr.ofBytes CStr.toBytes
  rw [List.map_map]
  conv_rhs => rw [← List.map_id cs]
  refine List.map_congr_left fun c hc => ?_
  obtain ⟨-, hlt⟩ := h c hc
  show Char.ofNat (UInt8.ofNat c.toNat).toNat = c
  rw [UInt8.toNat_ofNat_of_lt' hlt]
  exact Char.ofNat_toNat c

/-- **The timer**: the text that `process_msg` writes is the text that the client reads. -/
theorem getSocketDiff_spec (e : PageEngine) (data input : Mem) (x : Exchange) : ∃ data',
    getSocketDiff e data input x = some (some (CStr.toBytes (dump x.server.nano x.server.secDiff)), data', e) := by
  let text := CStr.toBytes (dump x.server.nano x.server.secDiff)
  have hlen : text.length ≤ 60 := (List.length_map _).trans_le (length_dump_le _ _)
  have hge := x.arrival.response_ge
  have h212 : pagedSocketRspClientSize = 212 := rfl
  have h41 : pagedSocketRequestSize = 41 := rfl
  have h500 : socketMessageMaxLength = 500 := rfl
  have htype : (data.store 0 ((input.storeAs 0 timerSecDiffRequest).load 0 x.arrival.request)) 0 =
      timerSecDiffRequest := by
    have hreq := x.arrival.request_ge
    exact (Mem.copy_prefix _ _ (by omega)).trans (Mem.storeAs_byte _ _ _)
  unfold getSocketDiff getSocketRsp processMsg
  dsimp only
  rw [if_pos htype, Option.map_some, Option.map_some]
  refine ⟨_, congrArg some (Prod.ext ?_ rfl)⟩
  have hat : (((data.store 0 ((input.storeAs 0 timerSecDiffRequest).load 0 x.arrival.request)).storeCString 0
      text)).At 0 (text ++ [0]) := Mem.at_store _ _ _
  refine Mem.cString_eq_some_iff.mpr ⟨?_, zero_not_mem_toBytes oneByte_dump, hat.copy_prefix _ ?_⟩
  · show text.length < socketMessageMaxLength
    omega
  · rw [List.length_append, List.length_singleton]
    omega

end Exchanges

end Wire

end Yijinjing
