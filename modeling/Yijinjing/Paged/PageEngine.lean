import Mathlib.Data.List.AList
import Mathlib.Logic.Function.Basic
import Yijinjing.Paged.PageUtil

/-!
# `PageEngine`, the page service

`PageEngine.cpp`, and the two tasks of `PageServiceTask.cpp`: registration of clients and journals,
`initiate_page`, `release_page`, `exit_client`, the section of `start_comm` that answers a request,
`PstPidCheck::go` and `PstTempPage::go`.  Each of these runs under one mutex and is a function of the
state of the engine.  `PageProvider` has what clients store into a slot: the names, and the two stores of
`getPage`.

The machine below the engine is `Os`: the files and folders there are, and the addresses that are mapped.
-/

namespace Yijinjing

open Lib

/-! ### Files, folders and mappings -/

structure Os where
  files : List CStr
  folders : List CStr
  /-- the file system that a folder is on, or would be made on -/
  device : CStr → ℕ
  /-- the buffers that the engine has mapped and not released -/
  mapped : List ℕ
  /-- buffers that were released and not mapped -/
  badReleases : ℕ

/-- The folders on the way to a path, outermost first. -/
def parentPaths (path : CStr) : List CStr :=
  path.inits.filter fun q => path[q.length]? = some '/'

/-- `path.parent_path()` -/
def parentPath (path : CStr) : CStr := (parentPaths path).getLast?.getD []

namespace Os

def fileExists (os : Os) (path : CStr) : Bool := os.files.contains path

/-- `PageUtil::LoadPageBuffer`, which is given the address `addr`. -/
def loadPageBuffer (os : Os) (path : CStr) (isWriting : Bool) (addr : ℕ) : Os :=
  { os with
    folders := if os.folders.contains (parentPath path) then os.folders
      else parentPaths path ++ os.folders
    files := if isWriting then path :: os.files else os.files
    mapped := addr :: os.mapped }

def releasePageBuffer (os : Os) (addr : ℕ) : Os :=
  if addr ∈ os.mapped then { os with mapped := os.mapped.erase addr }
  else { os with badReleases := os.badReleases + 1 }

def CanRename (os : Os) (src dst : CStr) : Prop :=
  src ∈ os.files ∧ parentPath dst ∈ os.folders ∧ os.device (parentPath src) = os.device (parentPath dst)

instance (os : Os) (src dst : CStr) : Decidable (os.CanRename src dst) := by
  unfold CanRename
  infer_instance

def rename (os : Os) (src dst : CStr) : Option Os :=
  if os.CanRename src dst then some { os with files := dst :: os.files.erase src } else none

end Os

/-! ### The engine -/

structure PageClientInfo where
  /-- the slots of the journals linked by this client -/
  userIndexVec : List ℕ
  pid : Int32
  hashCode : Int32
  isWriting : Bool
  deriving DecidableEq

structure PageEngine where
  /-- `task_temppage->getPath()` -/
  tempPath : CStr
  commFile : CStr
  clientJournals : AList fun _ : CStr => PageClientInfo
  pidClient : AList fun _ : Int32 => List CStr
  fileWriterCounts : AList fun _ : PageKey => ℤ
  fileReaderCounts : AList fun _ : PageKey => ℤ
  fileAddrs : AList fun _ : CStr => ℕ
  /-- the slots of `commBuffer` -/
  comm : ℕ → PageCommMsg
  maxIdx : ℕ
  os : Os

def PageCommMsg.path (m : PageCommMsg) : CStr := m.key.path

/-- `COMM_SIZE`, of slots of 136 bytes. -/
def commSize : ℕ := maxCommUserNumber * 136 + 1024

structure ClientRsp where
  commFile : CStr
  fileSize : ℕ
  hashCode : Int32
  deriving DecidableEq

namespace PageEngine

def start (tempPath commFile : CStr) (os : Os) : PageEngine where
  tempPath := tempPath
  commFile := commFile
  clientJournals := ∅
  pidClient := ∅
  fileWriterCounts := ∅
  fileReaderCounts := ∅
  fileAddrs := ∅
  comm _ := PageCommMsg.zero
  maxIdx := 0
  os := os

variable (e : PageEngine)

def setMsg (idx : ℕ) (m : PageCommMsg) : PageEngine := { e with comm := Function.update e.comm idx m }

/-- `fileWriterCounts` or `fileReaderCounts` -/
def counts (isWriter : Bool) : AList fun _ : PageKey => ℤ :=
  if isWriter then e.fileWriterCounts else e.fileReaderCounts

def setCounts (isWriter : Bool) (counts : AList fun _ : PageKey => ℤ) : PageEngine :=
  if isWriter then { e with fileWriterCounts := counts } else { e with fileReaderCounts := counts }

/-! #### Registration -/

/-- `ss << clientName << getNanoTime() << pid`, hashed. -/
def clientHash (clientName : CStr) (nano : Int64) (pid : Int32) : Int32 :=
  (murmurHash2 ((clientName ++ decimal nano.toInt ++ decimal pid.toInt).map fun c =>
    UInt8.ofNat c.toNat) hashSeed).toInt32

/-- `PageEngine::reg_client`; `nano` is the time that goes into the hash code. -/
def regClient (clientName : CStr) (pid : Int32) (isWriter : Bool) (nano : Int64) :
    Option ClientRsp × PageEngine :=
  if (e.clientJournals.lookup clientName).isSome then
    (none, e)
  else
    let clients := match e.pidClient.lookup pid with
      | none => [clientName]
      | some clients => clients ++ [clientName]
    let hashCode := clientHash clientName nano pid
    (some ⟨e.commFile, commSize, hashCode⟩, { e with
      pidClient := e.pidClient.insert pid clients
      clientJournals := e.clientJournals.insert clientName
        { userIndexVec := [], pid := pid, hashCode := hashCode, isWriting := isWriter } })

def freeIdx : Option ℕ := (List.range maxCommUserNumber).find? fun idx => (e.comm idx).status = .raw

/-- The slot `idx` is occupied, before the client is looked up. -/
def occupy (idx : ℕ) : PageEngine :=
  { e.setMsg idx { e.comm idx with status := .occupied, lastPageNum := 0 } with
    maxIdx := max e.maxIdx idx }

/-- `PageEngine::reg_journal`; `none` is -1. -/
def regJournal (clientName : CStr) : Option ℕ × PageEngine :=
  match e.freeIdx with
  | none => (none, e)
  | some idx =>
    match e.clientJournals.lookup clientName with
    | none => (none, e.occupy idx)
    | some info =>
      (some idx, { e.occupy idx with
        clientJournals := e.clientJournals.insert clientName
          { info with userIndexVec := info.userIndexVec ++ [idx] } })

/-! #### Pages -/

/-- The last reader or writer of the page has gone: its buffer is released. -/
def dropAddr (path : CStr) : PageEngine :=
  match e.fileAddrs.lookup path with
  | none => e
  | some addr => { e with os := e.os.releasePageBuffer addr, fileAddrs := e.fileAddrs.erase path }

def releasePage (msg : PageCommMsg) : PageEngine :=
  match (e.counts msg.isWriter).lookup msg.key with
  | none => e
  | some count =>
    if count - 1 = 0 then
      let e' := e.setCounts msg.isWriter ((e.counts msg.isWriter).erase msg.key)
      if ((e'.counts !msg.isWriter).lookup msg.key).isNone then e'.dropAddr msg.path else e'
    else
      e.setCounts msg.isWriter ((e.counts msg.isWriter).insert msg.key (count - 1))

def loadPage (path : CStr) (isWriting : Bool) (addr : ℕ) : PageEngine :=
  { e with
    os := e.os.loadPageBuffer path isWriting addr
    fileAddrs := e.fileAddrs.insert path addr }

/-- The temp page becomes the page file, with its buffer. -/
def takeTemp (path : CStr) (buffer : ℕ) (os : Os) : PageEngine :=
  { e with os := os, fileAddrs := (e.fileAddrs.erase e.tempPath).insert path buffer }

/-- The first part of `initiate_page`: the page is mapped, or the request fails.  `addr` is where a
buffer is mapped, if one is. -/
def mapPage (msg : PageCommMsg) (addr : ℕ) : Except CommStatus PageEngine :=
  if (e.fileAddrs.lookup msg.path).isSome then
    .ok e
  else if e.os.fileExists msg.path then
    .ok (e.loadPage msg.path false addr)
  else if !msg.isWriter then
    .error .nonExist
  else
    match e.fileAddrs.lookup e.tempPath with
    | none => .ok (e.loadPage msg.path true addr)
    | some buffer =>
      match e.os.rename e.tempPath msg.path with
      | none => .error .cannotRenameFromTemp
      | some os => .ok (e.takeTemp msg.path buffer os)

/-- The second part of `initiate_page`: the page is counted. -/
def countPage (msg : PageCommMsg) : CommStatus × PageEngine :=
  match (e.counts msg.isWriter).lookup msg.key with
  | none => (.allocated, e.setCounts msg.isWriter ((e.counts msg.isWriter).insert msg.key 1))
  | some count =>
    if msg.isWriter then (.moreThanOneWrite, e)
    else (.allocated, e.setCounts msg.isWriter ((e.counts msg.isWriter).insert msg.key (count + 1)))

def initiatePage (msg : PageCommMsg) (addr : ℕ) : CommStatus × PageEngine :=
  match e.mapPage msg addr with
  | .error status => (status, e)
  | .ok e' => e'.countPage msg

/-- The page that a slot asked for before is released when it asks for another one. -/
def releaseLast (idx : ℕ) : PageEngine :=
  let msg := e.comm idx
  if 0 < msg.lastPageNum ∧ msg.lastPageNum ≠ msg.pageNum then
    e.releasePage { msg with pageNum := msg.lastPageNum }
  else e

/-- The section of `start_comm` under the mutex, for the slot `idx`. -/
def answer (idx : ℕ) (addr : ℕ) : PageEngine :=
  let msg := e.comm idx
  let (status, e') := (e.releaseLast idx).initiatePage msg addr
  e'.setMsg idx { msg with status := status, lastPageNum := msg.pageNum }

/-! #### Departure -/

/-- One turn of the loop of `exit_client`. -/
def freeSlot (idx : ℕ) : PageEngine :=
  let msg := e.comm idx
  let e' := if msg.status = .allocated then e.releasePage msg else e
  e'.setMsg idx { msg with status := .raw }

/-- `pidClient` without one client. -/
def erasePidClient (pid : Int32) (clientName : CStr) : AList fun _ : Int32 => List CStr :=
  let clients := ((e.pidClient.lookup pid).getD []).filter fun name => name ≠ clientName
  if clients = [] then e.pidClient.erase pid else e.pidClient.insert pid clients

def exitClient (clientName : CStr) (hashCode : Int32) (needHashCheck : Bool) : PageEngine :=
  match e.clientJournals.lookup clientName with
  | none => e
  | some info =>
    if needHashCheck ∧ hashCode ≠ info.hashCode then e
    else
      let e' := info.userIndexVec.foldl freeSlot e
      { e' with
        pidClient := e'.erasePidClient info.pid clientName
        clientJournals := e'.clientJournals.erase clientName }

/-- The names that `PstPidCheck::go` collects: the clients of the pids, in ascending order, whose
process is gone. -/
def clientsToRemove (dead : Int32 → Bool) : List CStr :=
  ((e.pidClient.keys.mergeSort fun p q => decide (p ≤ q)).filter dead).flatMap fun pid =>
    (e.pidClient.lookup pid).getD []

/-- `PstPidCheck::go` -/
def pidCheck (dead : Int32 → Bool) : PageEngine :=
  (e.clientsToRemove dead).foldl (fun e name => e.exitClient name 0 false) e

/-- `PstTempPage::go` -/
def tempPage (addr : ℕ) : PageEngine :=
  match e.fileAddrs.lookup e.tempPath with
  | some _ => e
  | none => e.loadPage e.tempPath true addr

end PageEngine

/-! ### The stores of a client -/

namespace PageProvider

/-- The names fit their fields; what is longer is copied over what is behind the field. -/
def Fits (dir jname : CStr) : Prop :=
  dir.length < journalFolderMaxLength ∧ jname.length < journalShortNameMaxLength

instance (dir jname : CStr) : Decidable (Fits dir jname) := by
  unfold Fits
  infer_instance

/-- `register_journal` fills in the slot it has been given, with names that fit. -/
def hold (msg : PageCommMsg) (dir jname : CStr) (isWriter : Bool) : PageCommMsg :=
  { msg with folder := dir, name := jname, isWriter := isWriter, status := .holding }

def storeNum (msg : PageCommMsg) (pageNum : Int16) : PageCommMsg := { msg with pageNum := pageNum }

def storeStatus (msg : PageCommMsg) : PageCommMsg := { msg with status := .requesting }

/-- `getPage` asks for a page. -/
def ask (msg : PageCommMsg) (pageNum : Int16) : PageCommMsg := storeStatus (storeNum msg pageNum)

end PageProvider

end Yijinjing
