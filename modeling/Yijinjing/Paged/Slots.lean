import Yijinjing.Lib.Assoc
import Yijinjing.Paged.PageEngine

/-!
# Whose slot is which

The slots that the clients of the engine own (`owned`), and what every operation does to them.  `Slots`
is the invariant: an owned slot is one that the comm thread visits, it is not RAW, and nobody else owns
it.  Pages come and go without any effect on the clients and the slots (`Keeps`).
-/

namespace Yijinjing.PageEngine

open Lib

variable {e e' : PageEngine} {name : CStr} {info : PageClientInfo} {idx i : ℕ} {msg : PageCommMsg}

/-! ### What the page operations keep -/

/-- Clients and slots are the same. -/
structure Keeps (e e' : PageEngine) : Prop where
  clientJournals : e'.clientJournals = e.clientJournals
  pidClient : e'.pidClient = e.pidClient
  comm : e'.comm = e.comm
  maxIdx : e'.maxIdx = e.maxIdx
  tempPath : e'.tempPath = e.tempPath

theorem Keeps.refl (e : PageEngine) : Keeps e e := ⟨rfl, rfl, rfl, rfl, rfl⟩

theorem Keeps.trans {e'' : PageEngine} (h : Keeps e e') (h' : Keeps e' e'') : Keeps e e'' where
  clientJournals := h'.clientJournals.trans h.clientJournals
  pidClient := h'.pidClient.trans h.pidClient
  comm := h'.comm.trans h.comm
  maxIdx := h'.maxIdx.trans h.maxIdx
  tempPath := h'.tempPath.trans h.tempPath

theorem keeps_setCounts (e : PageEngine) (w : Bool) (c : AList fun _ : PageKey => ℤ) :
    Keeps e (e.setCounts w c) := by
  unfold setCounts
  split <;> exact ⟨rfl, rfl, rfl, rfl, rfl⟩

theorem keeps_dropAddr (e : PageEngine) (path : CStr) : Keeps e (e.dropAddr path) := by
  unfold dropAddr
  split <;> exact ⟨rfl, rfl, rfl, rfl, rfl⟩

theorem keeps_releasePage (e : PageEngine) (msg : PageCommMsg) : Keeps e (e.releasePage msg) := by
  unfold releasePage
  split
  · exact .refl e
  · split
    · dsimp only
      split
      · exact (keeps_setCounts e _ _).trans (keeps_dropAddr _ _)
      · exact keeps_setCounts e _ _
    · exact keeps_setCounts e _ _

/-- What the first part of `initiate_page` can do. -/
inductive Maps (e : PageEngine) (msg : PageCommMsg) (addr : ℕ) : Except CommStatus PageEngine → Prop
  | mapped (h : (e.fileAddrs.lookup msg.path).isSome) : Maps e msg addr (.ok e)
  | loaded (isWriting : Bool) (h : e.fileAddrs.lookup msg.path = none)
      (ht : isWriting = true → msg.isWriter = true ∧ e.fileAddrs.lookup e.tempPath = none) :
      Maps e msg addr (.ok (e.loadPage msg.path isWriting addr))
  | fromTemp (buffer : ℕ) (os : Os) (h : e.fileAddrs.lookup msg.path = none) (hw : msg.isWriter = true)
      (ht : e.fileAddrs.lookup e.tempPath = some buffer) (hos : e.os.rename e.tempPath msg.path = some os) :
      Maps e msg addr (.ok (e.takeTemp msg.path buffer os))
  | nonExist (hw : msg.isWriter = false) : Maps e msg addr (.error .nonExist)
  | cannotRename (hw : msg.isWriter = true) : Maps e msg addr (.error .cannotRenameFromTemp)

theorem maps (e : PageEngine) (msg : PageCommMsg) (addr : ℕ) : Maps e msg addr (e.mapPage msg addr) := by
  unfold mapPage
  split
  · rename_i h
    exact .mapped h
  · rename_i h
    rw [Option.isSome_iff_ne_none, not_not] at h
    split
    · exact .loaded false h Bool.noConfusion
    · split
      · rename_i hw
        exact .nonExist (by simpa using hw)
      · rename_i hw
        have hw' : msg.isWriter = true := by simpa using hw
        cases ht : e.fileAddrs.lookup e.tempPath with
        | none => exact .loaded true h fun _ => ⟨hw', ht⟩
        | some buffer =>
          cases hos : e.os.rename e.tempPath msg.path with
          | none => exact .cannotRename hw'
          | some os => exact .fromTemp buffer os h hw' ht hos

theorem keeps_mapPage {addr : ℕ} (h : e.mapPage msg addr = .ok e') : Keeps e e' := by
  have hm := maps e msg addr
  rw [h] at hm
  cases hm <;> exact ⟨rfl, rfl, rfl, rfl, rfl⟩

theorem keeps_countPage (e : PageEngine) (msg : PageCommMsg) : Keeps e (e.countPage msg).2 := by
  unfold countPage
  split
  · exact keeps_setCounts e _ _
  · split
    · exact .refl e
    · exact keeps_setCounts e _ _

theorem keeps_initiatePage (e : PageEngine) (msg : PageCommMsg) (addr : ℕ) :
    Keeps e (e.initiatePage msg addr).2 := by
  unfold initiatePage
  split
  · exact .refl e
  · rename_i e' h
    exact (keeps_mapPage h).trans (keeps_countPage e' msg)

theorem keeps_releaseLast (e : PageEngine) (idx : ℕ) : Keeps e (e.releaseLast idx) := by
  unfold releaseLast
  dsimp only
  split
  · exact keeps_releasePage e _
  · exact .refl e

/-- The status a request is answered with. -/
def answerStatus (e : PageEngine) (idx addr : ℕ) : CommStatus :=
  ((e.releaseLast idx).initiatePage (e.comm idx) addr).1

theorem answer_eq (e : PageEngine) (idx addr : ℕ) : e.answer idx addr =
    ((e.releaseLast idx).initiatePage (e.comm idx) addr).2.setMsg idx { e.comm idx with
      status := e.answerStatus idx addr, lastPageNum := (e.comm idx).pageNum } := rfl

/-- What an answer touches besides the pages is its own slot. -/
theorem keeps_answer (e : PageEngine) (idx addr : ℕ) : Keeps (e.setMsg idx { e.comm idx with
    status := e.answerStatus idx addr, lastPageNum := (e.comm idx).pageNum }) (e.answer idx addr) := by
  rw [answer_eq]
  have h := (keeps_releaseLast e idx).trans (keeps_initiatePage _ (e.comm idx) addr)
  refine ⟨h.clientJournals, h.pidClient, ?_, h.maxIdx, h.tempPath⟩
  unfold setMsg
  rw [h.comm]

theorem keeps_freeSlot (e : PageEngine) (idx : ℕ) :
    Keeps (e.setMsg idx { e.comm idx with status := .raw }) (e.freeSlot idx) := by
  unfold freeSlot
  dsimp only
  split
  · have h := keeps_releasePage e (e.comm idx)
    refine ⟨h.clientJournals, h.pidClient, ?_, h.maxIdx, h.tempPath⟩
    unfold setMsg
    rw [h.comm]
  · exact .refl _

theorem countPage_status (e : PageEngine) (msg : PageCommMsg) :
    (e.countPage msg).1 = .allocated ∨ (e.countPage msg).1 = .moreThanOneWrite := by
  unfold countPage
  split
  · exact .inl rfl
  · split
    · exact .inr rfl
    · exact .inl rfl

/-- The statuses that `initiate_page` returns. -/
theorem initiatePage_status (e : PageEngine) (msg : PageCommMsg) (addr : ℕ) :
    (e.initiatePage msg addr).1 ∈
      [CommStatus.allocated, .moreThanOneWrite, .nonExist, .cannotRenameFromTemp] := by
  have hm := maps e msg addr
  unfold initiatePage
  cases h : e.mapPage msg addr with
  | error status =>
    rw [h] at hm
    cases hm <;> simp
  | ok e' =>
    dsimp only
    rcases e'.countPage_status msg with h | h <;> rw [h] <;> simp

/-- An answered slot is neither free nor occupied nor asking. -/
theorem answerStatus_ne (e : PageEngine) (idx addr : ℕ) :
    e.answerStatus idx addr ≠ .raw ∧ e.answerStatus idx addr ≠ .occupied ∧
      e.answerStatus idx addr ≠ .requesting := by
  have h := (e.releaseLast idx).initiatePage_status (e.comm idx) addr
  unfold answerStatus
  generalize ((e.releaseLast idx).initiatePage (e.comm idx) addr).1 = status at h
  refine ⟨?_, ?_, ?_⟩ <;> rintro rfl <;> simp at h

/-! ### The slots of a client that exits -/

theorem foldl_freeSlot_clients (l : List ℕ) (e : PageEngine) :
    (l.foldl freeSlot e).clientJournals = e.clientJournals ∧
      (l.foldl freeSlot e).pidClient = e.pidClient ∧ (l.foldl freeSlot e).maxIdx = e.maxIdx ∧
      (l.foldl freeSlot e).tempPath = e.tempPath := by
  induction l generalizing e with
  | nil => exact ⟨rfl, rfl, rfl, rfl⟩
  | cons j l ih =>
    have h := keeps_freeSlot e j
    obtain ⟨h1, h2, h3, h4⟩ := ih (e.freeSlot j)
    exact ⟨h1.trans h.clientJournals, h2.trans h.pidClient, h3.trans h.maxIdx, h4.trans h.tempPath⟩

theorem freeSlot_comm (e : PageEngine) (idx j : ℕ) :
    (e.freeSlot idx).comm j = if j = idx then { e.comm idx with status := .raw } else e.comm j := by
  rw [(keeps_freeSlot e idx).comm]
  unfold setMsg
  exact Function.update_apply _ _ _ _

/-- The slots of the list are RAW, and the others as they were. -/
theorem foldl_freeSlot_comm (l : List ℕ) (e : PageEngine) (j : ℕ) :
    (l.foldl freeSlot e).comm j = if j ∈ l then { e.comm j with status := .raw } else e.comm j := by
  induction l generalizing e with
  | nil => rfl
  | cons k l ih =>
    rw [List.foldl_cons, ih, freeSlot_comm]
    by_cases hjk : j = k
    · subst hjk
      simp
    · simp [hjk]

/-! ### Owned slots -/

/-- The slots of all clients. -/
def owned (e : PageEngine) : List ℕ := pooled PageClientInfo.userIndexVec e.clientJournals

theorem mem_owned : i ∈ e.owned ↔
    ∃ name info, e.clientJournals.lookup name = some info ∧ i ∈ info.userIndexVec := mem_pooled

theorem Keeps.owned_eq (h : Keeps e e') : e'.owned = e.owned := by
  unfold owned
  rw [h.clientJournals]

@[simp] theorem setMsg_owned (e : PageEngine) (idx : ℕ) (msg : PageCommMsg) :
    (e.setMsg idx msg).owned = e.owned := rfl

@[simp] theorem setMsg_comm_self (e : PageEngine) (idx : ℕ) (msg : PageCommMsg) :
    (e.setMsg idx msg).comm idx = msg := Function.update_self ..

theorem setMsg_comm_ne (e : PageEngine) (msg : PageCommMsg) (h : i ≠ idx) :
    (e.setMsg idx msg).comm i = e.comm i := Function.update_of_ne h ..

theorem answer_owned (e : PageEngine) (idx addr : ℕ) : (e.answer idx addr).owned = e.owned :=
  (keeps_answer e idx addr).owned_eq

theorem answer_comm_self (e : PageEngine) (idx addr : ℕ) : (e.answer idx addr).comm idx =
    { e.comm idx with status := e.answerStatus idx addr, lastPageNum := (e.comm idx).pageNum } := by
  rw [(keeps_answer e idx addr).comm]
  exact setMsg_comm_self ..

theorem answer_comm_ne (e : PageEngine) (addr : ℕ) (h : i ≠ idx) : (e.answer idx addr).comm i = e.comm i := by
  rw [(keeps_answer e idx addr).comm]
  exact setMsg_comm_ne e _ h

/-- The invariant of the owned slots. -/
structure Slots (e : PageEngine) : Prop where
  lt : ∀ i ∈ e.owned, i < maxCommUserNumber
  le_maxIdx : ∀ i ∈ e.owned, i ≤ e.maxIdx
  not_raw : ∀ i ∈ e.owned, (e.comm i).status ≠ .raw
  nodup : e.owned.Nodup

theorem Slots.start {tempPath commFile : CStr} {os : Os} : Slots (start tempPath commFile os) := by
  refine ⟨fun i hi => ?_, fun i hi => ?_, fun i hi => ?_, List.nodup_nil⟩ <;> cases hi

theorem Slots.keeps (hs : Slots e) (h : Keeps e e') : Slots e' where
  lt i hi := hs.lt i (h.owned_eq ▸ hi)
  le_maxIdx i hi := by
    rw [h.maxIdx]
    exact hs.le_maxIdx i (h.owned_eq ▸ hi)
  not_raw i hi := by
    rw [h.comm]
    exact hs.not_raw i (h.owned_eq ▸ hi)
  nodup := by
    rw [h.owned_eq]
    exact hs.nodup

/-- A store that does not free the slot. -/
theorem Slots.setMsg (hs : Slots e) (hm : msg.status ≠ .raw) : Slots (e.setMsg idx msg) where
  lt := hs.lt
  le_maxIdx := hs.le_maxIdx
  not_raw i hi := by
    by_cases h : i = idx
    · subst h
      rw [setMsg_comm_self]
      exact hm
    · rw [setMsg_comm_ne e msg h]
      exact hs.not_raw i hi
  nodup := hs.nodup

theorem Slots.answer (hs : Slots e) (addr : ℕ) : Slots (e.answer idx addr) :=
  (hs.setMsg (answerStatus_ne e idx addr).1).keeps (keeps_answer e idx addr)

/-- No slot has two owners. -/
theorem Slots.owner_unique (hs : Slots e) {name' : CStr} {info' : PageClientInfo}
    (hl : e.clientJournals.lookup name = some info) (hl' : e.clientJournals.lookup name' = some info')
    (hi : i ∈ info.userIndexVec) (hi' : i ∈ info'.userIndexVec) : name = name' := by
  by_contra hn
  have hp : e.owned.Perm _ := pooled_perm hl
  obtain ⟨-, -, hdisj⟩ := List.nodup_append.mp (hp.nodup_iff.mp hs.nodup)
  refine hdisj i hi i (mem_pooled.mpr ⟨name', info', ?_, hi'⟩) rfl
  rw [AList.lookup_erase_ne (Ne.symm hn)]
  exact hl'

/-! ### Registration -/

theorem regClient_none (pid : Int32) (isWriter : Bool) (nano : Int64)
    (h : e.clientJournals.lookup name = none) : (e.regClient name pid isWriter nano).2.owned.Perm e.owned ∧
      (e.regClient name pid isWriter nano).2.comm = e.comm ∧
      (e.regClient name pid isWriter nano).2.maxIdx = e.maxIdx := by
  have he : (e.regClient name pid isWriter nano).2.clientJournals = e.clientJournals.insert name
      { userIndexVec := [], pid := pid, hashCode := clientHash name nano pid, isWriting := isWriter } := by
    simp [regClient, h]
  refine ⟨?_, by simp [regClient, h], by simp [regClient, h]⟩
  unfold owned
  rw [he, pooled_insert, erase_of_lookup_none h]
  exact List.Perm.refl _

theorem regClient_some {pid : Int32} {isWriter : Bool} {nano : Int64}
    (h : e.clientJournals.lookup name = some info) : e.regClient name pid isWriter nano = (none, e) := by
  simp [regClient, h]

theorem Slots.of_perm (hs : Slots e) (hp : e'.owned.Perm e.owned) (hc : e'.comm = e.comm)
    (hm : e'.maxIdx = e.maxIdx) : Slots e' where
  lt i hi := hs.lt i (hp.mem_iff.mp hi)
  le_maxIdx i hi := by
    rw [hm]
    exact hs.le_maxIdx i (hp.mem_iff.mp hi)
  not_raw i hi := by
    rw [hc]
    exact hs.not_raw i (hp.mem_iff.mp hi)
  nodup := hp.nodup_iff.mpr hs.nodup

theorem Slots.regClient (hs : Slots e) (name : CStr) (pid : Int32) (isWriter : Bool) (nano : Int64) :
    Slots (e.regClient name pid isWriter nano).2 := by
  cases h : e.clientJournals.lookup name with
  | none =>
    obtain ⟨h1, h2, h3⟩ := regClient_none pid isWriter nano h
    exact hs.of_perm h1 h2 h3
  | some info =>
    rw [regClient_some h]
    exact hs

theorem freeIdx_some (h : e.freeIdx = some idx) : idx < maxCommUserNumber ∧ (e.comm idx).status = .raw := by
  have hraw := List.find?_some h
  have hmem := List.mem_of_find?_eq_some h
  exact ⟨List.mem_range.mp hmem, of_decide_eq_true hraw⟩

theorem freeIdx_of_raw_zero (h : (e.comm 0).status = .raw) : e.freeIdx = some 0 := by
  have hr : List.range maxCommUserNumber = 0 :: (List.range 999).map Nat.succ := List.range_succ_eq_map
  unfold freeIdx
  rw [hr]
  exact List.find?_cons_of_pos (p := fun idx => decide ((e.comm idx).status = .raw)) (decide_eq_true h)

theorem occupy_comm (e : PageEngine) (idx j : ℕ) : (e.occupy idx).comm j =
    if j = idx then { e.comm idx with status := .occupied, lastPageNum := 0 } else e.comm j :=
  Function.update_apply _ _ _ _

/-- What `reg_journal` does. -/
theorem regJournal_cases (e : PageEngine) (name : CStr) :
    (e.freeIdx = none ∧ e.regJournal name = (none, e)) ∨
    (∃ idx, e.freeIdx = some idx ∧ e.clientJournals.lookup name = none ∧
      e.regJournal name = (none, e.occupy idx)) ∨
    (∃ idx info, e.freeIdx = some idx ∧ e.clientJournals.lookup name = some info ∧
      e.regJournal name = (some idx, { e.occupy idx with
        clientJournals := e.clientJournals.insert name
          { info with userIndexVec := info.userIndexVec ++ [idx] } })) := by
  unfold regJournal
  cases hf : e.freeIdx with
  | none => exact .inl ⟨rfl, rfl⟩
  | some idx =>
    cases hl : e.clientJournals.lookup name with
    | none => exact .inr (.inl ⟨idx, rfl, rfl, rfl⟩)
    | some info => exact .inr (.inr ⟨idx, info, rfl, rfl, rfl⟩)

/-- A RAW slot that gets occupied is nobody's. -/
theorem Slots.not_mem_of_raw (hs : Slots e) (h : (e.comm idx).status = .raw) : idx ∉ e.owned :=
  fun hmem => hs.not_raw idx hmem h

theorem Slots.occupy (hs : Slots e) : Slots (e.occupy idx) := by
  have hset : Slots (e.setMsg idx { e.comm idx with status := .occupied, lastPageNum := 0 }) :=
    hs.setMsg CommStatus.noConfusion
  exact ⟨hset.lt, fun i hi => Nat.le_trans (hset.le_maxIdx i hi) (Nat.le_max_left ..), hset.not_raw,
    hset.nodup⟩

/-- The client gets the slot. -/
theorem owned_insert_journal (idx : ℕ) (h : e.clientJournals.lookup name = some info) :
    (pooled PageClientInfo.userIndexVec (e.clientJournals.insert name
      { info with userIndexVec := info.userIndexVec ++ [idx] })).Perm (idx :: e.owned) := by
  rw [pooled_insert]
  have hp := pooled_perm (f := PageClientInfo.userIndexVec) h
  refine List.Perm.trans ?_ (hp.symm.cons idx)
  rw [List.append_assoc]
  exact List.perm_middle

theorem Slots.regJournal (hs : Slots e) (name : CStr) : Slots (e.regJournal name).2 := by
  rcases e.regJournal_cases name with ⟨-, h⟩ | ⟨idx, -, -, h⟩ | ⟨idx, info, hf, hl, h⟩
  · rw [h]
    exact hs
  · rw [h]
    exact hs.occupy
  · rw [h]
    obtain ⟨hlt, hraw⟩ := freeIdx_some hf
    have hp := owned_insert_journal idx hl
    have ho : Slots (e.occupy idx) := hs.occupy
    refine ⟨fun i hi => ?_, fun i hi => ?_, fun i hi => ?_, hp.nodup_iff.mpr ?_⟩
    · rcases List.mem_cons.mp (hp.mem_iff.mp hi) with rfl | hi
      · exact hlt
      · exact hs.lt i hi
    · rcases List.mem_cons.mp (hp.mem_iff.mp hi) with rfl | hi
      · exact Nat.le_max_right ..
      · exact ho.le_maxIdx i hi
    · show ((e.occupy idx).comm i).status ≠ .raw
      rcases List.mem_cons.mp (hp.mem_iff.mp hi) with rfl | hi
      · rw [occupy_comm, if_pos rfl]
        exact CommStatus.noConfusion
      · exact ho.not_raw i hi
    · exact List.nodup_cons.mpr ⟨hs.not_mem_of_raw hraw, hs.nodup⟩

/-! ### Departure -/

/-- A client that is let go. -/
theorem exitClient_some {hash : Int32} {check : Bool} (h : e.clientJournals.lookup name = some info)
    (hc : ¬ (check = true ∧ hash ≠ info.hashCode)) : e.exitClient name hash check =
      { info.userIndexVec.foldl freeSlot e with
        pidClient := e.erasePidClient info.pid name
        clientJournals := e.clientJournals.erase name } := by
  obtain ⟨h1, h2, -, -⟩ := foldl_freeSlot_clients info.userIndexVec e
  unfold exitClient
  rw [h]
  dsimp only
  rw [if_neg hc]
  unfold erasePidClient
  rw [h1, h2]

/-- What `exit_client` does. -/
theorem exitClient_cases (e : PageEngine) (name : CStr) (hash : Int32) (check : Bool) :
    e.exitClient name hash check = e ∨ ∃ info, e.clientJournals.lookup name = some info ∧
      ¬ (check = true ∧ hash ≠ info.hashCode) ∧
      e.exitClient name hash check = { info.userIndexVec.foldl freeSlot e with
        pidClient := e.erasePidClient info.pid name
        clientJournals := e.clientJournals.erase name } := by
  cases h : e.clientJournals.lookup name with
  | none =>
    refine .inl ?_
    unfold exitClient
    rw [h]
  | some info =>
    by_cases hc : check = true ∧ hash ≠ info.hashCode
    · refine .inl ?_
      unfold exitClient
      rw [h]
      exact if_pos hc
    · exact .inr ⟨info, rfl, hc, exitClient_some h hc⟩

theorem exitClient_none {hash : Int32} {check : Bool} (h : e.clientJournals.lookup name = none) :
    e.exitClient name hash check = e := by
  unfold exitClient
  rw [h]

theorem exitClient_lookup (e : PageEngine) (name name' : CStr) :
    (e.exitClient name 0 false).clientJournals.lookup name' =
      if name' = name then none else e.clientJournals.lookup name' := by
  cases hl : e.clientJournals.lookup name with
  | none =>
    rw [exitClient_none hl]
    split
    · rename_i hn
      rw [hn, hl]
    · rfl
  | some info =>
    rw [exitClient_some hl (by simp)]
    dsimp only
    split
    · rename_i hn
      rw [hn, AList.lookup_erase]
    · rename_i hn
      rw [AList.lookup_erase_ne hn]

theorem exitClient_comm (hl : e.clientJournals.lookup name = some info) (i : ℕ) :
    (e.exitClient name 0 false).comm i =
      if i ∈ info.userIndexVec then { e.comm i with status := .raw } else e.comm i := by
  rw [exitClient_some hl (by simp)]
  exact foldl_freeSlot_comm info.userIndexVec e i

theorem Slots.exit (hs : Slots e) (h : e.clientJournals.lookup name = some info)
    (hc : e'.clientJournals = e.clientJournals.erase name) (hm : e'.maxIdx = e.maxIdx)
    (hcomm : e'.comm = (info.userIndexVec.foldl freeSlot e).comm) : Slots e' := by
  have hp : e.owned.Perm (info.userIndexVec ++ e'.owned) := by
    unfold owned
    rw [hc]
    exact pooled_perm h
  have hsub : ∀ i ∈ e'.owned, i ∈ e.owned := fun i hi => hp.mem_iff.mpr (List.mem_append_right _ hi)
  obtain ⟨-, hnodup, hdisj⟩ := List.nodup_append.mp (hp.nodup_iff.mp hs.nodup)
  refine ⟨fun i hi => hs.lt i (hsub i hi), fun i hi => ?_, fun i hi => ?_, hnodup⟩
  · rw [hm]
    exact hs.le_maxIdx i (hsub i hi)
  · rw [hcomm, foldl_freeSlot_comm, if_neg fun hin => hdisj i hin i hi rfl]
    exact hs.not_raw i (hsub i hi)

theorem Slots.exitClient (hs : Slots e) (name : CStr) (hash : Int32) (check : Bool) :
    Slots (e.exitClient name hash check) := by
  rcases e.exitClient_cases name hash check with h | ⟨info, hl, -, h⟩
  · rw [h]
    exact hs
  · rw [h]
    obtain ⟨-, -, hm, -⟩ := foldl_freeSlot_clients info.userIndexVec e
    exact hs.exit hl rfl hm rfl

theorem Slots.pidCheck (hs : Slots e) (dead : Int32 → Bool) : Slots (e.pidCheck dead) := by
  unfold PageEngine.pidCheck
  induction e.clientsToRemove dead generalizing e with
  | nil => exact hs
  | cons name names ih => exact ih (hs.exitClient name 0 false)

theorem keeps_tempPage (e : PageEngine) (addr : ℕ) : Keeps e (e.tempPage addr) := by
  unfold tempPage
  split <;> exact ⟨rfl, rfl, rfl, rfl, rfl⟩

end Yijinjing.PageEngine
