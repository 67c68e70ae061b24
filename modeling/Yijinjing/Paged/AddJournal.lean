import Yijinjing.Paged.Grants
import Yijinjing.Paged.KeyOrder
import Yijinjing.Paged.Mappings

/-!
# Directories with slashes at the back

`JournalHandler::addJournal`, which takes one slash off the directory before the journal is registered, and
what the page engine makes of it.  Two writers of one journal exclude each other as long as what is stored of
their directories, and read by the server, is the same without that slash (`one_writer_iff`).
-/

namespace Yijinjing

open Lib PageProvider PageSocketHandler

/-! ### `JournalHandler.cpp` -/

def slash : UInt8 := 47

/-- The directory that `JournalHandler::addJournal` registers; `none` is undefined. -/
def JournalHandler.directory (dir : List UInt8) : Option (List UInt8) :=
  match dir.getLast? with
  | none => none -- `back()` of an empty string
  | some b => some (if b = slash then dir.dropLast else dir)

/-- `JournalHandler::addJournal`: the bytes that `register_journal` leaves, with the slot at `a`; `none` is undefined,
or thrown. -/
def JournalHandler.addJournal (dir jname : List UInt8) (isWriter : Bool) (m : Mem) (a : ℕ) : Option Mem :=
  (JournalHandler.directory dir).bind fun dir => fillSlot ⟨[], 0, isWriter, dir, jname⟩ m a

/-! ### The property -/

/-- The names and the flag of the slot at `a` are still there. -/
def NamesKept (m m' : Mem) (a : ℕ) : Prop := ∀ i, a < i → i < a + 132 → m' i = m i

/-- A writer that has the journal registered in the slot `i` asks for the page `n`, now or later, and the server
reads `msg`. -/
def ServerReads (dir jname : List UInt8) (i : ℕ) (n : Int16) (msg : PageCommMsg) : Prop :=
  ∃ m reg m', JournalHandler.addJournal dir jname true (occupySlot m (getCommMsg i)) (getCommMsg i) = some reg ∧
    NamesKept reg m' (getCommMsg i) ∧
    PageCommMsg.decode (requestPage m' (getCommMsg i) n) (getCommMsg i) = some msg

/-- The writer of the slot `i` has been given the page that it asked for with `msg`. -/
structure HasPage (e : PageEngine) (i : ℕ) (msg : PageCommMsg) : Prop where
  slot : e.comm i = { msg with status := .allocated, lastPageNum := msg.pageNum }
  counted : (e.fileWriterCounts.lookup msg.key).isSome
  mapped : (e.fileAddrs.lookup msg.path).isSome

/-- **There is one writer** for the two directories: they are registered as the same folder, and whoever comes
second is refused the pages of the first. -/
structure OneWriter (dir₁ dir₂ jname : List UInt8) : Prop where
  registers : ∀ i < maxCommUserNumber, ∀ n,
    (∃ msg, ServerReads dir₁ jname i n msg) ∧ ∃ msg, ServerReads dir₂ jname i n msg
  sameFolder : ∀ i < maxCommUserNumber, ∀ j < maxCommUserNumber, i ≠ j → ∀ n₁ n₂ msg₁ msg₂,
    ServerReads dir₁ jname i n₁ msg₁ → ServerReads dir₂ jname j n₂ msg₂ → msg₁.folder = msg₂.folder
  refused : ∀ i < maxCommUserNumber, ∀ j < maxCommUserNumber, i ≠ j → ∀ n msg₁ msg₂,
    ServerReads dir₁ jname i n msg₁ → ServerReads dir₂ jname j n msg₂ → msg₁.key = msg₂.key ∧
      ∀ e addr, HasPage e i msg₁ → e.comm j = msg₂ → ((e.answer j addr).comm j).status = .moreThanOneWrite

variable {dir dir₁ dir₂ jname d bs : List UInt8} {msg msg₁ msg₂ : PageCommMsg} {e : PageEngine} {mem : Mem}
  {a b i j addr k m : ℕ} {n : Int16}

/-- One slash is taken off. -/
theorem directory_replicate (hd : d.getLast? ≠ some slash) (k : ℕ) :
    JournalHandler.directory (d ++ List.replicate k slash) =
      if d = [] ∧ k = 0 then none else some (d ++ List.replicate (k - 1) slash) := by
  unfold JournalHandler.directory
  cases k with
  | zero =>
    rw [Nat.zero_sub, List.replicate_zero, List.append_nil]
    cases hlast : d.getLast? with
    | none => rw [if_pos ⟨List.getLast?_eq_none_iff.mp hlast, rfl⟩]
    | some b =>
      have hne : d ≠ [] := fun hnil => by rw [hnil] at hlast; cases hlast
      have hb : b ≠ slash := fun hb => hd (by rw [hlast, hb])
      rw [if_neg fun h => hne h.1]
      dsimp only
      rw [if_neg hb]
  | succ k =>
    rw [List.replicate_succ', ← List.append_assoc, List.getLast?_concat, if_neg fun h => Nat.succ_ne_zero k h.2]
    dsimp only
    rw [if_pos rfl, List.dropLast_concat, Nat.add_sub_cancel]

/-! ### C strings -/

theorem exists_eq_cstr (h : 0 ∈ bs) : ∃ rest, bs = cstr bs ++ 0 :: rest ∧ 0 ∉ cstr bs := by
  obtain ⟨s, rest, rfl, hs⟩ := List.eq_append_cons_of_mem h
  have hcstr : cstr (s ++ 0 :: rest) = s := by
    rw [cstr_append_of_not_mem hs]
    exact List.append_nil s
  exact ⟨rest, by rw [hcstr], by rwa [hcstr]⟩

/-- What is read where bytes with a zero are. -/
theorem cString_of_at {size : ℕ} (hat : mem.At a bs) (hzero : 0 ∈ bs) (hlen : bs.length ≤ size) :
    mem.cString size a = some (cstr bs) := by
  obtain ⟨rest, hbs, hs⟩ := exists_eq_cstr hzero
  have hlength := congrArg List.length hbs
  rw [List.length_append, List.length_cons] at hlength
  rw [hbs, List.append_cons] at hat
  exact Mem.cString_eq_some_iff.mpr ⟨by omega, hs, (Mem.at_append.mp hat).1⟩

/-- Bytes that are cut off before their terminator fill the field. -/
theorem length_take_of_not_mem (h : 0 ∉ (bs ++ [0]).take k) : ((bs ++ [0]).take k).length = k := by
  refine List.length_take_of_le (Nat.le_of_not_lt fun hlt => h ?_)
  rw [List.take_of_length_le hlt.le]
  exact List.mem_append_right _ List.mem_cons_self

theorem exists_cString {c : ℕ} (hlo : a ≤ b) (hhi : b < a + c) (hzero : mem b = 0) :
    ∃ s, mem.cString c a = some s := by
  have hat : mem.At a (mem.load a c) := fun i hi => by simp [Mem.load]
  have hmem : 0 ∈ mem.load a c :=
    List.mem_map.mpr ⟨b - a, List.mem_range.mpr (by omega), by rw [Nat.add_sub_cancel' hlo]; exact hzero⟩
  exact ⟨_, cString_of_at hat hmem (Mem.length_load ..).le⟩

/-! ### What is registered -/

/-- The fields of a slot, one behind the other. -/
def fields (dir jname : List UInt8) : List UInt8 :=
  (dir ++ [0]).take journalFolderMaxLength ++ (jname ++ [0]).take journalShortNameMaxLength

/-- A slot in which a writer has registered `jname`, and asks for the page `n`. -/
structure WriterSlot (mem : Mem) (a : ℕ) (dir jname : List UInt8) (n : Int16) : Prop where
  status : mem a = CommStatus.requesting.byte
  folder : mem.At (a + 1) ((dir ++ [0]).take journalFolderMaxLength)
  name : mem.At (a + 101) ((jname ++ [0]).take journalShortNameMaxLength)
  isWriter : mem (a + 131) = 1
  pageNum : mem.At (a + 132) (Scalar.encode n)

theorem WriterSlot.of_requestedSlot (r : Registrant) (hw : r.isWriter = true) (m : Mem) (a : ℕ) (n : Int16) :
    WriterSlot (requestedSlot r m a n) a r.dir r.jname n where
  status := requestedSlot_status r m a n
  folder := by
    have hstored : ((occupySlot m a).storeCString (a + 1) r.dir).At (a + 1) (r.dir ++ [0]) := Mem.at_store _ _ _
    have hlen := List.length_take_le journalFolderMaxLength (r.dir ++ [0])
    have h100 : journalFolderMaxLength = 100 := rfl
    rw [← List.take_append_drop journalFolderMaxLength (r.dir ++ [0])] at hstored
    have hfront := (Mem.at_append.mp hstored).1
    exact requestedSlot_at (hfront.store (.inl (by omega))) (by omega) (by omega)
  name := by
    have hstored : (((occupySlot m a).storeCString (a + 1) r.dir).storeCString (a + 101) r.jname).At (a + 101)
        (r.jname ++ [0]) := Mem.at_store _ _ _
    have hlen := List.length_take_le journalShortNameMaxLength (r.jname ++ [0])
    have h30 : journalShortNameMaxLength = 30 := rfl
    rw [← List.take_append_drop journalShortNameMaxLength (r.jname ++ [0])] at hstored
    exact requestedSlot_at (Mem.at_append.mp hstored).1 (by omega) (by omega)
  isWriter := by
    rw [requestedSlot_isWriter, hw]
    rfl
  pageNum := requestedSlot_pageNum r m a n

theorem requestPage_names (m : Mem) (n : Int16) (hlo : a < j) (hhi : j < a + 132) : requestPage m a n j = m j :=
  (Mem.storeAs_outside _ _ (.inr (by simp; omega))).trans (Mem.storeAs_outside _ _ (.inl (by omega)))

theorem requestPage_behind (n : Int16) (h : mem.At (a + 134) bs) : (requestPage mem a n).At (a + 134) bs :=
  (h.storeAs n (.inr (by simp))).storeAs _ (.inr (by simp))

/-- What the server reads when the writer asks for a page, some time after the registration. -/
theorem WriterSlot.of_kept {r : Registrant} {m reg m' : Mem} (hw : r.isWriter = true)
    (hreg : ∀ n, requestPage reg a n = requestedSlot r m a n) (hk : NamesKept reg m' a) (n : Int16) :
    WriterSlot (requestPage m' a n) a r.dir r.jname n := by
  have hs := WriterSlot.of_requestedSlot r hw m a n
  rw [← hreg] at hs
  have hsame : ∀ j, a < j → j < a + 132 → requestPage reg a n j = requestPage m' a n j := fun j hlo hhi => by
    rw [requestPage_names reg n hlo hhi, requestPage_names m' n hlo hhi, hk j hlo hhi]
  have h100 : journalFolderMaxLength = 100 := rfl
  have h30 : journalShortNameMaxLength = 30 := rfl
  have hfolder := List.length_take_le journalFolderMaxLength (r.dir ++ [0])
  have hname := List.length_take_le journalShortNameMaxLength (r.jname ++ [0])
  exact
    { status := Mem.storeAs_byte _ _ _
      folder := hs.folder.congr fun j _ _ => hsame j (by omega) (by omega)
      name := hs.name.congr fun j _ _ => hsame j (by omega) (by omega)
      isWriter := (hsame (a + 131) (by omega) (by omega)).symm.trans hs.isWriter
      pageNum := (Mem.at_store _ _ _).storeAs _ (.inr (by simp)) }

theorem ServerReads.slot (h : ServerReads dir jname i n msg) : ∃ dir' mem, JournalHandler.directory dir = some dir' ∧
    WriterSlot mem (getCommMsg i) dir' jname n ∧ PageCommMsg.decode mem (getCommMsg i) = some msg := by
  obtain ⟨m, reg, m', hadd, hk, hmsg⟩ := h
  obtain ⟨dir', hdir, hfill⟩ := Option.bind_eq_some_iff.mp hadd
  obtain ⟨reg', hreg', hreq⟩ := fillSlot_occupySlot ⟨[], 0, true, dir', jname⟩ m (getCommMsg i)
  obtain rfl := Option.some.inj (hfill.symm.trans hreg')
  exact ⟨dir', _, hdir, .of_kept rfl hreq hk n, hmsg⟩

/-- A directory that is defined is registered, and the slot is read in whatever memory keeps the names. -/
theorem reads_of_directory (hdir : JournalHandler.directory dir = some d) (jname : List UInt8) (i : ℕ) (n : Int16) :
    ∃ reg, (∀ m' msg, NamesKept reg m' (getCommMsg i) →
        PageCommMsg.decode (requestPage m' (getCommMsg i) n) (getCommMsg i) = some msg →
          ServerReads dir jname i n msg) ∧
      ∀ m', NamesKept reg m' (getCommMsg i) →
        WriterSlot (requestPage m' (getCommMsg i) n) (getCommMsg i) d jname n := by
  let m : Mem := fun _ => 0
  obtain ⟨reg, hfill, hreq⟩ := fillSlot_occupySlot ⟨[], 0, true, d, jname⟩ m (getCommMsg i)
  have hadd : JournalHandler.addJournal dir jname true (occupySlot m (getCommMsg i)) (getCommMsg i) = some reg := by
    unfold JournalHandler.addJournal
    rw [hdir]
    exact hfill
  exact ⟨reg, fun m' msg hk hmsg => ⟨m, reg, m', hadd, hk, hmsg⟩, fun m' hk => .of_kept rfl hreq hk n⟩

/-- The C string that starts in the field of the folder. -/
theorem WriterSlot.folder_eq (hs : WriterSlot mem a dir jname n)
    (hjname : 0 ∈ (jname ++ [0]).take journalShortNameMaxLength) (ha : a + pageCommMsgSize ≤ commSize) :
    mem.cString (commSize - (a + 1)) (a + 1) = some (cstr (fields dir jname)) := by
  have h136 : pageCommMsgSize = 136 := rfl
  have h100 : journalFolderMaxLength = 100 := rfl
  have h30 : journalShortNameMaxLength = 30 := rfl
  have hfolder := List.length_take_le journalFolderMaxLength (dir ++ [0])
  have hname := List.length_take_le journalShortNameMaxLength (jname ++ [0])
  unfold fields
  by_cases hzero : 0 ∈ (dir ++ [0]).take journalFolderMaxLength
  · rw [cstr_append_of_mem hzero]
    exact cString_of_at hs.folder hzero (by omega)
  · -- the folder has no end in its field, and the journal name follows
    have hfull := length_take_of_not_mem hzero
    refine cString_of_at (Mem.at_append.mpr ⟨hs.folder, ?_⟩) (List.mem_append_right _ hjname) ?_
    · have haddr : a + 1 + ((dir ++ [0]).take journalFolderMaxLength).length = a + 101 := by omega
      rw [haddr]
      exact hs.name
    · rw [List.length_append]
      omega

/-- A slot as it is read when the name ends in its field. -/
def readSlot (folder jname : List UInt8) (n last : Int16) : PageCommMsg where
  status := .requesting
  folder := CStr.ofBytes folder
  name := CStr.ofBytes (cstr ((jname ++ [0]).take journalShortNameMaxLength))
  isWriter := true
  pageNum := n
  lastPageNum := last

theorem WriterSlot.decode (hs : WriterSlot mem (getCommMsg i) dir jname n)
    (hjname : 0 ∈ (jname ++ [0]).take journalShortNameMaxLength) (hi : i < maxCommUserNumber) :
    PageCommMsg.decode mem (getCommMsg i) =
      some (readSlot (cstr (fields dir jname)) jname n (mem.loadAs Int16 (getCommMsg i + 134))) := by
  have ha := getCommMsg_le hi
  have h136 : pageCommMsgSize = 136 := rfl
  have h30 : journalShortNameMaxLength = 30 := rfl
  have hlen := List.length_take_le journalShortNameMaxLength (jname ++ [0])
  have hname : mem.cString (commSize - (getCommMsg i + 101)) (getCommMsg i + 101) = _ :=
    cString_of_at hs.name hjname (by omega)
  have hbyte : CommStatus.ofByte CommStatus.requesting.byte = some .requesting := by decide
  unfold PageCommMsg.decode
  rw [hs.status, hbyte, hs.folder_eq hjname (Nat.le_of_add_right_le ha), hname, hs.isWriter, hs.pageNum.loadAs]
  rfl

/-- **What the server reads**: whatever the directory is, its first 100 bytes or up to the end, and then the name. -/
theorem ServerReads.eq (h : ServerReads dir jname i n msg)
    (hjname : 0 ∈ (jname ++ [0]).take journalShortNameMaxLength) (hi : i < maxCommUserNumber) :
    ∃ dir' last, JournalHandler.directory dir = some dir' ∧
      msg = readSlot (cstr (fields dir' jname)) jname n last := by
  obtain ⟨dir', mem, hdir, hs, hmsg⟩ := h.slot
  exact ⟨dir', _, hdir, Option.some.inj (hmsg.symm.trans (hs.decode hjname hi))⟩

/-- It may be any page that the server has answered for before. -/
theorem reads_readSlot (hdir : JournalHandler.directory dir = some d)
    (hjname : 0 ∈ (jname ++ [0]).take journalShortNameMaxLength) (hi : i < maxCommUserNumber) (n last : Int16) :
    ServerReads dir jname i n (readSlot (cstr (fields d jname)) jname n last) := by
  obtain ⟨reg, hreads, hslot⟩ := reads_of_directory hdir jname i n
  let m' := reg.storeAs (getCommMsg i + 134) last
  have hk : NamesKept reg m' (getCommMsg i) := fun j _ hhi => Mem.storeAs_outside _ _ (.inl (by omega))
  have hlast : (requestPage m' (getCommMsg i) n).At (getCommMsg i + 134) (Scalar.encode last) :=
    requestPage_behind n (Mem.at_store _ _ _)
  have hmsg := (hslot m' hk).decode hjname hi
  rw [hlast.loadAs] at hmsg
  exact hreads m' _ hk hmsg

/-! ### Equal folders -/

theorem fields_append_of_le (hle : journalFolderMaxLength ≤ dir.length) (bs jname : List UInt8) :
    fields (dir ++ bs) jname =
      dir.take journalFolderMaxLength ++ (jname ++ [0]).take journalShortNameMaxLength := by
  unfold fields
  rw [List.append_assoc, List.take_append_of_le_length hle]

theorem cstr_fields_of_lt (hzero : 0 ∉ dir) (hlt : dir.length < journalFolderMaxLength) :
    cstr (fields dir jname) = dir := by
  have hlen : (dir ++ [0]).length ≤ journalFolderMaxLength := by
    rw [List.length_append]
    exact hlt
  unfold fields
  rw [List.take_of_length_le hlen, List.append_assoc, cstr_append_of_not_mem hzero]
  exact List.append_nil dir

theorem le_length_cstr_fields (hzero : 0 ∉ dir) (hle : journalFolderMaxLength ≤ dir.length) (jname : List UInt8) :
    journalFolderMaxLength ≤ (cstr (fields dir jname)).length := by
  have hfields := fields_append_of_le hle [] jname
  rw [List.append_nil] at hfields
  rw [hfields, cstr_append_of_not_mem fun hmem => hzero (List.mem_of_mem_take hmem), List.length_append,
    List.length_take_of_le hle]
  exact Nat.le_add_right _ _

/-- What is behind a zero, or behind the first 100 bytes, does not count. -/
theorem cstr_fields_append_of_mem (hzero : 0 ∈ d) (bs : List UInt8) :
    cstr (fields (d ++ bs) jname) = cstr (fields d jname) := by
  rcases Nat.lt_or_ge d.length journalFolderMaxLength with hlt | hge
  · have hkeep : ∀ bs cs, cstr ((d ++ bs).take journalFolderMaxLength ++ cs) = cstr d := fun bs cs => by
      rw [List.take_append, List.take_of_length_le hlt.le, List.append_assoc, cstr_append_of_mem hzero]
    unfold fields
    rw [List.append_assoc, hkeep, hkeep]
  · have hfields := fields_append_of_le hge [] jname
    rw [List.append_nil] at hfields
    rw [fields_append_of_le hge, hfields]

/-- The slashes that are left are part of the folder, as far as it is stored and read. -/
theorem cstr_fields_replicate_inj :
    cstr (fields (d ++ List.replicate k slash) jname) = cstr (fields (d ++ List.replicate m slash) jname) ↔
      0 ∈ d ∨ k = m ∨ journalFolderMaxLength ≤ d.length + min k m := by
  by_cases hzero : 0 ∈ d
  · rw [cstr_fields_append_of_mem hzero, cstr_fields_append_of_mem hzero]
    exact iff_of_true rfl (.inl hzero)
  have hfree : ∀ k, 0 ∉ d ++ List.replicate k slash := by
    intro k hmem
    rcases List.mem_append.mp hmem with hmem | hmem
    · exact hzero hmem
    · exact absurd (List.eq_of_mem_replicate hmem) (by decide)
  have hlen : ∀ k, (d ++ List.replicate k slash).length = d.length + k := fun k => by
    rw [List.length_append, List.length_replicate]
  rw [or_iff_right hzero]
  rcases Nat.lt_or_ge (d.length + k) journalFolderMaxLength with hk | hk <;>
    rcases Nat.lt_or_ge (d.length + m) journalFolderMaxLength with hm | hm
  · rw [cstr_fields_of_lt (hfree k) ((hlen k).trans_lt hk), cstr_fields_of_lt (hfree m) ((hlen m).trans_lt hm),
      List.append_cancel_left_eq, List.replicate_left_inj]
    exact (or_iff_left (by omega)).symm
  · refine iff_of_false (fun h => ?_) (by omega)
    have hlong := le_length_cstr_fields (hfree m) (hm.trans_eq (hlen m).symm) jname
    rw [← h, cstr_fields_of_lt (hfree k) ((hlen k).trans_lt hk), hlen] at hlong
    exact absurd hk (Nat.not_lt.mpr hlong)
  · refine iff_of_false (fun h => ?_) (by omega)
    have hlong := le_length_cstr_fields (hfree k) (hk.trans_eq (hlen k).symm) jname
    rw [h, cstr_fields_of_lt (hfree m) ((hlen m).trans_lt hm), hlen] at hlong
    exact absurd hm (Nat.not_lt.mpr hlong)
  · -- both run over the field, which is full of the same bytes
    refine iff_of_true ?_ (.inr (by omega))
    have hfull : ∀ k, journalFolderMaxLength ≤ d.length + k → fields (d ++ List.replicate k slash) jname =
        (d.take journalFolderMaxLength ++ List.replicate (journalFolderMaxLength - d.length) slash) ++
          (jname ++ [0]).take journalShortNameMaxLength := fun k hk => by
      have hfields := fields_append_of_le ((hlen k).symm ▸ hk) [] jname
      rw [List.append_nil] at hfields
      rw [hfields, List.take_append, List.take_replicate, Nat.min_eq_left (by omega)]
    rw [hfull k hk, hfull m hm]

/-! ### Who has the page -/

section Engine

open PageEngine

/-- The release of the page that a slot had before does not touch the page that it asks for. -/
theorem releaseLast_lookup (e : PageEngine) (j : ℕ) :
    (e.releaseLast j).fileWriterCounts.lookup (e.comm j).key = e.fileWriterCounts.lookup (e.comm j).key ∧
      (e.releaseLast j).fileAddrs.lookup (e.comm j).path = e.fileAddrs.lookup (e.comm j).path := by
  rw [releaseLast_eq]
  split
  case isFalse => exact ⟨rfl, rfl⟩
  case isTrue h =>
    have hnum : (e.comm j).pageNum ≠ (e.comm j).lastPageNum := h.2.symm
    refine ⟨lookup_counts_releasePage_of_ne (w := true) fun hkey => hnum (congrArg PageKey.pageNum hkey.2).symm,
      releasePage_lookup_ne (fun hpath => hnum ?_) e⟩
    have hfile := (List.cons.inj (List.append_cancel_left hpath)).2
    exact (genPageFileName_injective hfile).2

/-- A page that is counted for a writer is not given to another one. -/
theorem answer_refused (hw : (e.comm j).isWriter = true)
    (hcount : (e.fileWriterCounts.lookup (e.comm j).key).isSome)
    (hmap : (e.fileAddrs.lookup (e.comm j).path).isSome) (addr : ℕ) :
    ((e.answer j addr).comm j).status = .moreThanOneWrite := by
  obtain ⟨hsame, hsame'⟩ := releaseLast_lookup e j
  rw [← hsame] at hcount
  rw [← hsame'] at hmap
  have hpage : (e.releaseLast j).mapPage (e.comm j) addr = .ok (e.releaseLast j) := if_pos hmap
  have hcounted : ((e.releaseLast j).countPage (e.comm j)).1 = .moreThanOneWrite := by
    rcases (e.releaseLast j).counts_countPage (e.comm j) with ⟨-, -, hnone⟩ | ⟨hst, -⟩
    · have hlookup : (e.releaseLast j).fileWriterCounts.lookup (e.comm j).key = none := hnone hw
      rw [hlookup] at hcount
      cases hcount
    · exact hst
  rw [answer_comm_self]
  show ((e.releaseLast j).initiatePage (e.comm j) addr).1 = .moreThanOneWrite
  unfold initiatePage
  rw [hpage]
  exact hcounted

theorem HasPage.refused (hp : HasPage e i msg₁) (hj : e.comm j = msg₂) (hkey : msg₁.key = msg₂.key)
    (hw : msg₂.isWriter = true) (addr : ℕ) : ((e.answer j addr).comm j).status = .moreThanOneWrite := by
  obtain rfl := hj
  refine answer_refused hw (hkey ▸ hp.counted) ?_ addr
  unfold PageCommMsg.path
  rw [← hkey]
  exact hp.mapped

theorem mapPage_mapped {t : PageEngine} (h : e.mapPage msg addr = .ok t) : (t.fileAddrs.lookup msg.path).isSome := by
  have hm := maps e msg addr
  rw [h] at hm
  cases hm with
  | mapped hl => exact hl
  | loaded isWriting _ _ =>
    rw [loadPage_lookup, if_pos rfl]
    rfl
  | fromTemp buffer os _ _ _ _ =>
    unfold takeTemp
    rw [AList.lookup_insert]
    rfl

/-- Whatever the answer is, the page is counted for a writer. -/
theorem countPage_counted (hw : msg.isWriter = true) :
    ((e.countPage msg).2.fileWriterCounts.lookup msg.key).isSome := by
  show (((e.countPage msg).2.counts true).lookup msg.key).isSome
  rcases e.counts_countPage msg with ⟨-, hcount, -⟩ | ⟨-, hsame, -, hl⟩
  · rw [hcount, hw, counts_setCounts, if_pos rfl, AList.lookup_insert]
    rfl
  · rw [hsame]
    exact hl

/-- **A writer that is granted a page has it**, whatever the state of the engine is. -/
theorem hasPage_of_granted (hi : e.comm i = msg) (hw : msg.isWriter = true)
    (hst : ((e.answer i addr).comm i).status = .allocated) : HasPage (e.answer i addr) i msg := by
  have hslot := answer_comm_self e i addr
  rw [hi] at hslot
  have hgrant : ((e.releaseLast i).initiatePage msg addr).1 = .allocated := by
    rw [hslot] at hst
    unfold answerStatus at hst
    rwa [hi] at hst
  have hans := answer_eq e i addr
  rw [hi] at hans
  -- the page has been mapped, and then counted
  unfold initiatePage at hgrant hans
  cases hmap : (e.releaseLast i).mapPage msg addr with
  | error status =>
    have hm := maps (e.releaseLast i) msg addr
    rw [hmap] at hm hgrant
    dsimp only at hgrant
    subst hgrant
    cases hm
  | ok t =>
    rw [hmap] at hgrant hans
    dsimp only at hgrant hans
    refine ⟨?_, ?_, ?_⟩
    · rw [hslot] at hst ⊢
      exact congrArg (fun status => { msg with status := status, lastPageNum := msg.pageNum }) hst
    · rw [hans]
      exact countPage_counted hw
    · rw [hans]
      show ((t.countPage msg).2.fileAddrs.lookup msg.path).isSome
      rw [(countPage_maps t _).1]
      exact mapPage_mapped hmap

/-- And it has the page in every state in which the writers exclude each other and the mappings match. -/
theorem hasPage_of_holds (hx : WritersExclude e) (hm : MappingsMatch e) (hi : i ∈ e.owned)
    (hslot : e.comm i = { msg with status := .allocated, lastPageNum := msg.pageNum }) (hw : msg.isWriter = true)
    (htemp : msg.path ≠ e.tempPath) : HasPage e i msg := by
  have hholds : (e.comm i).Holds true msg.key := by
    rw [hslot]
    exact ⟨rfl, hw, rfl⟩
  have hcount := hx.counted _ i hi hholds
  exact ⟨hslot, hcount, (hm.mapped _ htemp).mpr ⟨_, rfl, .inl hcount⟩⟩

end Engine

/-! ### Two spellings of a directory -/

/-- A directory `d` with `k` slashes behind it and with `m`: one slash is taken off each time, and what is stored and
read of the rest is the same. -/
structure SameSpelling (d jname : List UInt8) (k m : ℕ) : Prop where
  not_empty : d = [] → 0 < k ∧ 0 < m
  /-- behind a name that fills its field there are the flag and the page numbers of the slot -/
  jname_ends : 0 ∈ (jname ++ [0]).take journalShortNameMaxLength
  slashes : 0 ∈ d ∨ k - 1 = m - 1 ∨ journalFolderMaxLength ≤ d.length + min (k - 1) (m - 1)

theorem directory_eq_some (hd : d.getLast? ≠ some slash) (hne : d = [] → 0 < k) :
    JournalHandler.directory (d ++ List.replicate k slash) = some (d ++ List.replicate (k - 1) slash) := by
  rw [directory_replicate hd, if_neg fun h => absurd h.2 (hne h.1).ne']

/-- A name that fills its field is read on, through the flag and the page numbers. -/
theorem WriterSlot.decode_full (hs : WriterSlot mem a dir jname n)
    (hjname : 0 ∉ (jname ++ [0]).take journalShortNameMaxLength) (ha : a + pageCommMsgSize + 1024 ≤ commSize)
    {last : Int16} (hlast : mem.At (a + 134) (Scalar.encode last ++ [0])) :
    ∃ msg, PageCommMsg.decode mem a = some msg ∧ msg.name = CStr.ofBytes
      ((jname ++ [0]).take journalShortNameMaxLength ++
        1 :: cstr (Scalar.encode n ++ (Scalar.encode last ++ [0]))) := by
  have h136 : pageCommMsgSize = 136 := rfl
  have h30 : journalShortNameMaxLength = 30 := rfl
  have hfull := length_take_of_not_mem hjname
  have hname : mem.At (a + 101) ((jname ++ [0]).take journalShortNameMaxLength ++
      (1 :: (Scalar.encode n ++ (Scalar.encode last ++ [0])))) := by
    refine Mem.at_append.mpr ⟨hs.name, ?_⟩
    rw [hfull, h30]
    exact Mem.at_cons.mpr ⟨hs.isWriter, Mem.at_append.mpr ⟨hs.pageNum, by simpa using hlast⟩⟩
  have hread : mem.cString (commSize - (a + 101)) (a + 101) = some _ :=
    cString_of_at hname (by simp) (by simp [hfull]; omega)
  have hone : ∀ cs, cstr (1 :: cs) = 1 :: cstr cs := @cstr_append_of_not_mem [1] (by decide)
  rw [cstr_append_of_not_mem hjname, hone] at hread
  -- the folder ends there at the latest
  have hzero : mem (a + 136) = 0 := by simpa using Mem.at_singleton.mp (Mem.at_append.mp hlast).2
  obtain ⟨folder, hfolder⟩ := exists_cString (a := a + 1) (b := a + 136) (c := commSize - (a + 1)) (by omega)
    (by omega) hzero
  have hbyte : CommStatus.ofByte CommStatus.requesting.byte = some .requesting := by decide
  refine ⟨⟨.requesting, CStr.ofBytes folder, _, mem (a + 131) ≠ 0, mem.loadAs Int16 (a + 132),
    mem.loadAs Int16 (a + 134)⟩, ?_, rfl⟩
  unfold PageCommMsg.decode
  rw [hs.status, hbyte, hfolder, hread]
  rfl

/-- So it is when the server has answered for the page `last`, and the next slot is free. -/
theorem exists_reads_on (hdir : JournalHandler.directory dir = some d)
    (hjname : 0 ∉ (jname ++ [0]).take journalShortNameMaxLength) (hi : i < maxCommUserNumber) (n last : Int16) :
    ∃ msg, ServerReads dir jname i n msg ∧ msg.name = CStr.ofBytes
      ((jname ++ [0]).take journalShortNameMaxLength ++
        1 :: cstr (Scalar.encode n ++ (Scalar.encode last ++ [0]))) := by
  obtain ⟨reg, hreads, hslot⟩ := reads_of_directory hdir jname i n
  let m' := (reg.storeAs (getCommMsg i + 134) last).store (getCommMsg i + 136) [0]
  have hk : NamesKept reg m' (getCommMsg i) := fun j _ hhi =>
    (Mem.store_outside _ (.inl (by omega))).trans (Mem.storeAs_outside _ _ (.inl (by omega)))
  have hlast : m'.At (getCommMsg i + 134) (Scalar.encode last ++ [0]) :=
    Mem.at_append.mpr ⟨(Mem.at_store _ _ _).store (.inl (by simp)),
      by simpa using Mem.at_store _ (getCommMsg i + 136) [0]⟩
  obtain ⟨msg, hmsg, hname⟩ := (hslot m' hk).decode_full hjname (getCommMsg_le hi) (requestPage_behind n hlast)
  exact ⟨msg, hreads m' msg hk hmsg, hname⟩

/-- The name ends in its field: page 258 is not asked for under one name by a writer that has had page 257 and by
one that asks for its first page. -/
theorem OneWriter.jname_ends (h : OneWriter dir₁ dir₂ jname) :
    0 ∈ (jname ++ [0]).take journalShortNameMaxLength := by
  by_contra hlong
  have h0 : 0 < maxCommUserNumber := by decide
  have h1 : 1 < maxCommUserNumber := by decide
  obtain ⟨⟨_, hreg₁⟩, ⟨_, hreg₂⟩⟩ := h.registers 0 h0 258
  obtain ⟨_, _, hdir₁, -⟩ := hreg₁.slot
  obtain ⟨_, _, hdir₂, -⟩ := hreg₂.slot
  obtain ⟨msg₁, hread₁, hname₁⟩ := exists_reads_on hdir₁ hlong h0 258 257
  obtain ⟨msg₂, hread₂, hname₂⟩ := exists_reads_on hdir₂ hlong h1 258 0
  have hkey := (h.refused 0 h0 1 h1 (by decide) 258 msg₁ msg₂ hread₁ hread₂).1
  have hname := (hname₁.symm.trans (congrArg PageKey.name hkey)).trans hname₂
  exact absurd (List.append_cancel_left (CStr.ofBytes_injective hname)) (by decide)

theorem ServerReads.not_empty (hd : d.getLast? ≠ some slash)
    (h : ServerReads (d ++ List.replicate k slash) jname i n msg) (hnil : d = []) : 0 < k := by
  obtain ⟨dir', _, hdir, -⟩ := h.slot
  rw [directory_replicate hd] at hdir
  refine Nat.pos_of_ne_zero fun hk => ?_
  rw [if_pos ⟨hnil, hk⟩] at hdir
  cases hdir

theorem OneWriter.sameSpelling (hd : d.getLast? ≠ some slash)
    (h : OneWriter (d ++ List.replicate k slash) (d ++ List.replicate m slash) jname) : SameSpelling d jname k m := by
  have h0 : 0 < maxCommUserNumber := by decide
  have h1 : 1 < maxCommUserNumber := by decide
  obtain ⟨⟨_, hreg₁⟩, ⟨_, hreg₂⟩⟩ := h.registers 0 h0 1
  have hdir₁ := directory_eq_some hd (hreg₁.not_empty hd)
  have hdir₂ := directory_eq_some hd (hreg₂.not_empty hd)
  have hfolder := h.sameFolder 0 h0 1 h1 (by decide) 1 1 _ _ (reads_readSlot hdir₁ h.jname_ends h0 1 0)
    (reads_readSlot hdir₂ h.jname_ends h1 1 0)
  exact ⟨fun hnil => ⟨hreg₁.not_empty hd hnil, hreg₂.not_empty hd hnil⟩, h.jname_ends,
    cstr_fields_replicate_inj.mp (CStr.ofBytes_injective hfolder)⟩

/-- The two slots are read alike, but for the page numbers. -/
theorem SameSpelling.reads_eq (h : SameSpelling d jname k m) (hd : d.getLast? ≠ some slash)
    (hi : i < maxCommUserNumber) (hj : j < maxCommUserNumber) {n₁ n₂ : Int16}
    (h₁ : ServerReads (d ++ List.replicate k slash) jname i n₁ msg₁)
    (h₂ : ServerReads (d ++ List.replicate m slash) jname j n₂ msg₂) :
    ∃ folder last₁ last₂, msg₁ = readSlot folder jname n₁ last₁ ∧ msg₂ = readSlot folder jname n₂ last₂ := by
  obtain ⟨dir₁, last₁, hdir₁, rfl⟩ := h₁.eq h.jname_ends hi
  obtain ⟨dir₂, last₂, hdir₂, rfl⟩ := h₂.eq h.jname_ends hj
  obtain rfl := Option.some.inj ((directory_eq_some hd fun hnil => (h.not_empty hnil).1).symm.trans hdir₁)
  obtain rfl := Option.some.inj ((directory_eq_some hd fun hnil => (h.not_empty hnil).2).symm.trans hdir₂)
  exact ⟨_, last₁, last₂, rfl, by rw [cstr_fields_replicate_inj.mpr h.slashes]⟩

/-- **Two writers that name a directory with different numbers of slashes exclude each other if and only if the
same bytes are stored and read once one slash is off.** -/
theorem one_writer_iff (d jname : List UInt8) (k m : ℕ) (hd : d.getLast? ≠ some slash) :
    OneWriter (d ++ List.replicate k slash) (d ++ List.replicate m slash) jname ↔ SameSpelling d jname k m := by
  refine ⟨OneWriter.sameSpelling hd, fun h => ?_⟩
  have hdir₁ := directory_eq_some hd fun hnil => (h.not_empty hnil).1
  have hdir₂ := directory_eq_some hd fun hnil => (h.not_empty hnil).2
  refine ⟨fun i hi n => ?_, fun i hi j hj _ n₁ n₂ msg₁ msg₂ h₁ h₂ => ?_, fun i hi j hj _ n msg₁ msg₂ h₁ h₂ => ?_⟩
  · exact ⟨⟨_, reads_readSlot hdir₁ h.jname_ends hi n 0⟩, ⟨_, reads_readSlot hdir₂ h.jname_ends hi n 0⟩⟩
  · obtain ⟨folder, last₁, last₂, rfl, rfl⟩ := h.reads_eq hd hi hj h₁ h₂
    rfl
  · obtain ⟨folder, last₁, last₂, rfl, rfl⟩ := h.reads_eq hd hi hj h₁ h₂
    exact ⟨rfl, fun e addr hp hslot => hp.refused hslot rfl rfl addr⟩

/-- With one slash and without. -/
theorem one_writer_iff_slash : OneWriter ("/tmp".toUTF8.toList ++ List.replicate 0 slash)
    ("/tmp".toUTF8.toList ++ List.replicate 1 slash) "test".toUTF8.toList :=
  (one_writer_iff "/tmp".toUTF8.toList "test".toUTF8.toList 0 1 (by decide +kernel)).mpr
    ⟨by decide +kernel, by decide +kernel, .inr (.inl rfl)⟩

/-- With two slashes one is left: another folder is registered, and both writers are given page 1. -/
theorem two_slashes : ¬ OneWriter ("/tmp".toUTF8.toList ++ List.replicate 0 slash)
      ("/tmp".toUTF8.toList ++ List.replicate 2 slash) "test".toUTF8.toList ∧
    ∃ msg₁ msg₂ e, ServerReads "/tmp".toUTF8.toList "test".toUTF8.toList 0 1 msg₁ ∧
      ServerReads "/tmp//".toUTF8.toList "test".toUTF8.toList 1 1 msg₂ ∧
      HasPage e 0 msg₁ ∧ e.comm 1 = msg₂ ∧ ((e.answer 1 11).comm 1).status = .allocated := by
  have hjname : 0 ∈ ("test".toUTF8.toList ++ [0]).take journalShortNameMaxLength := by decide +kernel
  have hdir₁ : JournalHandler.directory "/tmp".toUTF8.toList = some "/tmp".toUTF8.toList := by decide +kernel
  have hdir₂ : JournalHandler.directory "/tmp//".toUTF8.toList = some "/tmp/".toUTF8.toList := by decide +kernel
  let msg₁ := readSlot (cstr (fields "/tmp".toUTF8.toList "test".toUTF8.toList)) "test".toUTF8.toList 1 0
  let msg₂ := readSlot (cstr (fields "/tmp/".toUTF8.toList "test".toUTF8.toList)) "test".toUTF8.toList 1 0
  have hread₁ : ServerReads "/tmp".toUTF8.toList "test".toUTF8.toList 0 1 msg₁ :=
    reads_readSlot hdir₁ hjname (by decide) 1 0
  have hread₂ : ServerReads "/tmp//".toUTF8.toList "test".toUTF8.toList 1 1 msg₂ :=
    reads_readSlot hdir₂ hjname (by decide) 1 0
  constructor
  · intro h
    have hspell₁ : "/tmp".toUTF8.toList = "/tmp".toUTF8.toList ++ List.replicate 0 slash := by decide +kernel
    have hspell₂ : "/tmp//".toUTF8.toList = "/tmp".toUTF8.toList ++ List.replicate 2 slash := by decide +kernel
    rw [← hspell₁, ← hspell₂] at h
    have hfolder := h.sameFolder 0 (by decide) 1 (by decide) (by decide) 1 1 msg₁ msg₂ hread₁ hread₂
    exact absurd hfolder (by decide +kernel)
  · let e := ((Setup.bare.engine.setMsg 0 msg₁).setMsg 1 msg₂).answer 0 10
    exact ⟨msg₁, msg₂, e, hread₁, hread₂, hasPage_of_granted (by decide +kernel) rfl (by decide +kernel),
      by decide +kernel, by decide +kernel⟩

end Yijinjing
