import Mathlib.Data.List.Sort
import Yijinjing.Lib.PagedLog
import Yijinjing.Journal.Chain

/-!
# The layout of a journal and the page files that represent it

A journal is a row of pages, each with the time it was opened at and its records; only the last page
is open.  `PageRep` says that a page buffer holds such a page and `Rep` that the page files hold the
row, under the page numbers `pageNo 0 = 1`, `pageNo 1 = 2` and so on.  A `View` also says whether the
file of the page behind the last one is already there, which is so in the middle of a page change.
-/

namespace Yijinjing

open Lib

/-! ### Page numbers -/

/-- The number of the page with index `i`. -/
def pageNo (i : ℕ) : Int16 := Int16.ofNat (i + 1)

/-- The pages a journal can have: the positive values of a page number. -/
def maxPages : ℕ := 32767

theorem pageNo_zero : pageNo 0 = 1 := rfl

theorem pageNo_succ (i : ℕ) : pageNo i + 1 = pageNo (i + 1) := (Int16.ofNat_add (i + 1) 1).symm

theorem pageNo_toInt {i : ℕ} (h : i < maxPages) : (pageNo i).toInt = i + 1 := by
  unfold maxPages at h
  have := Int16.toInt_ofNat_of_lt (n := i + 1) (by omega)
  unfold pageNo
  rw [this]
  rfl

theorem pageNo_inj {i j : ℕ} (hi : i < maxPages) (hj : j < maxPages) :
    pageNo i = pageNo j ↔ i = j := by
  refine ⟨fun h => ?_, fun h => h ▸ rfl⟩
  have := congrArg Int16.toInt h
  rw [pageNo_toInt hi, pageNo_toInt hj] at this
  omega

theorem pageNo_le {i j : ℕ} (hi : i < maxPages) (hj : j < maxPages) :
    pageNo i ≤ pageNo j ↔ i ≤ j := by
  rw [Int16.le_iff_toInt_le, pageNo_toInt hi, pageNo_toInt hj]
  omega

theorem pageNo_lt {i j : ℕ} (hi : i < maxPages) (hj : j < maxPages) :
    pageNo i < pageNo j ↔ i < j := by
  rw [← Int16.not_le, pageNo_le hj hi]
  omega

theorem exists_pageNo {n : Int16} (hn : 0 < n) : ∃ i < maxPages, n = pageNo i := by
  have hpos : (0 : Int16).toInt < n.toInt := Int16.lt_iff_toInt_lt.mp hn
  rw [Int16.toInt_zero] at hpos
  have hlt := n.toInt_lt
  have hi : n.toInt.toNat - 1 < maxPages := by
    unfold maxPages
    omega
  refine ⟨_, hi, Int16.toInt_inj.mp ?_⟩
  rw [pageNo_toInt hi]
  omega

theorem pageNo_nonneg {i : ℕ} (hi : i < maxPages) : 0 ≤ pageNo i := by
  rw [Int16.le_iff_toInt_le, pageNo_toInt hi]
  simp
  omega

/-! ### Layouts -/

structure PageLog where
  startNano : Int64
  records : List Record
  deriving DecidableEq

/-- Where the next frame of the page goes. -/
def PageLog.endPos (p : PageLog) : ℕ := pageInitPosition + framesSize p.records

theorem PageLog.le_endPos (p : PageLog) : 137 ≤ p.endPos := Nat.le_add_right ..

/-- The page with one more record. -/
def PageLog.push (p : PageLog) (r : Record) : PageLog := { p with records := p.records ++ [r] }

/-- A page just opened. -/
def PageLog.fresh (startNano : Int64) : PageLog := ⟨startNano, []⟩

@[simp] theorem PageLog.push_records (p : PageLog) (r : Record) :
    (p.push r).records = p.records ++ [r] := rfl

@[simp] theorem PageLog.push_startNano (p : PageLog) (r : Record) :
    (p.push r).startNano = p.startNano := rfl

@[simp] theorem PageLog.fresh_records (t : Int64) : (PageLog.fresh t).records = [] := rfl

@[simp] theorem PageLog.fresh_startNano (t : Int64) : (PageLog.fresh t).startNano = t := rfl

@[simp] theorem PageLog.fresh_endPos (t : Int64) : (PageLog.fresh t).endPos = pageInitPosition := rfl

theorem PageLog.push_endPos (p : PageLog) (r : Record) : (p.push r).endPos = p.endPos + r.size := by
  simp [PageLog.endPos, ← Nat.add_assoc]

theorem hasRoom_pageInitPosition : HasRoom pageInitPosition := by
  unfold HasRoom
  decide

/-- The records of a layout, page by page. -/
def recordRows (ps : List PageLog) : List (List Record) := ps.map PageLog.records

/-- All records of a layout, in order. -/
def allRecords (ps : List PageLog) : List Record := (recordRows ps).flatten

@[simp] theorem length_recordRows (ps : List PageLog) : (recordRows ps).length = ps.length := by
  simp [recordRows]

theorem recordRows_getD {ps : List PageLog} {i : ℕ} (h : i < ps.length) :
    (recordRows ps).getD i [] = ps[i].records := by
  simp [recordRows, List.getD, h]

@[simp] theorem allRecords_nil : allRecords [] = [] := rfl

@[simp] theorem allRecords_append (ps qs : List PageLog) :
    allRecords (ps ++ qs) = allRecords ps ++ allRecords qs := by simp [allRecords, recordRows]

@[simp] theorem allRecords_cons (p : PageLog) (ps : List PageLog) :
    allRecords (p :: ps) = p.records ++ allRecords ps := by simp [allRecords, recordRows]

/-- What the writer keeps of the layout: not more pages than there are numbers, frames only where
there was room for them, and a page is left only when there is no more room on it. -/
structure LayoutOk (ps : List PageLog) : Prop where
  length_le : ps.length ≤ maxPages
  roomy : ∀ p ∈ ps, Roomy pageInitPosition p.records
  full : ∀ i (h : i + 1 < ps.length), ¬ HasRoom ps[i].endPos

theorem LayoutOk.nil : LayoutOk [] := ⟨by simp, by simp, by simp⟩

theorem LayoutOk.records_ne_nil {ps : List PageLog} (h : LayoutOk ps) {i : ℕ}
    (hi : i + 1 < ps.length) : ps[i].records ≠ [] := by
  intro hnil
  have hroom := h.full i hi
  unfold PageLog.endPos at hroom
  rw [hnil] at hroom
  exact hroom hasRoom_pageInitPosition

theorem PageLog.endPos_lt {p : PageLog} (h : Roomy pageInitPosition p.records) :
    p.endPos < journalPageSize := h.end_lt (by decide)

/-! ### Page buffers -/

/-- The buffer holds the page, and `status` is the status behind its last frame. -/
structure PageRep (b : Mem) (p : PageLog) (status : UInt8) : Prop where
  inited : PageHeader.status b = journalPageStatusInited
  version : PageHeader.frameVersion b = 0 ∨ PageHeader.frameVersion b = frameHeaderVersion
  startNano : PageHeader.startNano b = p.startNano
  chain : Chain b pageInitPosition p.records
  status : Frame.getStatus b p.endPos = status

variable {b b' : Mem} {p : PageLog} {st : UInt8}

/-- A page depends on its header without the fields of a closed page, and on the bytes up to the
status behind its last frame. -/
theorem PageRep.congr (h : PageRep b p st)
    (heq : ∀ i, i < 41 ∨ 57 ≤ i → i ≤ p.endPos → b i = b' i) : PageRep b' p st := by
  have h137 : 137 ≤ p.endPos := by simp [PageLog.endPos, pageInitPosition, pageHeaderSize]
  constructor
  · rw [← h.inited]
    exact (heq 0 (by omega) (by omega)).symm
  · have e : PageHeader.frameVersion b = PageHeader.frameVersion b' :=
      Mem.loadAs_congr fun i h1 h2 => heq i (by omega) (by simp at h2; omega)
    rw [← e]
    exact h.version
  · rw [← h.startNano]
    exact (Mem.loadAs_congr fun i h1 h2 => heq i (by simp at h2; omega) (by simp at h2; omega)).symm
  · refine h.chain.congr fun i h1 h2 => heq i ?_ ?_
    · simp only [pageInitPosition, pageHeaderSize] at h1
      omega
    · unfold PageLog.endPos
      omega
  · rw [← h.status]
    exact (heq _ (by omega) (by omega)).symm

/-! ### Page files -/

theorem Files.lookup_update (fs : Files) (n m : Int16) (f : Mem → Mem) :
    (fs.update n f).lookup m = if m = n then (fs.lookup n).map f else fs.lookup m := by
  unfold Files.update
  split
  · rename_i b hb
    by_cases hmn : m = n
    · subst hmn
      simp [hb, AList.lookup_insert]
    · simp [hmn, AList.lookup_insert_ne hmn]
  · rename_i hb
    by_cases hmn : m = n
    · subst hmn
      simp [hb]
    · simp [hmn]

/-- A file that is there is not made again. -/
theorem Files.exec_create_of_isSome {fs : Files} {n : Int16} (h : (fs.lookup n).isSome) :
    Effect.exec fs (.create n) = fs := if_pos h

theorem Files.exec_create_of_none {fs : Files} {n : Int16} (h : fs.lookup n = none) :
    Effect.exec fs (.create n) = fs.insert n zeroPage := if_neg (by simp [h])

theorem Files.lookup_create {fs : Files} {n : Int16} (h : fs.lookup n = none) (m : Int16) :
    (Effect.exec fs (.create n)).lookup m = if m = n then some zeroPage else fs.lookup m := by
  rw [Files.exec_create_of_none h]
  split
  · rename_i hmn
    rw [hmn]
    exact AList.lookup_insert fs
  · rename_i hmn
    exact AList.lookup_insert_ne hmn

section PageFiles

variable {fs : Files} {k : Int16} {es : List Effect}

theorem Files.mem_update (fs : Files) (n k : Int16) (f : Mem → Mem) : k ∈ fs.update n f ↔ k ∈ fs := by
  unfold Files.update
  split
  · rename_i b hb
    rw [AList.mem_insert]
    refine or_iff_right_of_imp ?_
    rintro rfl
    exact AList.lookup_isSome.mp (by rw [hb]; rfl)
  · rfl

theorem Files.mem_create {n : Int16} : k ∈ Effect.exec fs (.create n) ↔ k = n ∨ k ∈ fs := by
  unfold Effect.exec
  dsimp only
  split
  · rename_i hn
    refine (or_iff_right_of_imp ?_).symm
    rintro rfl
    exact AList.lookup_isSome.mp hn
  · exact AList.mem_insert _

/-- Only `create` makes a page file. -/
theorem Files.mem_exec {e : Effect} (he : e ≠ .create k) : k ∈ e.exec fs ↔ k ∈ fs := by
  cases e with
  | create n =>
    rw [Files.mem_create]
    exact or_iff_right fun hk => he (by rw [hk])
  | lastByte n => exact Files.mem_update ..
  | header n s => exact Files.mem_update ..
  | frame n a s => exact Files.mem_update ..

theorem Files.mem_execAll (hes : .create k ∉ es) : k ∈ execAll fs es ↔ k ∈ fs := by
  induction es generalizing fs with
  | nil => rfl
  | cons e es ih =>
    rw [List.mem_cons, not_or] at hes
    exact (ih hes.2).trans (Files.mem_exec (Ne.symm hes.1))

/-- A page file is never taken away. -/
theorem Files.mem_exec_of_mem (e : Effect) (hk : k ∈ fs) : k ∈ e.exec fs := by
  by_cases he : e = .create k
  · rw [he, Files.mem_create]
    exact .inl rfl
  · exact (Files.mem_exec he).mpr hk

theorem Files.mem_execAll_of_mem (es : List Effect) (hk : k ∈ fs) : k ∈ execAll fs es := by
  induction es generalizing fs with
  | nil => exact hk
  | cons e es ih => exact ih (Files.mem_exec_of_mem e hk)

theorem Effect.lookup_isSome (e : Effect) (hk : (fs.lookup k).isSome) : ((e.exec fs).lookup k).isSome :=
  AList.lookup_isSome.mpr (Files.mem_exec_of_mem e (AList.lookup_isSome.mp hk))

theorem execAll_lookup_isSome (es : List Effect) (hk : (fs.lookup k).isSome) : ((execAll fs es).lookup k).isSome :=
  AList.lookup_isSome.mpr (Files.mem_execAll_of_mem es (AList.lookup_isSome.mp hk))

end PageFiles

theorem Files.buffer_of_lookup {fs : Files} {n : Int16} (h : fs.lookup n = some b) :
    fs.buffer n = b := by
  unfold Files.buffer
  rw [h]
  rfl

/-- The pages of a journal and whether the file of the page behind them is there. -/
structure View where
  pages : List PageLog
  opening : Bool

/-- The number of page files. -/
def View.numFiles (v : View) : ℕ := v.pages.length + v.opening.toNat

/-- A page file is a page of the journal or the one that is opened next. -/
theorem View.lt_or_next {v : View} {i : ℕ} (hi : i < v.numFiles) :
    i < v.pages.length ∨ v.opening = true ∧ i = v.pages.length := by
  have hnum : v.numFiles = v.pages.length + v.opening.toNat := rfl
  cases ho : v.opening with
  | false =>
    rw [ho, Bool.toNat_false] at hnum
    exact .inl (by omega)
  | true =>
    rw [ho, Bool.toNat_true] at hnum
    rcases Nat.lt_or_ge i v.pages.length with hlt | hge
    · exact .inl hlt
    · exact .inr ⟨rfl, by omega⟩

/-- The status behind the last frame of the page with index `i`: only the last page is open. -/
def View.endStatus (v : View) (i : ℕ) : UInt8 :=
  if i + 1 < v.pages.length then journalFrameStatusPageEnd else journalFrameStatusRaw

theorem View.endStatus_ne_written (v : View) (i : ℕ) : v.endStatus i ≠ journalFrameStatusWritten := by
  unfold View.endStatus
  split <;> decide

/-- A page file that has not been initialized. -/
structure Blank (b : Mem) : Prop where
  raw : PageHeader.status b = journalPageStatusRaw
  version : PageHeader.frameVersion b = 0
  status : Frame.getStatus b pageInitPosition = journalFrameStatusRaw

/-- A page file, initialized or not, that has no frames and no foreign version. -/
structure Unused (b : Mem) : Prop where
  version : PageHeader.frameVersion b = 0 ∨ PageHeader.frameVersion b = frameHeaderVersion
  status : Frame.getStatus b pageInitPosition = journalFrameStatusRaw

theorem Blank.unused (hb : Blank b) : Unused b := ⟨.inl hb.version, hb.status⟩

/-- The page files hold the pages of the view and no others. -/
structure Rep (fs : Files) (v : View) : Prop where
  ok : LayoutOk v.pages
  numFiles_le : v.numFiles ≤ maxPages
  files : ∀ n, (fs.lookup n).isSome ↔ ∃ i < v.numFiles, n = pageNo i
  page : ∀ i (h : i < v.pages.length), ∃ b, fs.lookup (pageNo i) = some b ∧
    PageRep b v.pages[i] (v.endStatus i)
  blank : v.pages = [] → ∀ b, fs.lookup (pageNo 0) = some b → Blank b
  next : v.opening = true → ∀ b, fs.lookup (pageNo v.pages.length) = some b → Unused b

/-- No page change is under way. -/
abbrev Settled (fs : Files) (ps : List PageLog) : Prop := Rep fs ⟨ps, false⟩

variable {fs : Files} {v : View}

theorem Rep.empty : Settled (∅ : Files) [] where
  ok := LayoutOk.nil
  numFiles_le := by simp [View.numFiles]
  files n := by simp [View.numFiles]
  page i hi := by simp at hi
  blank _ b hb := by simp at hb
  next ho := Bool.noConfusion ho

/-! ### The directory listing -/

theorem mergeSort_pairwise (ns : List Int16) :
    (ns.mergeSort fun m n => decide (m ≤ n)).Pairwise (· ≤ ·) := by
  have htrans : ∀ a b c : Int16, decide (a ≤ b) = true → decide (b ≤ c) = true → decide (a ≤ c) = true := by
    intro a b c hab hbc
    rw [decide_eq_true_eq] at *
    exact Int16.le_trans hab hbc
  have htotal : ∀ a b : Int16, (decide (a ≤ b) || decide (b ≤ a)) = true := by
    intro a b
    rw [Bool.or_eq_true, decide_eq_true_eq, decide_eq_true_eq]
    exact Int16.le_total a b
  exact (List.pairwise_mergeSort htrans htotal ns).imp of_decide_eq_true

theorem Rep.getPageNums (h : Rep fs v) : getPageNums fs = (List.range v.numFiles).map pageNo := by
  have hle := h.numFiles_le
  unfold Yijinjing.getPageNums
  have hmem : ∀ n, n ∈ fs.keys.filter (fun n => decide (0 ≤ n)) ↔ n ∈ (List.range v.numFiles).map pageNo := by
    intro n
    rw [List.mem_filter, ← AList.mem_keys, ← AList.lookup_isSome, h.files, List.mem_map]
    simp only [List.mem_range, decide_eq_true_eq]
    constructor
    · rintro ⟨⟨i, hi, rfl⟩, -⟩
      exact ⟨i, hi, rfl⟩
    · rintro ⟨i, hi, rfl⟩
      exact ⟨⟨i, hi, rfl⟩, pageNo_nonneg (by omega)⟩
  have hnodup : ((List.range v.numFiles).map pageNo).Nodup := by
    refine List.Nodup.map_on (fun i hi j hj hij => ?_) List.nodup_range
    rw [List.mem_range] at hi hj
    exact (pageNo_inj (by omega) (by omega)).mp hij
  have hperm : (fs.keys.filter fun n => decide (0 ≤ n)).Perm ((List.range v.numFiles).map pageNo) :=
    (List.perm_ext_iff_of_nodup (fs.keys_nodup.filter _) hnodup).mpr hmem
  refine @List.Perm.eq_of_pairwise _ (fun m n => m ≤ n) _ _ ?_ ?_ ?_ ((List.mergeSort_perm _ _).trans hperm)
  · intro m n _ _ h1 h2
    exact Int16.le_antisymm h1 h2
  · exact mergeSort_pairwise _
  · rw [List.pairwise_map]
    refine List.pairwise_lt_range.imp_of_mem fun {i j} hi hj hij => ?_
    rw [List.mem_range] at hi hj
    exact (pageNo_le (by omega) (by omega)).mpr (by omega)

end Yijinjing
