import Yijinjing.Journal.Recovery

/-!
# A seek while pages are made

The runs of one journal in which a reader is inside `Journal::seekTime` while the writer goes on.  The
call with the directory listing, each header that `GetPageNumWithTime` reads, the page request, the reads
of `Page::load` and each turn of the loop over the frames are steps, and the stores of the writer take
place in between.

A page file is there before the writer has initialized it.  A seek that finds it in the directory may
ask for it, and if it is still RAW when `Page::load` reads its status, the reader is left expired, though
the journal has pages (`seek_refused`).  A seek for the end, or for a time that is not known to be over
when the page was opened, must not be called in that window (`Ready`); any other one succeeds
(`seek_succeeds`).
-/

namespace Yijinjing.SeekRace

open Lib Prog

/-! ### The seek, one step at a time -/

/-- What the reader does next. -/
inductive SeekPc where
  /-- no seek yet -/
  | idle
  /-- the last seek has returned -/
  | returned (found : Bool)
  /-- a version mismatch was thrown -/
  | thrown
  /-- `GetPageNumWithTime`: the page numbers whose headers are still to be read -/
  | header (time : Int64) (ns : List Int16)
  /-- `getPage`: the answer of the service to the request -/
  | request (time : Int64) (n : Int16)
  /-- `Page::load`: the file is mapped -/
  | mapPage (time : Int64) (n : Int16)
  /-- `Page::load`: `header->status` -/
  | headerStatus (time : Int64) (n : Int16)
  /-- `Page::load`: `header->frame_version` -/
  | headerVersion (time : Int64) (n : Int16)
  /-- `passWrittenFrame` or `passToTime` -/
  | scan (time : Int64) (p : Page)

namespace SeekPc

/-- No seek is under way. -/
def atRest : SeekPc → Bool
  | .idle | .returned _ => true
  | _ => false

/-- The condition of the loop over the frames. -/
def passes (b : Mem) (time : Int64) (p : Page) : Bool :=
  Page.getCurStatus b p == journalFrameStatusWritten &&
    (decide (time = timeToLast) || decide (Frame.getNano b p.frame < time))

/-- `GetPageNums`, and what is done with the page numbers. -/
def listDir (fs : Files) (time : Int64) : SeekPc :=
  if time = timeToLast then .request time (Journal.lastPageNum fs)
  else if time = timeFromFirst then .request time (Journal.firstPageNum fs)
  else .header time (getPageNums fs).reverse

/-- The next step of the seek. -/
def advance (fs : Files) : SeekPc → Option SeekPc
  | .idle | .returned _ | .thrown => none
  | .header time [] => some (.request time 1)
  | .header time (n :: ns) =>
    if PageHeader.startNano (fs.buffer n) < time then some (.request time n) else some (.header time ns)
  | .request time n => if (fs.lookup n).isSome then some (.mapPage time n) else some (.returned false)
  | .mapPage time n => if (fs.lookup n).isSome then some (.headerStatus time n) else some (.returned false)
  | .headerStatus time n =>
    if PageHeader.status (fs.buffer n) == journalPageStatusRaw then some (.returned false)
    else some (.headerVersion time n)
  | .headerVersion time n =>
    if 0 < PageHeader.frameVersion (fs.buffer n) ∧ PageHeader.frameVersion (fs.buffer n) ≠ frameHeaderVersion then
      some .thrown
    else if time = timeFromFirst then some (.returned true)
    else some (.scan time (Page.new 0 n))
  | .scan time p =>
    if passes (fs.buffer p.pageNum) time p then some (.scan time (p.passFrame (fs.buffer p.pageNum)))
    else some (.returned true)

/-- The seek alone, on page files that stay as they are. -/
def Reaches (fs : Files) : SeekPc → SeekPc → Prop :=
  Relation.ReflTransGen fun k k' => k.advance fs = some k'

end SeekPc

/-! ### The system -/

structure State where
  journal : Recovery.State
  seeker : SeekPc

inductive Action where
  /-- a step of the writer, or of another reader -/
  | journal (a : Recovery.Action)
  /-- the reader calls `seekTime`, which lists the directory -/
  | seek (time : Int64)
  /-- the next step of the seek takes place -/
  | read

/-- A page of the journal is initialized. -/
def Initialised (fs : Files) : Prop :=
  ∃ n ∈ getPageNums fs, PageHeader.status (fs.buffer n) = journalPageStatusInited

instance (fs : Files) : Decidable (Initialised fs) := by unfold Initialised; infer_instance

/-- The page files as they are. -/
def State.files (s : State) : Files := s.journal.party.files

/-- The writer lives. -/
def step (h : Host) (s : State) : Action → Option State
  | .journal .die => none
  | .journal a => (Recovery.step h s.journal a).map fun journal => { s with journal := journal }
  | .seek time =>
    if s.seeker.atRest ∧ Initialised s.files then some { s with seeker := .listDir s.files time }
    else none
  | .read => (s.seeker.advance s.files).map fun seeker => { s with seeker := seeker }

def race (h : Host) : System State Action := ⟨⟨Recovery.State.empty, .idle⟩, step h⟩

/-- A seek that has returned has found its page, and one that is under way will, if nothing changes. -/
structure Succeeds (s : State) : Prop where
  not_expired : s.seeker ≠ .returned false
  not_thrown : s.seeker ≠ .thrown
  returns : s.seeker.atRest = false → SeekPc.Reaches s.files s.seeker (.returned true)

/-- The page is initialized, or the time is known to be before it. -/
def Passable (b : Mem) (time : Int64) : Prop :=
  PageHeader.status b ≠ journalPageStatusRaw ∨
    time ≠ timeToLast ∧ PageHeader.startNano b ≠ 0 ∧ time ≤ PageHeader.startNano b

/-- When a seek is called that is not for the first page, the pages in the directory are passable. -/
def Ready (s : State) : Action → Prop
  | .seek time => time = timeFromFirst ∨ ∀ n ∈ getPageNums s.files, Passable (s.files.buffer n) time
  | _ => True

/-! ### What a seek relies on -/

/-- The page file is there. -/
def HasFile (v : View) (n : Int16) : Prop := ∃ i < v.numFiles, n = pageNo i

/-- The page stands for a place in a page file, of the page that is opened next too. -/
def Stands (v : View) (p : Page) : Prop :=
  ∃ m i j, i < v.numFiles ∧ j ≤ (v.row i).length ∧ p = v.cursor m i j

/-- A page of the journal that is not RAW. -/
structure IsReady (fs : Files) (v : View) (n : Int16) : Prop where
  hasFile : HasFile v n
  status : PageHeader.status (fs.buffer n) ≠ journalPageStatusRaw

/-- What each point of the seek knows. -/
def Knows (fs : Files) (v : View) : SeekPc → Prop
  | .idle => True
  | .returned found => found = true
  | .thrown => False
  | .header time ns => v.pages ≠ [] ∧ ∀ n ∈ ns, HasFile v n ∧ Passable (fs.buffer n) time
  | .request _ n | .mapPage _ n | .headerStatus _ n => v.pages ≠ [] ∧ IsReady fs v n
  | .headerVersion _ n => HasFile v n
  | .scan _ p => Stands v p

variable {h : Host} {s t : State} {v w : View} {fs : Files} {ρ : Option Record} {e : Effect} {b : Mem}
  {n : Int16} {i j : ℕ} {k k' : SeekPc} {time : Int64} {p : Page}

theorem HasFile.first (hne : v.pages ≠ []) : HasFile v 1 := by
  refine ⟨0, ?_, rfl⟩
  have hpos := List.length_pos_iff.mpr hne
  unfold View.numFiles
  omega

theorem HasFile.isSome (hr : Rep fs v) (hn : HasFile v n) : (fs.lookup n).isSome := (hr.files n).mpr hn

theorem View.row_of_ge (hi : v.pages.length ≤ i) : v.row i = [] := by
  have hnone : (recordRows v.pages)[i]? = none := List.getElem?_eq_none (by rwa [length_recordRows])
  unfold View.row
  rw [List.getD, hnone]
  rfl

/-! ### The files and the view only grow -/

/-- The view `w` comes later than `v`. -/
structure Later (v w : View) : Prop where
  numFiles_le : v.numFiles ≤ w.numFiles
  length_le : v.pages.length ≤ w.pages.length
  row : ∀ i, v.row i <+: w.row i

theorem Later.refl (v : View) : Later v v := ⟨Nat.le_refl _, Nat.le_refl _, fun _ => List.prefix_refl _⟩

theorem Later.trans {u : View} (h1 : Later u v) (h2 : Later v w) : Later u w :=
  ⟨Nat.le_trans h1.numFiles_le h2.numFiles_le, Nat.le_trans h1.length_le h2.length_le,
    fun i => (h1.row i).trans (h2.row i)⟩

theorem Later.of_next (hr : Rep fs v) (hr' : Rep (e.exec fs) w) (hn : Next ρ fs v e w) : Later v w := by
  have hlen := hn.grows.length_le
  rw [length_recordRows, length_recordRows] at hlen
  refine ⟨?_, hlen, fun i => ?_⟩
  · by_contra hlt
    have hle := hr.numFiles_le
    have hfile := (hr.lookup_isSome (i := w.numFiles) (by omega)).mpr (by omega)
    exact Nat.lt_irrefl _ ((hr'.lookup_isSome (by omega)).mp (e.lookup_isSome hfile))
  · rcases Nat.lt_or_ge i v.pages.length with hi | hi
    · exact hn.grows.row_prefix (by rwa [length_recordRows])
    · rw [View.row_of_ge hi]
      exact List.nil_prefix

theorem Later.of_moved {fs' : Files} (hr : Rep fs v) (hr' : Rep fs' w)
    (hm : Recovery.Moved ρ fs v fs' w) : Later v w := by
  cases hm with
  | same => exact .refl v
  | store hn => exact .of_next hr hr' hn

theorem Later.ne_nil (hl : Later v w) (hne : v.pages ≠ []) : w.pages ≠ [] := by
  have := List.length_pos_iff.mpr hne
  exact List.length_pos_iff.mp (by have := hl.length_le; omega)

theorem Later.hasFile (hl : Later v w) (hn : HasFile v n) : HasFile w n := by
  obtain ⟨i, hi, rfl⟩ := hn
  exact ⟨i, Nat.lt_of_lt_of_le hi hl.numFiles_le, rfl⟩

theorem Later.stands (hl : Later v w) (hp : Stands v p) : Stands w p := by
  obtain ⟨m, i, j, hi, hj, rfl⟩ := hp
  obtain ⟨rs, hrs⟩ := hl.row i
  refine ⟨m, i, j, Nat.lt_of_lt_of_le hi hl.numFiles_le, Nat.le_trans hj (hl.row i).length_le, ?_⟩
  unfold View.cursor
  rw [← hrs, List.take_append_of_le_length hj]

theorem Passable.keep {b b' : Mem} (hk : KeepsHeader b b') (hb : Passable b time) : Passable b' time := by
  rcases hb with hst | ⟨hlast, hzero, hle⟩
  · exact .inl (hk.inited hst)
  · have hstart := hk.startNano hzero
    exact .inr ⟨hlast, hstart.trans_ne hzero, hle.trans_eq hstart.symm⟩

theorem IsReady.keep (hl : Later v w) (hk : KeepsHeaders fs e) (hn : IsReady fs v n) : IsReady (e.exec fs) w n :=
  ⟨hl.hasFile hn.hasFile, (hk n).inited hn.status⟩

/-- What a seek knows stays true when the writer goes on. -/
theorem Knows.moved {fs' : Files} (hr : Rep fs v) (hr' : Rep fs' w) (hm : Recovery.Moved ρ fs v fs' w)
    (hk : Knows fs v k) : Knows fs' w k := by
  have hl := Later.of_moved hr hr' hm
  cases hm with
  | same => exact hk
  | store hn =>
    cases k with
    | idle => trivial
    | returned => exact hk
    | thrown => exact hk
    | header => exact ⟨hl.ne_nil hk.1, fun n hmem =>
        ⟨hl.hasFile (hk.2 n hmem).1, (hk.2 n hmem).2.keep (hn.headers hk.1 n)⟩⟩
    | request | mapPage | headerStatus => exact ⟨hl.ne_nil hk.1, hk.2.keep hl (hn.headers hk.1)⟩
    | headerVersion => exact hl.hasFile hk
    | scan => exact hl.stands hk

/-! ### One step of the seek -/

/-- The status where a cursor stands: WRITTEN before the end of the row, and not WRITTEN there. -/
theorem frame_at_cursor (hr : Rep fs v) (hi : i < v.numFiles) (hj : j ≤ (v.row i).length) (m : ℕ) :
    (∃ hlt : j < (v.row i).length, FrameAt (fs.buffer (pageNo i)) (v.addr i j) (v.row i)[j]) ∨
      j = (v.row i).length ∧
        Page.getCurStatus (fs.buffer (pageNo i)) (v.cursor m i j) ≠ journalFrameStatusWritten := by
  rw [getCurStatus_cursor]
  rcases View.lt_or_next hi with hlt | ⟨ho, rfl⟩
  · rcases Nat.lt_or_ge j (v.row i).length with hjlt | hge
    · exact .inl ⟨hjlt, hr.frameAt hlt hjlt⟩
    · refine .inr ⟨Nat.le_antisymm hj hge, ?_⟩
      rw [hr.status_end hlt (Nat.le_antisymm hj hge)]
      exact v.endStatus_ne_written i
  · -- the page that is opened next has no frames
    have hnil := View.row_of_ge (v := v) (Nat.le_refl v.pages.length)
    have hj0 : j = 0 := by
      rw [hnil] at hj
      exact Nat.le_zero.mp hj
    obtain ⟨b, hb⟩ := Option.isSome_iff_exists.mp (HasFile.isSome hr ⟨_, hi, rfl⟩)
    refine .inr ⟨by rw [hj0, hnil]; rfl, ?_⟩
    have haddr : v.addr v.pages.length j = pageInitPosition := by
      unfold View.addr
      rw [hnil, List.take_nil]
      rfl
    rw [haddr, Files.buffer_of_lookup hb, (hr.next ho b hb).status]
    decide

/-- No page file has a foreign version. -/
theorem HasFile.version (hr : Rep fs v) (hn : HasFile v n) (hb : fs.lookup n = some b) :
    PageHeader.frameVersion b = 0 ∨ PageHeader.frameVersion b = frameHeaderVersion := by
  obtain ⟨i, hi, rfl⟩ := hn
  rcases View.lt_or_next hi with hlt | ⟨ho, rfl⟩
  · obtain ⟨b', hb', hp⟩ := hr.page i hlt
    obtain rfl := Option.some.inj (hb'.symm.trans hb)
    exact hp.version
  · exact (hr.next ho b hb).version

theorem HasFile.version_ok (hr : Rep fs v) (hn : HasFile v n) :
    ¬ (0 < PageHeader.frameVersion (fs.buffer n) ∧
      PageHeader.frameVersion (fs.buffer n) ≠ frameHeaderVersion) := by
  obtain ⟨b, hb⟩ := Option.isSome_iff_exists.mp (hn.isSome hr)
  rw [Files.buffer_of_lookup hb]
  exact Yijinjing.version_ok (hn.version hr hb)

theorem HasFile.new (hn : HasFile v n) : Stands v (Page.new 0 n) := by
  obtain ⟨i, hi, rfl⟩ := hn
  exact ⟨0, i, 0, hi, Nat.zero_le _, Page.new_eq 0 (pageNo i)⟩

theorem hasFile_of_mem (hr : Rep fs v) (hn : n ∈ getPageNums fs) : HasFile v n := by
  rw [hr.getPageNums, List.mem_map] at hn
  obtain ⟨i, hi, rfl⟩ := hn
  exact ⟨i, List.mem_range.mp hi, rfl⟩

/-- The last page of the directory. -/
theorem getPageNums_snoc (hr : Rep fs v) (hi : v.numFiles = i + 1) :
    getPageNums fs = (List.range i).map pageNo ++ [pageNo i] := by
  rw [hr.getPageNums, hi, List.range_succ, List.map_append]
  rfl

theorem lastPageNum_snoc (hr : Rep fs v) (hi : v.numFiles = i + 1) : Journal.lastPageNum fs = pageNo i := by
  unfold Journal.lastPageNum
  rw [getPageNums_snoc hr hi, List.getLast?_concat]
  rfl

theorem lastPageNum_mem (hr : Rep fs v) (hne : v.pages ≠ []) : Journal.lastPageNum fs ∈ getPageNums fs := by
  have hpos : 0 < v.numFiles := Nat.lt_of_lt_of_le (List.length_pos_iff.mpr hne) (Nat.le_add_right ..)
  obtain ⟨i, hi⟩ := Nat.exists_eq_add_one.mpr hpos
  rw [lastPageNum_snoc hr hi, getPageNums_snoc hr hi]
  exact List.mem_append_right _ (List.mem_singleton.mpr rfl)

/-- A page that has been initialized is a page of the journal. -/
theorem Initialised.ne_nil (hr : Rep fs v) (hi : Initialised fs) : v.pages ≠ [] := by
  intro hnil
  obtain ⟨n, hn, hst⟩ := hi
  obtain ⟨i, hlt, rfl⟩ := hasFile_of_mem hr hn
  have hnum : v.numFiles = v.opening.toNat := by
    unfold View.numFiles
    rw [hnil]
    exact Nat.zero_add _
  have hle := Bool.toNat_le v.opening
  obtain rfl : i = 0 := by omega
  obtain ⟨b, hb⟩ := Option.isSome_iff_exists.mp (HasFile.isSome hr ⟨0, hlt, rfl⟩)
  rw [Files.buffer_of_lookup hb, (hr.blank hnil b hb).raw] at hst
  exact absurd hst (by decide)

/-- The pages of the journal are not RAW. -/
theorem IsReady.of_lt (hr : Rep fs v) (hi : i < v.pages.length) : IsReady fs v (pageNo i) := by
  obtain ⟨b, hb, hp⟩ := hr.page i hi
  refine ⟨⟨i, Nat.lt_of_lt_of_le hi (Nat.le_add_right ..), rfl⟩, ?_⟩
  rw [Files.buffer_of_lookup hb, hp.inited]
  decide

theorem IsReady.first (hr : Rep fs v) (hne : v.pages ≠ []) : IsReady fs v 1 :=
  .of_lt hr (List.length_pos_iff.mpr hne)

/-- The listing leads to a page that is ready. -/
theorem Knows.listDir (hr : Rep fs v) (hne : v.pages ≠ [])
    (hready : time = timeFromFirst ∨ ∀ n ∈ getPageNums fs, Passable (fs.buffer n) time) :
    Knows fs v (.listDir fs time) := by
  unfold SeekPc.listDir
  split
  · rename_i hlast
    have hmem := lastPageNum_mem hr hne
    refine ⟨hne, hasFile_of_mem hr hmem, ?_⟩
    have hall := hready.resolve_left (by rw [hlast]; decide)
    exact (hall _ hmem).resolve_right fun h => h.1 hlast
  · split
    · rw [show Journal.firstPageNum fs = 1 from hr.firstPageNum_eq]
      exact ⟨hne, .first hr hne⟩
    · rename_i hfirst
      exact ⟨hne, fun n hn => ⟨hasFile_of_mem hr (List.mem_reverse.mp hn),
        hready.resolve_left hfirst n (List.mem_reverse.mp hn)⟩⟩

/-- **One step of the seek** keeps what it knows. -/
theorem Knows.advance (hr : Rep fs v) (hk : Knows fs v k) (hadv : k.advance fs = some k') : Knows fs v k' := by
  cases k with
  | idle | returned | thrown => cases hadv
  | header time ns =>
    cases ns with
    | nil =>
      obtain rfl := Option.some.inj hadv
      exact ⟨hk.1, .first hr hk.1⟩
    | cons n ns =>
      obtain ⟨hfile, hpass⟩ := hk.2 n List.mem_cons_self
      simp only [SeekPc.advance] at hadv
      split at hadv
      · rename_i hlt
        obtain rfl := Option.some.inj hadv
        -- the time is not before the page
        exact ⟨hk.1, hfile, hpass.resolve_right fun h => Int64.not_lt.mpr h.2.2 hlt⟩
      · obtain rfl := Option.some.inj hadv
        exact ⟨hk.1, fun m hm => hk.2 m (List.mem_cons_of_mem n hm)⟩
  | request time n =>
    simp only [SeekPc.advance, if_pos (HasFile.isSome hr hk.2.hasFile)] at hadv
    obtain rfl := Option.some.inj hadv
    exact hk
  | mapPage time n =>
    simp only [SeekPc.advance, if_pos (HasFile.isSome hr hk.2.hasFile)] at hadv
    obtain rfl := Option.some.inj hadv
    exact hk
  | headerStatus time n =>
    simp only [SeekPc.advance] at hadv
    split at hadv
    · rename_i hraw
      exact absurd (beq_iff_eq.mp hraw) hk.2.status
    · obtain rfl := Option.some.inj hadv
      exact hk.2.hasFile
  | headerVersion time n =>
    simp only [SeekPc.advance, if_neg (HasFile.version_ok hr hk)] at hadv
    split at hadv
    · obtain rfl := Option.some.inj hadv
      exact rfl
    · obtain rfl := Option.some.inj hadv
      exact HasFile.new hk
  | scan time p =>
    obtain ⟨m, i, j, hi, hj, rfl⟩ := hk
    have hno : (v.cursor m i j).pageNum = pageNo i := rfl
    simp only [SeekPc.advance, hno] at hadv
    split at hadv
    · rename_i hpass
      obtain rfl := Option.some.inj hadv
      rcases frame_at_cursor hr hi hj m with ⟨hlt, hf⟩ | ⟨-, hst⟩
      · rw [hf.passFrame_cursor hlt]
        exact ⟨m, i, j + 1, hi, hlt, rfl⟩
      · -- the loop ends where the status is not WRITTEN
        simp only [SeekPc.passes, Bool.and_eq_true, beq_iff_eq] at hpass
        exact absurd hpass.1 hst
    · obtain rfl := Option.some.inj hadv
      exact rfl

/-! ### A seek comes to its end -/

open SeekPc (Reaches)

theorem Reaches.step {m k'' : SeekPc} (hadv : k.advance fs = some m) (h : Reaches fs m k'') :
    Reaches fs k k'' := Relation.ReflTransGen.head hadv h

/-- The loop over the frames passes one frame a turn. -/
theorem reaches_scan (hr : Rep fs v) (time : Int64) (hp : Stands v p) :
    Reaches fs (.scan time p) (.returned true) := by
  obtain ⟨m, i, j, hi, hj, rfl⟩ := hp
  have hno : ∀ j, (v.cursor m i j).pageNum = pageNo i := fun _ => rfl
  induction hd : (v.row i).length - j generalizing j with
  | zero =>
    refine Reaches.step ?_ .refl
    rcases frame_at_cursor hr hi hj m with ⟨hlt, -⟩ | ⟨-, hst⟩
    · omega
    · simp only [SeekPc.advance, hno, SeekPc.passes]
      rw [if_neg]
      rw [Bool.and_eq_true, beq_iff_eq]
      exact fun hpass => hst hpass.1
  | succ d ih =>
    have hlt : j < (v.row i).length := by omega
    rcases frame_at_cursor hr hi hj m with ⟨hlt', hf⟩ | ⟨heq, -⟩
    · by_cases hpass : SeekPc.passes (fs.buffer (pageNo i)) time (v.cursor m i j) = true
      · refine Reaches.step (m := .scan time (v.cursor m i (j + 1))) ?_ (ih (j + 1) hlt (by omega))
        simp only [SeekPc.advance, hno]
        rw [if_pos hpass, hf.passFrame_cursor hlt']
      · refine Reaches.step ?_ .refl
        simp only [SeekPc.advance, hno]
        rw [if_neg hpass]
    · omega

theorem reaches_headerVersion (hr : Rep fs v) (time : Int64) (hn : HasFile v n) :
    Reaches fs (.headerVersion time n) (.returned true) := by
  by_cases hfirst : time = timeFromFirst
  · refine Reaches.step ?_ .refl
    simp only [SeekPc.advance, if_neg (HasFile.version_ok hr hn), if_pos hfirst]
  · refine Reaches.step (m := .scan time (Page.new 0 n)) ?_ (reaches_scan hr time hn.new)
    simp only [SeekPc.advance, if_neg (HasFile.version_ok hr hn), if_neg hfirst]

/-- The page file is not RAW. -/
def ready (fs : Files) (n : Int16) : Bool := PageHeader.status (fs.buffer n) != journalPageStatusRaw

theorem reaches_headerStatus (hr : Rep fs v) (time : Int64) (hn : HasFile v n) :
    Reaches fs (.headerStatus time n) (.returned (ready fs n)) := by
  unfold ready bne
  by_cases hraw : (PageHeader.status (fs.buffer n) == journalPageStatusRaw) = true
  · refine Reaches.step ?_ .refl
    simp only [SeekPc.advance, hraw, if_true, Bool.not_true]
  · refine Reaches.step (m := .headerVersion time n) ?_ ?_
    · simp only [SeekPc.advance, if_neg hraw]
    · rw [Bool.not_eq_true] at hraw
      rw [hraw]
      exact reaches_headerVersion hr time hn

theorem reaches_mapPage (hr : Rep fs v) (time : Int64) (hn : HasFile v n) :
    Reaches fs (.mapPage time n) (.returned (ready fs n)) := by
  refine Reaches.step (m := .headerStatus time n) ?_ (reaches_headerStatus hr time hn)
  simp only [SeekPc.advance, if_pos (HasFile.isSome hr hn)]

theorem reaches_request (hr : Rep fs v) (time : Int64) (hn : HasFile v n) :
    Reaches fs (.request time n) (.returned (ready fs n)) := by
  refine Reaches.step (m := .mapPage time n) ?_ (reaches_mapPage hr time hn)
  simp only [SeekPc.advance, if_pos (HasFile.isSome hr hn)]

/-- The backward loop asks for the page that `GetPageNumWithTime` returns. -/
theorem reaches_header (fs : Files) (time : Int64) (ns : List Int16) :
    Reaches fs (.header time ns) (.request time (pageNumWithTime fs time ns)) := by
  induction ns with
  | nil => exact Reaches.step rfl .refl
  | cons n ns ih =>
    by_cases hlt : PageHeader.startNano (fs.buffer n) < time
    · refine Reaches.step (m := .request time n) ?_ ?_
      · simp only [SeekPc.advance, if_pos hlt]
      · rw [pageNumWithTime, if_pos hlt]
        exact .refl
    · refine Reaches.step (m := .header time ns) ?_ ?_
      · simp only [SeekPc.advance, if_neg hlt]
      · rw [pageNumWithTime, if_neg hlt]
        exact ih

theorem reaches_listDir (fs : Files) (time : Int64) :
    Reaches fs (.listDir fs time) (.request time (Journal.soughtPageNum fs time)) := by
  unfold SeekPc.listDir Journal.soughtPageNum
  split
  · exact .refl
  · split
    · exact .refl
    · exact reaches_header fs time _

theorem IsReady.ready (hn : IsReady fs v n) : ready fs n = true := bne_iff_ne.mpr hn.status

/-- A seek that is under way comes to its end. -/
theorem Knows.returns (hr : Rep fs v) (hk : Knows fs v k) (hrest : k.atRest = false) :
    Reaches fs k (.returned true) := by
  cases k with
  | idle | returned => cases hrest
  | thrown => exact hk.elim
  | header time ns =>
    have hend : Knows fs v (.request time (pageNumWithTime fs time ns)) :=
      Relation.ReflTransGen.head_induction_on
        (motive := fun k _ => Knows fs v k → Knows fs v (.request time (pageNumWithTime fs time ns)))
        (reaches_header fs time ns) id (fun hadv _ ih hk => ih (hk.advance hr hadv)) hk
    rw [← hend.2.ready]
    exact (reaches_header fs time ns).trans (reaches_request hr time hend.2.hasFile)
  | request time n =>
    rw [← hk.2.ready]
    exact reaches_request hr time hk.2.hasFile
  | mapPage time n =>
    rw [← hk.2.ready]
    exact reaches_mapPage hr time hk.2.hasFile
  | headerStatus time n =>
    rw [← hk.2.ready]
    exact reaches_headerStatus hr time hk.2.hasFile
  | headerVersion time n => exact reaches_headerVersion hr time hk
  | scan time p => exact reaches_scan hr time hk

/-! ### The steps are those of `seekTime` -/

/-- The loops over the frames of a page file end. -/
theorem scans_end (hr : Rep fs v) (hn : HasFile v n) (m : ℕ) (time : Int64) :
    (∃ q, (Page.new m n).passWrittenFrame (fs.buffer n) = some q) ∧
      ∃ q, (Page.new m n).passToTime (fs.buffer n) time = some q := by
  obtain ⟨i, hi, rfl⟩ := hn
  rcases View.lt_or_next hi with hlt | ⟨ho, rfl⟩
  · obtain ⟨b, hb, hp⟩ := hr.page i hlt
    have hroomy := hr.ok.roomy _ (List.getElem_mem hlt)
    have hst := v.endStatus_ne_written i
    rw [Files.buffer_of_lookup hb]
    exact ⟨⟨_, passWrittenFrame_end hp hroomy hst (q := []) rfl⟩, ⟨_, Page.passToTime_page hp hroomy hst time⟩⟩
  · obtain ⟨b, hb⟩ := Option.isSome_iff_exists.mp (HasFile.isSome hr ⟨_, hi, rfl⟩)
    have hraw : Page.getCurStatus b (Page.new m (pageNo v.pages.length)) = journalFrameStatusRaw :=
      (hr.next ho b hb).status
    rw [Files.buffer_of_lookup hb]
    refine ⟨⟨_, whileLoop_of_false ?_ _⟩, ⟨_, whileLoop_of_false ?_ _⟩⟩
    · rw [hraw]
      rfl
    · rw [hraw]
      rfl

/-- `getPage` of a reader on a page file that is there. -/
theorem getPage_hasFile {s : Env} (hg : h.Grants) (hr : Rep s.files v) (hn : HasFile v n) :
    ∃ t, Runs (getPage h false n) s (if ready s.files n then some (Page.new s.mapped n) else none) t ∧
      t.files = s.files := by
  obtain ⟨b, hb⟩ := Option.isSome_iff_exists.mp (hn.isSome hr)
  have hserve := serve_runs_isSome (s := s) hg false (by rw [hb]; rfl)
  unfold ready bne
  rw [Files.buffer_of_lookup hb]
  cases hraw : PageHeader.status b == journalPageStatusRaw with
  | true => exact ⟨_, getPage_runs hserve (load_runs_reader_raw hb (beq_iff_eq.mp hraw)), rfl⟩
  | false => exact ⟨_, getPage_runs hserve (load_runs_reader hb hraw (hn.version hr hb)), rfl⟩

theorem pageNumWithTime_hasFile (hne : v.pages ≠ []) {ns : List Int16} (hns : ∀ n ∈ ns, HasFile v n)
    (fs : Files) (time : Int64) : HasFile v (pageNumWithTime fs time ns) := by
  induction ns with
  | nil => exact .first hne
  | cons n ns ih =>
    rw [pageNumWithTime]
    split
    · exact hns n List.mem_cons_self
    · exact ih fun m hm => hns m (List.mem_cons_of_mem n hm)

theorem soughtPageNum_hasFile (hr : Rep fs v) (hne : v.pages ≠ []) (time : Int64) :
    HasFile v (Journal.soughtPageNum fs time) := by
  unfold Journal.soughtPageNum
  split
  · exact hasFile_of_mem hr (lastPageNum_mem hr hne)
  · split
    · rw [show Journal.firstPageNum fs = 1 from hr.firstPageNum_eq]
      exact .first hne
    · exact pageNumWithTime_hasFile hne (fun n hn => hasFile_of_mem hr (List.mem_reverse.mp hn)) fs time

/-- **On page files that stay as they are, `Journal::seekTime` and its steps end alike.** -/
theorem seekTime_reaches {s : Env} (hg : h.Grants) (hr : Rep s.files v) (hne : v.pages ≠ [])
    (hw : s.journal.isWriting = false) (time : Int64) :
    ∃ found t, Runs (Journal.seekTime h time) s found t ∧ t.journal.expired = !found ∧
      Reaches s.files (.listDir s.files time) (.returned found) := by
  have hn := soughtPageNum_hasFile hr hne time
  have hreach := (reaches_listDir s.files time).trans (reaches_request hr time hn)
  obtain ⟨hfiles, -, -, -⟩ := s.releaseCur_eq
  obtain ⟨t, hget, hfiles'⟩ := getPage_hasFile (s := s.releaseCur) hg (hfiles ▸ hr) hn
  have hr' : Rep t.files v := hfiles' ▸ hfiles ▸ hr
  obtain ⟨h1, h2⟩ := scans_end hr' hn s.releaseCur.mapped time
  rw [hfiles] at hget
  rw [← hw] at hget
  cases hready : ready s.files (Journal.soughtPageNum s.files time) with
  | true =>
    rw [hready] at hreach hget
    obtain ⟨q, hseek, -⟩ := seekTime_runs_some hget h1 h2
    exact ⟨true, _, hseek, rfl, hreach⟩
  | false =>
    rw [hready] at hreach hget
    exact ⟨false, _, seekTime_runs_none hget, rfl, hreach⟩

/-! ### Runs -/

/-- What holds of every reachable state. -/
def Inv (s : State) : Prop := ∃ v, Recovery.Inv s.journal v ∧ Knows s.files v s.seeker

theorem Inv.init : Inv (race h).init := ⟨_, Recovery.Inv.empty, trivial⟩

/-- The journal goes on, whatever the seek does: the writer lives, so its steps are orderly. -/
theorem step_journal (hg : h.Grants) (a : Action) (hj : Recovery.Inv s.journal v)
    (ht : SeekRace.step h s a = some t) :
    ∃ w, Recovery.Inv t.journal w ∧ Recovery.Moved s.journal.party.current s.files v t.files w := by
  cases a with
  | journal a =>
    have hstep : ∃ j, Recovery.step h s.journal a = some j ∧ Recovery.Orderly s.journal a ∧ t.journal = j := by
      cases a with
      | die => cases ht
      | _ =>
        obtain ⟨j, hj', rfl⟩ := Option.map_eq_some_iff.mp ht
        exact ⟨j, hj', trivial, rfl⟩
    obtain ⟨j, hj', hord, rfl⟩ := hstep
    obtain ⟨w, hm, hw⟩ := hj.step hg a hord hj'
    exact ⟨w, hw, hm⟩
  | seek time =>
    simp only [SeekRace.step] at ht
    split at ht
    · obtain rfl := Option.some.inj ht
      exact ⟨v, hj, .same⟩
    · cases ht
  | read =>
    obtain ⟨k, -, rfl⟩ := Option.map_eq_some_iff.mp ht
    exact ⟨v, hj, .same⟩

theorem seeker_journal {a : Recovery.Action} (ht : SeekRace.step h s (.journal a) = some t) :
    t.seeker = s.seeker := by
  cases a with
  | die => cases ht
  | _ =>
    obtain ⟨j, -, rfl⟩ := Option.map_eq_some_iff.mp ht
    rfl

/-- **One step** from a state that is ready for it. -/
theorem Inv.step (hg : h.Grants) (a : Action) (hs : Inv s) (hready : Ready s a)
    (ht : SeekRace.step h s a = some t) : Inv t := by
  obtain ⟨v, hj, hk⟩ := hs
  obtain ⟨w, hw, hm⟩ := step_journal hg a hj ht
  have hkept := hk.moved hj.party.rep hw.party.rep hm
  refine ⟨w, hw, ?_⟩
  cases a with
  | journal a =>
    rw [seeker_journal ht]
    exact hkept
  | seek time =>
    simp only [SeekRace.step] at ht
    split at ht
    · rename_i hguard
      obtain rfl := Option.some.inj ht
      exact .listDir hw.party.rep (Initialised.ne_nil hw.party.rep hguard.2) hready
    · cases ht
  | read =>
    obtain ⟨k, hadv, rfl⟩ := Option.map_eq_some_iff.mp ht
    exact hkept.advance hw.party.rep hadv

theorem reached (hg : h.Grants) {as : List Action} (hrun : (race h).run (race h).init as = some s) :
    ∃ v, Recovery.Inv s.journal v :=
  System.run_invariant (I := fun s : State => ∃ v, Recovery.Inv s.journal v)
    (fun _ a _ ⟨_, hj⟩ ht => (step_journal hg a hj ht).imp fun _ hw => hw.1) ⟨_, Recovery.Inv.empty⟩ hrun

theorem Inv.succeeds (hs : Inv s) : Succeeds s := by
  obtain ⟨v, hj, hk⟩ := hs
  refine ⟨fun hret => ?_, fun hthrown => ?_, fun hrest => hk.returns hj.party.rep hrest⟩
  · rw [hret] at hk
    exact Bool.noConfusion hk
  · rw [hthrown] at hk
    exact hk

/-- The reader goes on while nothing changes. -/
theorem run_reads (j : Recovery.State) (hreach : Reaches j.party.files k k') :
    ∃ m, (race h).run ⟨j, k⟩ (List.replicate m .read) = some ⟨j, k'⟩ := by
  induction hreach using Relation.ReflTransGen.head_induction_on with
  | refl => exact ⟨0, rfl⟩
  | head hadv _ ih =>
    obtain ⟨m, hm⟩ := ih
    have hstep : (race h).step ⟨j, _⟩ .read = some ⟨j, _⟩ := Option.map_eq_some_iff.mpr ⟨_, hadv, rfl⟩
    exact ⟨m + 1, (System.run_cons_of_step _ hstep _).trans hm⟩

/-- A seek that is not ready can be refused: nothing changes while it looks for its page. -/
theorem refusable (hr : Rep s.files v) (hrest : s.seeker.atRest) (hinit : Initialised s.files)
    (htime : time = timeToLast ∨ 0 < time) (hnot : ¬ Ready s (.seek time)) :
    ∃ bs t, (race h).run s (.seek time :: bs) = some t ∧ t.seeker = .returned false := by
  have hne := Initialised.ne_nil hr hinit
  obtain ⟨-, hall⟩ := not_or.mp hnot
  simp only [not_forall] at hall
  obtain ⟨n, hn, hnot⟩ := hall
  obtain ⟨hraw, hbefore⟩ := not_or.mp hnot
  obtain ⟨i, hi, rfl⟩ := hasFile_of_mem hr hn
  -- the page is the one that is being made
  have hnum : v.numFiles = i + 1 := by
    rcases View.lt_or_next hi with hlt | ⟨ho, rfl⟩
    · exact absurd (IsReady.of_lt hr hlt).status hraw
    · rw [View.numFiles, ho]
      rfl
  have hsought : Journal.soughtPageNum s.files time = pageNo i := by
    unfold Journal.soughtPageNum
    split
    · exact lastPageNum_snoc hr hnum
    · rename_i hlast
      have hpos := htime.resolve_left hlast
      have hlt : PageHeader.startNano (s.files.buffer (pageNo i)) < time := by
        by_contra hge
        have hle := Int64.not_lt.mp hge
        refine hbefore ⟨hlast, fun hzero => hge ?_, hle⟩
        rw [hzero]
        exact hpos
      rw [if_neg (by rintro rfl; exact absurd hpos (by decide)), getPageNumWithTime, getPageNums_snoc hr hnum,
        List.reverse_append]
      exact if_pos hlt
  have hreach := (reaches_listDir s.files time).trans (reaches_request hr time (hsought ▸ ⟨i, hi, rfl⟩))
  have hready : ready s.files (pageNo i) = false := bne_eq_false_iff_eq.mpr (not_not.mp hraw)
  rw [hsought, hready] at hreach
  obtain ⟨m, hm⟩ := run_reads (h := h) s.journal hreach
  have hseek : (race h).step s (.seek time) = some { s with seeker := .listDir s.files time } :=
    if_pos ⟨hrest, hinit⟩
  exact ⟨_, _, (System.run_cons_of_step _ hseek _).trans hm, rfl⟩

/-! ### A writer that `write_frame` is enough for -/

theorem run_journal {as : List Recovery.Action} {j : Recovery.State} (has : ∀ a ∈ as, a ≠ .die)
    (hrun : (Recovery.recovery h).run s.journal as = some j) :
    (race h).run s (as.map .journal) = some { s with journal := j } := by
  induction as generalizing s with
  | nil =>
    obtain rfl := Option.some.inj hrun
    rfl
  | cons a as ih =>
    obtain ⟨j₁, hstep, hrest⟩ := System.run_cons_some hrun
    have hstep' : (race h).step s (.journal a) = some { s with journal := j₁ } := by
      cases a with
      | die => exact absurd rfl (has _ List.mem_cons_self)
      | _ => exact Option.map_eq_some_iff.mpr ⟨j₁, hstep, rfl⟩
    exact (System.run_cons_of_step _ hstep' _).trans
      (ih (s := { s with journal := j₁ }) (fun b hb => has b (List.mem_cons_of_mem a hb)) hrest)

theorem run_leads {p : Party} (hg : h.Grants) (hp : Crash.Inv s.journal.party) (hdraft : s.journal.draft = none)
    (hlead : Crash.Leads h s.journal.party p) :
    ∃ as : List Recovery.Action, (race h).run s (as.map .journal) = some { s with journal := { s.journal with party := p } } := by
  obtain ⟨as, has, hrun⟩ := hlead
  have hrun' := (Recovery.run_lift hg hp hdraft (Crash.eachStep_live has _) hrun).1
  refine ⟨as.map Recovery.lift, run_journal (fun b hb => ?_) hrun'⟩
  obtain ⟨a, ha, rfl⟩ := List.mem_map.mp hb
  cases a with
  | die => exact absurd rfl (has _ ha)
  | _ => simp [Recovery.lift]

/-- A run in which a reader seeks the last page and the writer writes a frame before the page is loaded. -/
theorem exists_sought (hg : h.Grants) : ∃ as t, (race h).run (race h).init as = some t ∧
    (race h).EachStep Ready (race h).init as ∧ t.seeker = .returned true ∧ getPageNums t.files = [1, 2] ∧
    t.journal.party.published.length = 65 := by
  obtain ⟨p, l, hlead, hp, hroom, hpages, hrecords⟩ := Crash.run_second hg
  have hmax : l.pages.length < maxPages := by
    rw [hpages]
    decide
  have hfit : Party.Admissible Ledger.greatest := Nat.le_of_eq Ledger.size_greatest
  have hlen := Ledger.length_pages_write h l hroom Ledger.greatest 7 1
  obtain ⟨q, hlead', hq⟩ := hp.run_write hg hmax hfit 7 1 (hlen.trans_lt hmax)
  have hr : Rep p.files ⟨l.pages, false⟩ := hp.writer.rep
  have hr' : Rep q.files ⟨(l.write h Ledger.greatest 7 1).pages, false⟩ := hq.writer.rep
  have hno : Journal.lastPageNum p.files = pageNo 1 := lastPageNum_snoc hr (by rw [View.numFiles, hpages]; rfl)
  have hinited : ∀ n ∈ getPageNums p.files, Passable (p.files.buffer n) timeToLast := by
    intro n hn
    obtain ⟨i, hi, rfl⟩ := hasFile_of_mem hr hn
    exact .inl (IsReady.of_lt hr hi).status
  have hpage : IsReady q.files ⟨(l.write h Ledger.greatest 7 1).pages, false⟩ (pageNo 1) :=
    .of_lt hr' (by rw [hlen, hpages]; decide)
  -- the writer comes to the second page, and the reader calls
  obtain ⟨as, has⟩ := run_leads (s := (race h).init) hg Crash.Inv.empty rfl hlead
  let j : Recovery.State := { Recovery.State.empty with party := p }
  obtain ⟨v, hj⟩ := reached hg has
  have hseek : (race h).step ⟨j, .idle⟩ (.seek timeToLast) = some ⟨j, .request timeToLast (pageNo 1)⟩ := by
    rw [← hno]
    refine if_pos ⟨rfl, pageNo 1, ?_, ?_⟩
    · rw [← hno]
      exact lastPageNum_mem hr (List.ne_nil_of_length_pos (by rw [hpages]; decide))
    · obtain ⟨b, hb, hb'⟩ := hr.page 1 (by rw [hpages]; decide)
      rw [show State.files ⟨j, .idle⟩ = p.files from rfl, Files.buffer_of_lookup hb]
      exact hb'.inited
  -- the writer writes a frame, and the reader goes on
  obtain ⟨bs, hbs⟩ := run_leads (s := ⟨j, .request timeToLast (pageNo 1)⟩) hg ⟨v, hj.party, hj.dead⟩ rfl hlead'
  have hreach : Reaches q.files (.request timeToLast (pageNo 1)) (.returned true) := by
    rw [← hpage.ready]
    exact reaches_request hr' timeToLast hpage.hasFile
  obtain ⟨m, hm⟩ := run_reads (h := h) { j with party := q } hreach
  have hjournal : ∀ (cs : List Recovery.Action) (s : State), (race h).EachStep Ready s (cs.map .journal) :=
    fun cs => System.eachStep_of_forall _ fun a ha s => by
      obtain ⟨c, -, rfl⟩ := List.mem_map.mp ha
      trivial
  refine ⟨as.map .journal ++ .seek timeToLast :: (bs.map .journal ++ List.replicate m .read),
    ⟨{ j with party := q }, .returned true⟩, ?_, ?_, rfl, ?_, ?_⟩
  · rw [(race h).run_append_of_run has]
    exact (System.run_cons_of_step _ hseek _).trans (((race h).run_append_of_run hbs _).trans hm)
  · refine System.eachStep_append.mpr ⟨hjournal as _, fun s hs => ⟨?_, fun t _ => ?_⟩⟩
    · obtain rfl := Option.some.inj (has.symm.trans hs)
      exact .inr hinited
    · refine System.eachStep_append.mpr ⟨hjournal bs _, fun u _ => ?_⟩
      refine System.eachStep_of_forall _ (fun a ha s => ?_) u
      rw [List.eq_of_mem_replicate ha]
      trivial
  · show getPageNums q.files = _
    have hnums := hr'.getPageNums
    rw [View.numFiles, hlen, hpages] at hnums
    exact hnums
  · show q.published.length = 65
    rw [hq.published, Ledger.allRecords_write, List.length_append, hrecords]
    rfl

/-- A run in which the writer has just made the file of the second page. -/
theorem exists_opening (hg : h.Grants) : ∃ as s v, (race h).run (race h).init as = some s ∧
    Rep s.files v ∧ s.seeker = .idle ∧ Initialised s.files ∧ ¬ Ready s (.seek timeToLast) := by
  obtain ⟨p, ps, hlead, -, hr, hone, hzero⟩ := Crash.run_opening hg
  obtain ⟨as, has⟩ := run_leads (s := (race h).init) hg Crash.Inv.empty rfl hlead
  have hinit : Initialised p.files := by
    obtain ⟨b, hb, hp⟩ := hr.page 0 (by simp [hone])
    refine ⟨pageNo 0, ?_, ?_⟩
    · rw [hr.getPageNums]
      exact List.mem_map_of_mem (List.mem_range.mpr (by simp [View.numFiles]))
    · rw [Files.buffer_of_lookup hb]
      exact hp.inited
  refine ⟨as.map .journal, _, _, has, hr, rfl, hinit, fun hready => ?_⟩
  have hmem : pageNo ps.length ∈ getPageNums p.files := by
    rw [hr.getPageNums]
    exact List.mem_map_of_mem (List.mem_range.mpr (by simp [View.numFiles]))
  have hpass : Passable (p.files.buffer (pageNo ps.length)) timeToLast := hready.resolve_left (by decide) _ hmem
  rw [Files.buffer_of_lookup hzero] at hpass
  exact hpass.elim (fun hst => hst rfl) fun h => h.1 rfl

/-- **A seek succeeds** whenever the journal exists, if it is not called in the window between the making
of a page file and its initialization; in the window, one for the end or for a later time can be
refused. -/
theorem seek_succeeds (h : Host) (as : List Action) :
    ((race h.granting).EachStep Ready (race h.granting).init as →
      (race h.granting).Always Succeeds (race h.granting).init as) ∧
    ∀ s, (race h.granting).run (race h.granting).init as = some s → s.seeker.atRest → Initialised s.files →
      ∀ time, time = timeToLast ∨ 0 < time → ¬ Ready s (.seek time) →
        ∃ bs, ¬ (race h.granting).Always Succeeds s (.seek time :: bs) := by
  have hg := h.grants_granting
  refine ⟨System.always_of_eachStep (fun s a t hs ha ht => hs.step hg a ha ht) (fun s hs => hs.succeeds) as
    Inv.init, fun s hrun hrest hinit time htime hnot => ?_⟩
  obtain ⟨v, hj⟩ := reached hg hrun
  obtain ⟨bs, t, hrun', hrefused⟩ := refusable (h := h.granting) hj.party.rep hrest hinit htime hnot
  exact ⟨bs, System.not_always_of_run hrun' fun hsucc => hsucc.not_expired hrefused⟩

theorem seek_succeeds_exists :
    (∃ as t, (race (hostWith fun _ => 5).granting).run (race (hostWith fun _ => 5).granting).init as = some t ∧
      t.seeker = .returned true ∧ getPageNums t.files = [1, 2] ∧ t.journal.party.published.length = 65 ∧
      (race (hostWith fun _ => 5).granting).Always Succeeds (race (hostWith fun _ => 5).granting).init as) ∧
    ∃ as s, (race (hostWith fun _ => 5).granting).run (race (hostWith fun _ => 5).granting).init as = some s ∧
      ∃ bs, ¬ (race (hostWith fun _ => 5).granting).Always Succeeds s (.seek timeToLast :: bs) := by
  have hg := (hostWith fun _ => 5).grants_granting
  obtain ⟨as, t, hrun, hready, hfound, hnums, hlen⟩ := exists_sought hg
  obtain ⟨bs, s, v, hrun', -, hidle, hinit, hnot⟩ := exists_opening hg
  refine ⟨⟨as, t, hrun, hfound, hnums, hlen, (seek_succeeds (hostWith fun _ => 5) as).1 hready⟩, bs, s, hrun', ?_⟩
  exact (seek_succeeds (hostWith fun _ => 5) bs).2 s hrun' (by rw [hidle]; rfl) hinit timeToLast (.inl rfl) hnot

/-- **A seek is refused**: a reader seeks the last page when the writer has just made the second one. -/
theorem seek_refused : ∃ as, ¬ (race (hostWith fun _ => 5).granting).Always Succeeds
    (race (hostWith fun _ => 5).granting).init as := by
  obtain ⟨as, s, v, hrun, hr, hidle, hinit, hnot⟩ := exists_opening (hostWith fun _ => 5).grants_granting
  obtain ⟨bs, t, hrun', hrefused⟩ := refusable (h := (hostWith fun _ => 5).granting) hr (by rw [hidle]; rfl) hinit
    (.inl rfl) hnot
  exact ⟨as ++ .seek timeToLast :: bs, System.not_always_of_run
    (((race (hostWith fun _ => 5).granting).run_append_of_run hrun _).trans hrun') fun hsucc => hsucc.not_expired hrefused⟩

end Yijinjing.SeekRace
