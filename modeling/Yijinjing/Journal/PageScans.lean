import Yijinjing.Journal.Buffers
import Yijinjing.Journal.Reading

/-!
# The scans of a page with any content

`passWrittenFrame` and `passToTime` go from frame to frame by the length fields of the frames, and
neither they nor `Page::load` checks a length.  On an accepted page they end, and read inside of it,
exactly if the chain of written frames does (`SoundChain`): it stays inside the page and comes to no frame
twice.  A written frame of length 0, or one whose length leads out of the page, is enough against it;
positive lengths that stay inside are enough for it, and the pages of writers have them.
-/

namespace Yijinjing

open Lib Prog

/-! ### The loops -/

/-- A call of a loop of `Page.h` over the frames of a page. -/
inductive Scan where
  | passWrittenFrame
  | passToTime (time : Int64)

namespace Scan

variable (b : Mem)

def run (p : Page) : Scan → Option Page
  | .passWrittenFrame => p.passWrittenFrame b
  | .passToTime time => p.passToTime b time

/-- The condition of the loop, at the frame at `a`. -/
def goesOn (a : ℕ) : Scan → Bool
  | .passWrittenFrame => Frame.getStatus b a == journalFrameStatusWritten
  | .passToTime time => Frame.getStatus b a == journalFrameStatusWritten && decide (Frame.getNano b a < time)

/-- How much of the header at `a` one turn reads: the status, the nano of a written frame if the loop
looks at the time, and the length if it goes on. -/
def reads (a : ℕ) : Scan → ℕ
  | .passWrittenFrame => if Frame.getStatus b a == journalFrameStatusWritten then 13 else 1
  | .passToTime time =>
    if Frame.getStatus b a == journalFrameStatusWritten then
      if Frame.getNano b a < time then 13 else 9
    else 1

/-- **The loop terminates, and reads inside the page only.** -/
structure Safe (p : Page) (scan : Scan) : Prop where
  ends : Ends (fun q => scan.goesOn b q.frame) (Page.passFrame b) p
  inside : ∀ k, Turns (fun q => scan.goesOn b q.frame) (Page.passFrame b) p k →
    ((Page.passFrame b)^[k] p).frame + scan.reads b ((Page.passFrame b)^[k] p).frame ≤ journalPageSize

variable {b} {p : Page} {scan : Scan}

theorem run_eq : scan.run b p =
    whileLoop (fun q => scan.goesOn b q.frame) (Page.passFrame b) Page.scanFuel p := by
  cases scan <;> rfl

theorem isSome_run_iff : (scan.run b p).isSome ↔
    ¬ Turns (fun q => scan.goesOn b q.frame) (Page.passFrame b) p (Page.scanFuel + 1) := by
  rw [run_eq, whileLoop_isSome_iff]

/-- The loops look at the frame of a page only. -/
theorem follows (b : Mem) (scan : Scan) : Follows (fun q => scan.goesOn b q.frame) (Page.passFrame b)
    Page.frame (fun a => scan.goesOn b a) (Frame.getNextEntry b) :=
  ⟨fun _ => rfl, Page.passFrame_frame b⟩

end Scan

/-! ### The chain of written frames -/

section Chain

variable (b : Mem)

/-- The `k`-th frame of the page. -/
def nthFrame (k : ℕ) : ℕ := (Frame.getNextEntry b)^[k] pageInitPosition

/-- The first `k` frames of the page are written. -/
def AllWritten (k : ℕ) : Prop := ∀ i < k, Frame.getStatus b (nthFrame b i) = journalFrameStatusWritten

/-- **The written frames and the frame behind them are inside the page, and no two are the same.** -/
structure SoundChain : Prop where
  status : ∀ k, AllWritten b k → nthFrame b k < journalPageSize
  length : ∀ k, AllWritten b (k + 1) → nthFrame b k + 13 ≤ journalPageSize
  once : ∀ i j, AllWritten b j → i < j → nthFrame b i ≠ nthFrame b j

/-- The lengths of the written frames are positive, and lead to a frame inside the page. -/
structure PositiveLengths : Prop where
  pos : ∀ k, AllWritten b (k + 1) → 0 < (Frame.getFrameLength b (nthFrame b k)).toInt
  next : ∀ k, AllWritten b (k + 1) →
    nthFrame b k + (Frame.getFrameLength b (nthFrame b k)).toInt < journalPageSize
  length : ∀ k, AllWritten b (k + 1) → nthFrame b k + 13 ≤ journalPageSize

end Chain

variable {b : Mem} {p : Page} {scan : Scan} {k : ℕ}

theorem nthFrame_succ (b : Mem) (k : ℕ) : nthFrame b (k + 1) = Frame.getNextEntry b (nthFrame b k) :=
  Function.iterate_succ_apply' _ _ _

theorem AllWritten.le {i : ℕ} (h : AllWritten b k) (hi : i ≤ k) : AllWritten b i := fun j hj => h j (by omega)

theorem written_iff : AllWritten b k ↔
    Turns (fun a => Scan.passWrittenFrame.goesOn b a) (Frame.getNextEntry b) pageInitPosition k := by
  simp [AllWritten, Turns, Scan.goesOn, nthFrame]

theorem iterate_frame (hp : p.frame = pageInitPosition) (k : ℕ) :
    ((Page.passFrame b)^[k] p).frame = nthFrame b k := by
  rw [(Scan.follows b .passWrittenFrame).iterate, hp]
  rfl

theorem Scan.status_of_goesOn {a : ℕ} (h : scan.goesOn b a = true) :
    Frame.getStatus b a = journalFrameStatusWritten := by
  cases scan <;> simp_all [Scan.goesOn]

/-- A loop that has made `k` turns has passed `k` written frames. -/
theorem Scan.written (hp : p.frame = pageInitPosition)
    (h : Turns (fun q => scan.goesOn b q.frame) (Page.passFrame b) p k) : AllWritten b k := by
  intro i hi
  rw [← iterate_frame hp]
  exact Scan.status_of_goesOn (h i hi)

theorem Scan.reads_le (a : ℕ) : scan.reads b a ≤ 13 := by
  cases scan with
  | passWrittenFrame =>
    simp only [Scan.reads]
    split <;> omega
  | passToTime time =>
    simp only [Scan.reads]
    split
    · split <;> omega
    · omega

theorem Scan.reads_of_not_written {a : ℕ} (h : Frame.getStatus b a ≠ journalFrameStatusWritten) :
    scan.reads b a = 1 := by
  cases scan <;> simp [Scan.reads, h]

theorem Scan.reads_of_written {a : ℕ} (h : Frame.getStatus b a = journalFrameStatusWritten) :
    Scan.passWrittenFrame.reads b a = 13 := by
  simp [Scan.reads, h]

/-! ### Sound pages -/

theorem SoundChain.safe (hs : SoundChain b) (hp : p.frame = pageInitPosition) (scan : Scan) : scan.Safe b p where
  ends := by
    have hw : ∀ k, Turns (fun a => scan.goesOn b a) (Frame.getNextEntry b) p.frame k → AllWritten b k :=
      fun k hk => Scan.written hp ((Scan.follows b scan).turns.mpr hk)
    rw [(Scan.follows b scan).ends]
    refine (ends_iff_injective (n := journalPageSize) fun k hk => ?_).mpr fun i j hj hij => ?_
    · rw [hp]
      exact hs.status k (hw k hk)
    · rw [hp]
      exact hs.once i j (hw j hj) hij
  inside k hk := by
    have hw := Scan.written hp hk
    rw [iterate_frame hp]
    by_cases hst : Frame.getStatus b (nthFrame b k) = journalFrameStatusWritten
    · have hle := hs.length k fun i hi => by
        rcases Nat.lt_succ_iff_lt_or_eq.mp hi with h | rfl
        · exact hw i h
        · exact hst
      have hread : scan.reads b (nthFrame b k) ≤ 13 := Scan.reads_le _
      omega
    · rw [Scan.reads_of_not_written hst]
      exact hs.status k hw

/-- The calls return on a sound page: the bound on the turns is not used up. -/
theorem SoundChain.isSome_run (hs : SoundChain b) (hp : p.frame = pageInitPosition) (scan : Scan) :
    (scan.run b p).isSome := by
  rw [Scan.isSome_run_iff]
  intro hall
  have hw : AllWritten b (Page.scanFuel + 1) := Scan.written hp hall
  refine not_turns_of_injective (n := Page.scanFuel) (fun k hk => ?_) (fun i j hj hij => ?_)
    (written_iff.mp (hw.le (Nat.le_succ _)))
  · exact hs.status k (written_iff.mpr hk)
  · exact hs.once i j (written_iff.mpr hj) hij

theorem sound_of_safe (hp : p.frame = pageInitPosition) (hsafe : Scan.passWrittenFrame.Safe b p) :
    SoundChain b := by
  let f := Scan.follows b .passWrittenFrame
  have hturns : ∀ {k}, AllWritten b k ↔
      Turns (fun q => Scan.passWrittenFrame.goesOn b q.frame) (Page.passFrame b) p k := by
    intro k
    rw [written_iff, f.turns, hp]
  have hinside : ∀ k, AllWritten b k →
      nthFrame b k + Scan.passWrittenFrame.reads b (nthFrame b k) ≤ journalPageSize := by
    intro k hk
    have h := hsafe.inside k (hturns.mp hk)
    rwa [iterate_frame hp] at h
  have hstatus : ∀ k, AllWritten b k → nthFrame b k < journalPageSize := by
    intro k hk
    have h := hinside k hk
    by_cases hst : Frame.getStatus b (nthFrame b k) = journalFrameStatusWritten
    · rw [Scan.reads_of_written hst] at h
      omega
    · rw [Scan.reads_of_not_written hst] at h
      omega
  refine ⟨hstatus, fun k hk => ?_, fun i j hj hij => ?_⟩
  · have h := hinside k (hk.le (Nat.le_succ k))
    rwa [Scan.reads_of_written (hk k (Nat.lt_succ_self k))] at h
  · have hends := hsafe.ends
    rw [f.ends, hp, ends_iff_injective fun k hk => hstatus k (written_iff.mpr hk)] at hends
    exact hends i j (written_iff.mp hj) hij

/-! ### Positive lengths -/

theorem getNextEntry_of_pos {a : ℕ} (hpos : 0 < (Frame.getFrameLength b a).toInt)
    (hlt : a + (Frame.getFrameLength b a).toInt < journalPageSize) :
    (Frame.getNextEntry b a : ℤ) = a + (Frame.getFrameLength b a).toInt := by
  rw [journalPageSize_eq] at hlt
  unfold Frame.getNextEntry addressAdd
  rw [Int.emod_eq_of_lt (by omega) (by omega), Int.toNat_of_nonneg (by omega)]

theorem PositiveLengths.nthFrame_succ (h : PositiveLengths b) (hk : AllWritten b (k + 1)) :
    (nthFrame b (k + 1) : ℤ) = nthFrame b k + (Frame.getFrameLength b (nthFrame b k)).toInt := by
  rw [Yijinjing.nthFrame_succ]
  exact getNextEntry_of_pos (h.pos k hk) (h.next k hk)

theorem PositiveLengths.nthFrame_lt (h : PositiveLengths b) {i j : ℕ} (hj : AllWritten b j) (hij : i < j) :
    nthFrame b i < nthFrame b j := by
  induction j with
  | zero => omega
  | succ j ih =>
    have hstep := h.nthFrame_succ hj
    have hpos := h.pos j hj
    rcases Nat.lt_succ_iff_lt_or_eq.mp hij with hlt | rfl
    · have := ih (hj.le (Nat.le_succ j)) hlt
      omega
    · omega

theorem PositiveLengths.sound (h : PositiveLengths b) : SoundChain b where
  status k hk := by
    cases k with
    | zero =>
      have h0 : pageInitPosition < journalPageSize := by decide
      exact h0
    | succ k =>
      have hstep := h.nthFrame_succ hk
      have hnext := h.next k hk
      omega
  length := h.length
  once i j hj hij := (h.nthFrame_lt hj hij).ne

/-- The `k`-th frame of a chain lies behind the records before it. -/
theorem nthFrame_chain {rs : List Record} (hc : Chain b pageInitPosition rs)
    (hlt : pageInitPosition + framesSize rs < journalPageSize) :
    nthFrame b rs.length = pageInitPosition + framesSize rs := by
  have hlt' : pageInitPosition + framesSize [] + framesSize rs < journalPageSize := by simpa using hlt
  have h : (Page.passFrame b)^[rs.length] (Page.after 0 0 []) = Page.after 0 0 rs :=
    Page.iterate_passFrame hc hlt'
  rw [← iterate_frame (p := Page.after 0 0 []) rfl, h]
  rfl

/-- The pages of the journals that writers make have positive lengths. -/
theorem PageRep.positiveLengths {l : PageLog} {st : UInt8} (hl : PageRep b l st)
    (hroomy : Roomy pageInitPosition l.records) (hst : st ≠ journalFrameStatusWritten) : PositiveLengths b := by
  -- a written frame is the frame of a record
  have hrecord : ∀ k, AllWritten b (k + 1) → ∃ r, FrameAt b (nthFrame b k) r := by
    intro k hk
    have hlt : k < l.records.length := by
      by_contra hge
      have hstatus := hk l.records.length (by omega)
      rw [nthFrame_chain hl.chain (PageLog.endPos_lt hroomy)] at hstatus
      exact hst (hl.status.symm.trans hstatus)
    obtain ⟨hbefore, -⟩ := chain_append.mp (List.take_append_drop k l.records ▸ hl.chain)
    obtain ⟨hroomy', -⟩ := roomy_append.mp (List.take_append_drop k l.records ▸ hroomy)
    have hframe := nthFrame_chain hbefore (hroomy'.end_lt (by decide))
    rw [List.length_take, Nat.min_eq_left hlt.le] at hframe
    rw [hframe]
    exact ⟨_, hl.frameAt hroomy hlt⟩
  have hlength : ∀ {a : ℕ} {r : Record}, Frame.Filled b a r → r.Fits →
      (Frame.getFrameLength b a).toInt = r.size := by
    intro a r hf hr
    rw [hf.length]
    exact Int32.toInt_ofNat_of_lt hr.lt
  refine ⟨fun k hk => ?_, fun k hk => ?_, fun k hk => ?_⟩
  · obtain ⟨r, hr⟩ := hrecord k hk
    have h20 : basicFrameHeaderLength = 20 := rfl
    have hpos := size_pos r
    rw [hlength hr.filled hr.fits]
    omega
  · obtain ⟨r, hr⟩ := hrecord k hk
    have hend := hr.hasRoom.end_lt hr.fits
    rw [hlength hr.filled hr.fits]
    omega
  · obtain ⟨r, hr⟩ := hrecord k hk
    have hroom := hr.hasRoom
    unfold HasRoom at hroom
    rw [pageMinHeadroom_eq] at hroom
    omega

/-! ### Accepted pages -/

variable {h : Host} {isWriting : Bool} {n : Int16} {s t : Env}

/-- `Page::load` gives the page with its cursor at the first frame. -/
theorem load_new (s : Env) :
    Post (Page.load h isWriting n) s (fun q _ => ∀ p, q = some p → p.frame = pageInitPosition)
      fun _ _ => True := by
  unfold Page.load
  have given : ∀ (m : ℕ) (u : Env), Post (Pure.pure (some (Page.new m n)) : JournalM (Option Page)) u
      (fun q _ => ∀ p, q = some p → p.frame = pageInitPosition) fun _ _ => True := fun m u =>
    (Runs.pure _ u).post fun p hp => Option.some.inj hp ▸ rfl
  refine .bind ((Buffers.untouched_loadPageBuffer s).mono (fun opened t _ => ?_) fun _ _ _ => trivial)
  cases opened with
  | false => exact (Runs.pure _ t).post fun p hp => (by cases hp)
  | true =>
    refine .bind ((Runs.get t).post (.bind ((Runs.set t { t with mapped := t.mapped + 1 }).post ?_)))
    dsimp only
    split
    · split
      · exact (Runs.pure _ _).post fun p hp => (by cases hp)
      · exact .bind ((Buffers.untouched_init _).mono (fun _ u _ => given _ u) fun _ _ _ => trivial)
    · split
      · exact (Throws.throw _ _).post trivial
      · exact given _ _

/-- **The loops over the frames of an accepted page terminate and read inside the page, at any time, exactly
if the chain of its written frames is sound**, which it is if the lengths are positive and lead to a frame
inside the page.  On a sound page the calls return. -/
theorem scans_safe_iff (hload : Runs (Page.load h isWriting n) s (some p) t) :
    ((∀ scan, Scan.Safe (t.files.buffer n) p scan) ↔ SoundChain (t.files.buffer n)) ∧
    (PositiveLengths (t.files.buffer n) → SoundChain (t.files.buffer n)) ∧
    (SoundChain (t.files.buffer n) → (p.passWrittenFrame (t.files.buffer n)).isSome ∧
      ∀ time, (p.passToTime (t.files.buffer n) time).isSome) := by
  have hp : p.frame = pageInitPosition := (load_new s).of_runs hload p rfl
  refine ⟨⟨fun hall => sound_of_safe hp (hall .passWrittenFrame), fun hs => hs.safe hp⟩,
    PositiveLengths.sound, fun hs => ⟨hs.isSome_run hp .passWrittenFrame, fun time => ?_⟩⟩
  exact hs.isSome_run hp (.passToTime time)

/-! ### Pages whose first frame has any length -/

/-- A page that `Page::load` accepts, and on it one written frame with the length. -/
def pageWithLength (length : Int32) : Mem :=
  ((zeroPage.storeAs 0 journalPageStatusInited).storeAs pageInitPosition journalFrameStatusWritten).storeAs
    (pageInitPosition + 9) length

/-- A reader in a directory with this page only. -/
def readerOf (b : Mem) : Env := JournalReader.start ((∅ : Files).insert 1 b)

theorem lookup_readerOf (b : Mem) : (readerOf b).files.lookup 1 = some b := AList.lookup_insert _

variable {length : Int32}

theorem frameVersion_pageWithLength : PageHeader.frameVersion (pageWithLength length) = 0 := by
  unfold PageHeader.frameVersion pageWithLength
  rw [Mem.loadAs_storeAs_disjoint _ _ (by decide), Mem.loadAs_storeAs_disjoint _ _ (by decide),
    Mem.loadAs_storeAs_disjoint _ _ (by decide)]
  rfl

theorem pageStatus_pageWithLength : PageHeader.status (pageWithLength length) = journalPageStatusInited := by
  unfold PageHeader.status pageWithLength
  rw [Mem.storeAs_outside _ _ (by decide), Mem.storeAs_outside _ _ (by decide), Mem.storeAs_byte]

theorem status_pageWithLength :
    Frame.getStatus (pageWithLength length) pageInitPosition = journalFrameStatusWritten := by
  unfold Frame.getStatus pageWithLength
  rw [Mem.storeAs_outside _ _ (by decide), Mem.storeAs_byte]

theorem getFrameLength_pageWithLength :
    Frame.getFrameLength (pageWithLength length) pageInitPosition = length :=
  Mem.loadAs_storeAs _ _ _

theorem getNano_pageWithLength : Frame.getNano (pageWithLength length) pageInitPosition = 0 := by
  unfold Frame.getNano pageWithLength
  rw [Mem.loadAs_storeAs_disjoint _ _ (by decide), Mem.loadAs_storeAs_disjoint _ _ (by decide),
    Mem.loadAs_storeAs_disjoint _ _ (by decide)]
  rfl

/-- Both loops go on at the frame of the page. -/
theorem goesOn_pageWithLength {scan : Scan} (hscan : scan ∈ [Scan.passWrittenFrame, .passToTime 1]) :
    scan.goesOn (pageWithLength length) pageInitPosition = true := by
  simp only [List.mem_cons, List.not_mem_nil, or_false] at hscan
  rcases hscan with rfl | rfl
  · simp [Scan.goesOn, status_pageWithLength]
  · simp [Scan.goesOn, status_pageWithLength, getNano_pageWithLength]

theorem getNextEntry_pageWithLength :
    Frame.getNextEntry (pageWithLength length) pageInitPosition = addressAdd pageInitPosition length := by
  unfold Frame.getNextEntry
  rw [getFrameLength_pageWithLength]

theorem load_pageWithLength (length : Int32) :
    ∃ t, Runs (Page.load (hostWith fun _ => 5) false 1) (readerOf (pageWithLength length))
      (some (Page.new 0 1)) t ∧ t.files.buffer 1 = pageWithLength length := by
  refine ⟨_, load_runs_reader (lookup_readerOf _) ?_ (.inl frameVersion_pageWithLength),
    Files.buffer_of_lookup (lookup_readerOf _)⟩
  rw [pageStatus_pageWithLength]
  rfl

/-- With the length of an empty frame, the frame behind it is raw. -/
theorem positiveLengths_pageWithLength : PositiveLengths (pageWithLength 20) := by
  have hlength : (Frame.getFrameLength (pageWithLength 20) pageInitPosition).toInt = 20 := by
    rw [getFrameLength_pageWithLength]
    rfl
  have hnext : nthFrame (pageWithLength 20) 1 = 157 := by
    rw [nthFrame_succ]
    exact getNextEntry_pageWithLength.trans (by decide)
  have hfirst : ∀ k, AllWritten (pageWithLength 20) (k + 1) →
      nthFrame (pageWithLength 20) k = pageInitPosition := by
    intro k hk
    cases k with
    | zero => rfl
    | succ k =>
      have hraw := hk 1 (by omega)
      rw [hnext] at hraw
      exact absurd hraw (by decide)
  have hsize : pageInitPosition = 137 := rfl
  refine ⟨fun k hk => ?_, fun k hk => ?_, fun k hk => ?_⟩
  · rw [hfirst k hk, hlength]
    decide
  · rw [hfirst k hk, hlength, journalPageSize_eq, hsize]
    decide
  · rw [hfirst k hk, journalPageSize_eq, hsize]
    decide

theorem pageWithLength_safe : SoundChain (pageWithLength 20) ∧
    ∀ scan : Scan, scan.Safe (pageWithLength 20) (Page.new 0 1) := by
  obtain ⟨t, hload, hbuf⟩ := load_pageWithLength 20
  obtain ⟨hsafe, hsound, -⟩ := scans_safe_iff hload
  rw [hbuf] at hsafe hsound
  have hs := hsound positiveLengths_pageWithLength
  exact ⟨hs, hsafe.mpr hs⟩

/-- Every turn is made at the same frame. -/
theorem not_ends_pageWithLength {scan : Scan} (hscan : scan ∈ [Scan.passWrittenFrame, .passToTime 1]) :
    ¬ Ends (fun q => scan.goesOn (pageWithLength 0) q.frame) (Page.passFrame (pageWithLength 0))
      (Page.new 0 1) := by
  rw [(Scan.follows _ scan).ends, ends_iff]
  rintro ⟨k, hk⟩
  refine hk fun i _ => ?_
  have hback : Frame.getNextEntry (pageWithLength 0) pageInitPosition = pageInitPosition :=
    getNextEntry_pageWithLength.trans (by decide)
  have hfix := Function.iterate_fixed hback i
  exact (congrArg (fun a => scan.goesOn (pageWithLength 0) a) hfix).trans (goesOn_pageWithLength hscan)

theorem turns_pageWithLength {scan : Scan} (hscan : scan ∈ [Scan.passWrittenFrame, .passToTime 1]) :
    Turns (fun q => scan.goesOn (pageWithLength length) q.frame) (Page.passFrame (pageWithLength length))
      (Page.new 0 1) 1 := by
  intro i hi
  obtain rfl : i = 0 := by omega
  exact goesOn_pageWithLength hscan

theorem next_outside :
    journalPageSize ≤ ((Page.passFrame (pageWithLength 2147483647))^[1] (Page.new 0 1)).frame := by
  have hout : Frame.getNextEntry (pageWithLength 2147483647) pageInitPosition = 2147483784 :=
    getNextEntry_pageWithLength.trans (by decide)
  have hframe : (Page.new 0 1).frame = pageInitPosition := rfl
  rw [Function.iterate_one, Page.passFrame_frame, hframe, hout, journalPageSize_eq]
  decide

/-- **No length is checked**: on an accepted page with a frame of length 0 neither loop terminates, and a
length that leads out of the page makes both read a status there. -/
theorem length_not_checked :
    (∃ p t, Runs (Page.load (hostWith fun _ => 5) false 1) (readerOf (pageWithLength 0)) (some p) t ∧
      ∀ scan ∈ [Scan.passWrittenFrame, .passToTime 1],
        ¬ Ends (fun q => scan.goesOn (t.files.buffer 1) q.frame) (Page.passFrame (t.files.buffer 1)) p) ∧
    ∃ p t, Runs (Page.load (hostWith fun _ => 5) false 1) (readerOf (pageWithLength 2147483647)) (some p) t ∧
      ∀ scan ∈ [Scan.passWrittenFrame, .passToTime 1], ∃ k,
        Turns (fun q => scan.goesOn (t.files.buffer 1) q.frame) (Page.passFrame (t.files.buffer 1)) p k ∧
        journalPageSize ≤ ((Page.passFrame (t.files.buffer 1))^[k] p).frame := by
  obtain ⟨t, hload, hbuf⟩ := load_pageWithLength 0
  obtain ⟨u, hload', hbuf'⟩ := load_pageWithLength 2147483647
  refine ⟨⟨_, t, hload, fun scan hscan => ?_⟩, ⟨_, u, hload', fun scan hscan => ⟨1, ?_, ?_⟩⟩⟩
  · rw [hbuf]
    exact not_ends_pageWithLength hscan
  · rw [hbuf']
    exact turns_pageWithLength hscan
  · rw [hbuf']
    exact next_outside

end Yijinjing
