import Yijinjing.Journal.AppendOnly
import Yijinjing.Journal.SeekRace

/-!
# The unread frames of a reader

`Ahead` reads off the page files what frames follow an address: up to the first status RAW, and on to the
next page at a PAGE_END.  `Unread` are those that follow the place of a reader.  Whatever the page files
are, `locateFrame` finds the first unread frame and leaves them unread, though it may turn the page, and
`passFrame` takes that frame away (`Unread.locate`, `Located.take`).  A reader of a journal that a writer
keeps, wherever it stands, has unread frames, and they are the last records of the journal (`Rep.unread`).
-/

namespace Yijinjing

open Lib Prog
open SeekRace (Later)

/-! ### What the page files hold -/

/-- A reader can be given the page `n`. -/
structure Readable (fs : Files) (n : Int16) : Prop where
  isSome : (fs.lookup n).isSome
  not_raw : (PageHeader.status (fs.buffer n) == journalPageStatusRaw) = false
  version : PageHeader.frameVersion (fs.buffer n) = 0 ∨ PageHeader.frameVersion (fs.buffer n) = frameHeaderVersion

/-- The page `n` is not there or not initialized. -/
def Missing (fs : Files) (n : Int16) : Prop :=
  ∀ b, fs.lookup n = some b → PageHeader.status b = journalPageStatusRaw

/-- **The frames from the address `a` of the page `n` on.**  No page is closed without a frame on it. -/
inductive Ahead (fs : Files) : Int16 → ℕ → List Record → Prop
  | raw {n : Int16} {a : ℕ} : Frame.getStatus (fs.buffer n) a = journalFrameStatusRaw → Ahead fs n a []
  | frame {n : Int16} {a : ℕ} {rs : List Record} :
      Frame.getStatus (fs.buffer n) a = journalFrameStatusWritten →
      Ahead fs n (Frame.getNextEntry (fs.buffer n) a) rs →
      Ahead fs n a (JournalReader.readFrame (fs.buffer n) a :: rs)
  | page {n : Int16} {a : ℕ} {rs : List Record} :
      Frame.getStatus (fs.buffer n) a = journalFrameStatusPageEnd → Readable fs (n + 1) →
      Frame.getStatus (fs.buffer (n + 1)) pageInitPosition ≠ journalFrameStatusPageEnd →
      Ahead fs (n + 1) pageInitPosition rs → Ahead fs n a rs

/-- **The frames that a reader has not been given yet.**  Without a page it starts at page 1. -/
inductive Unread (s : Env) : List Record → Prop
  | expired : s.journal.expired = true → Unread s []
  | onPage {p : Page} {rs : List Record} : s.journal.expired = false → s.journal.curPage = some p →
      Ahead s.files p.pageNum p.frame rs → Unread s rs
  | first {rs : List Record} : s.journal.expired = false → s.journal.curPage = none →
      Readable s.files 1 →
      Frame.getStatus (s.files.buffer 1) pageInitPosition ≠ journalFrameStatusPageEnd →
      Ahead s.files 1 pageInitPosition rs → Unread s rs
  | missing : s.journal.expired = false → s.journal.curPage = none → Missing s.files 1 → Unread s []

/-- The reader stands on a frame of its page, or behind the last one. -/
def OnFrame (s : Env) : Prop := ∀ p, s.journal.curPage = some p →
  (s.files.lookup p.pageNum).isSome ∧ OnChain (s.files.buffer p.pageNum) p.frame

/-- The reader may have moved, in the same page files. -/
structure Kept (s t : Env) : Prop where
  files : t.files = s.files
  isWriting : t.journal.isWriting = s.journal.isWriting
  onFrame : OnFrame s → OnFrame t

/-! ### `locateFrame` with the time of the frame -/

/-- A `FrameHeader*`, and the time that is read there. -/
structure Header where
  page : Int16
  frame : ℕ
  nano : Int64
  deriving DecidableEq

/-- `journal->locateFrame()` and `header->nano` -/
def locateHeader (h : Host) : JournalM (Option Header) := do
  match ← Journal.locateFrame h with
  | none => return none
  | some a =>
    let s ← get
    match s.journal.curPage with
    | none => throw .nullPage
    | some p => return some ⟨p.pageNum, a, Frame.getNano (s.files.buffer p.pageNum) a⟩

/-- `curJournal->passFrame()`, and what the user reads off the frame that was located. -/
def takeFrame (page : Int16) (frame : ℕ) : JournalM Record := do
  Journal.passFrame
  return JournalReader.readFrame ((← get).files.buffer page) frame

/-- The reader stands on the first of its unread frames, and that is what was located. -/
inductive Located (s : Env) : List Record → Option Header → Prop
  | none : Located s [] none
  | frame {p : Page} {r : Record} {rs : List Record} {d : Header} :
      s.journal.expired = false → s.journal.curPage = some p →
      Frame.getStatus (s.files.buffer p.pageNum) p.frame = journalFrameStatusWritten →
      Ahead s.files p.pageNum (Frame.getNextEntry (s.files.buffer p.pageNum) p.frame) rs →
      JournalReader.readFrame (s.files.buffer p.pageNum) p.frame = r →
      ⟨p.pageNum, p.frame, Frame.getNano (s.files.buffer p.pageNum) p.frame⟩ = d →
      Located s (r :: rs) (some d)

variable {h : Host} {s t : Env} {v w : View} {fs fs' : Files} {n : Int16} {a i j : ℕ} {p : Page}
  {rs rs' : List Record} {q : Option Page} {d : Option Header}

/-! ### The unread frames are determined -/

theorem Ahead.det (h1 : Ahead fs n a rs) (h2 : Ahead fs n a rs') : rs = rs' := by
  induction h1 generalizing rs' with
  | raw hst =>
    cases h2 with
    | raw => rfl
    | frame hst' => exact absurd (hst.symm.trans hst') (by decide)
    | page hst' => exact absurd (hst.symm.trans hst') (by decide)
  | frame hst _ ih =>
    cases h2 with
    | raw hst' => exact absurd (hst.symm.trans hst') (by decide)
    | frame _ h2 => rw [ih h2]
    | page hst' => exact absurd (hst.symm.trans hst') (by decide)
  | page hst _ _ _ ih =>
    cases h2 with
    | raw hst' => exact absurd (hst.symm.trans hst') (by decide)
    | frame hst' => exact absurd (hst.symm.trans hst') (by decide)
    | page _ _ _ h2 => exact ih h2

theorem Readable.not_missing (hr : Readable fs n) : ¬ Missing fs n := by
  intro hm
  obtain ⟨b, hb⟩ := Option.isSome_iff_exists.mp hr.isSome
  have hraw := hr.not_raw
  rw [Files.buffer_of_lookup hb, hm b hb] at hraw
  cases hraw

theorem Unread.det (h1 : Unread s rs) (h2 : Unread s rs') : rs = rs' := by
  cases h1 with
  | expired he =>
    cases h2 with
    | expired => rfl
    | onPage he' | first he' | missing he' => nomatch he.symm.trans he'
  | onPage he hcur ha =>
    cases h2 with
    | expired he' => nomatch he.symm.trans he'
    | onPage _ hcur' ha' =>
      obtain rfl := Option.some.inj (hcur.symm.trans hcur')
      exact ha.det ha'
    | first _ hcur' | missing _ hcur' => nomatch hcur.symm.trans hcur'
  | first he hcur hr _ ha =>
    cases h2 with
    | expired he' => nomatch he.symm.trans he'
    | onPage _ hcur' => nomatch hcur.symm.trans hcur'
    | first _ _ _ _ ha' => exact ha.det ha'
    | missing _ _ hm => exact absurd hm hr.not_missing
  | missing he hcur hm =>
    cases h2 with
    | expired | missing => rfl
    | onPage _ hcur' => nomatch hcur.symm.trans hcur'
    | first _ _ hr => exact absurd hm hr.not_missing

/-! ### Turning the page -/

theorem Kept.refl (s : Env) : Kept s s := ⟨rfl, rfl, id⟩

theorem Kept.trans {u : Env} (h1 : Kept s t) (h2 : Kept t u) : Kept s u :=
  ⟨h2.files.trans h1.files, h2.isWriting.trans h1.isWriting, h2.onFrame ∘ h1.onFrame⟩

/-- A reader that has been given the page is at its first frame. -/
theorem Kept.new {m : ℕ} (hfiles : t.files = s.files) (hw : t.journal.isWriting = s.journal.isWriting)
    (hcur : t.journal.curPage = some (Page.new m n)) (hr : (s.files.lookup n).isSome) : Kept s t := by
  refine ⟨hfiles, hw, fun _ _ hp => ?_⟩
  obtain rfl := Option.some.inj (hcur.symm.trans hp)
  rw [hfiles]
  exact ⟨hr, .first⟩

/-- A reader without a page. -/
theorem Kept.of_none (hfiles : t.files = s.files) (hw : t.journal.isWriting = s.journal.isWriting)
    (hcur : t.journal.curPage = none) : Kept s t :=
  ⟨hfiles, hw, fun _ _ hp => nomatch hcur.symm.trans hp⟩

theorem getPage_readable (hg : h.Grants) (hr : Readable s.files n) :
    ∃ t, Runs (getPage h false n) s (some (Page.new s.mapped n)) t ∧ t.files = s.files ∧
      t.journal = s.journal := by
  obtain ⟨b, hb⟩ := Option.isSome_iff_exists.mp hr.isSome
  have hraw := hr.not_raw
  have hv := hr.version
  rw [Files.buffer_of_lookup hb] at hraw hv
  exact ⟨_, getPage_runs (serve_runs_isSome hg false hr.isSome) (load_runs_reader hb hraw hv), rfl, rfl⟩

theorem getPage_missing (hg : h.Grants) (hm : Missing s.files n) :
    ∃ t, Runs (getPage h false n) s none t ∧ t.files = s.files ∧ t.journal = s.journal := by
  cases hb : s.files.lookup n with
  | none => exact ⟨_, getPage_runs_missing hg hb, rfl, rfl⟩
  | some b =>
    exact ⟨_, getPage_runs (serve_runs_isSome hg false (by rw [hb]; rfl)) (load_runs_reader_raw hb (hm b hb)),
      rfl, rfl⟩

/-- A reader that has no page asks for page 1. -/
theorem Journal.loadNextPage_first (hw : s.journal.isWriting = false) (he : s.journal.expired = false)
    (hcur : s.journal.curPage = none) (hget : Runs (getPage h false 1) s q t) :
    Runs (Journal.loadNextPage h) s ⟨⟩ (t.setCurPage q) := by
  unfold Journal.loadNextPage
  refine (Runs.get s).bind ?_
  rw [he, hcur]
  simp only [hw]
  exact hget.bind (setCurPage_runs q t)

/-- A reader that has a page asks for the one behind it. -/
theorem Journal.loadNextPage_next (hw : s.journal.isWriting = false) (he : s.journal.expired = false)
    (hcur : s.journal.curPage = some p) (hget : Runs (getPage h false (p.pageNum + 1)) s q t) :
    Runs (Journal.loadNextPage h) s ⟨⟩ ({ t with released := t.released ++ [p.buffer] }.setCurPage q) := by
  unfold Journal.loadNextPage
  refine (Runs.get s).bind ?_
  rw [he, hcur]
  simp only [hw, Bool.false_eq_true, if_false]
  exact hget.bind ((releasePage_runs p t).bind (setCurPage_runs q _))

/-- Where a reader that has turned the page stands: not at a PAGE_END, or without a page. -/
inductive Turned (t : Env) : List Record → Prop
  | onPage {p : Page} {rs : List Record} : t.journal.expired = false → t.journal.curPage = some p →
      Frame.getStatus (t.files.buffer p.pageNum) p.frame ≠ journalFrameStatusPageEnd →
      Ahead t.files p.pageNum p.frame rs → Turned t rs
  | missing : t.journal.expired = false → t.journal.curPage = none → Missing t.files 1 → Turned t []

theorem Turned.unread (ht : Turned t rs) : Unread t rs := by
  cases ht with
  | onPage he hcur _ ha => exact .onPage he hcur ha
  | missing he hcur hm => exact .missing he hcur hm

theorem turnPage_stay (hcur : s.journal.curPage = some p)
    (hst : Frame.getStatus (s.files.buffer p.pageNum) p.frame ≠ journalFrameStatusPageEnd) :
    Runs (Journal.turnPage h) s ⟨⟩ s := by
  have hend : p.isAtPageEnd (s.files.buffer p.pageNum) = false := beq_eq_false_iff_ne.mpr hst
  unfold Journal.turnPage
  refine (Runs.get s).bind ?_
  rw [hcur]
  simp only [hend]
  exact Runs.pure _ _

theorem turnPage_next (hcur : s.journal.curPage = some p)
    (hst : Frame.getStatus (s.files.buffer p.pageNum) p.frame = journalFrameStatusPageEnd)
    (hload : Runs (Journal.loadNextPage h) s ⟨⟩ t) : Runs (Journal.turnPage h) s ⟨⟩ t := by
  have hend : p.isAtPageEnd (s.files.buffer p.pageNum) = true := beq_iff_eq.mpr hst
  unfold Journal.turnPage
  refine (Runs.get s).bind ?_
  rw [hcur]
  simp only [hend, if_true]
  exact hload

theorem turnPage_first (hcur : s.journal.curPage = none)
    (hload : Runs (Journal.loadNextPage h) s ⟨⟩ t) : Runs (Journal.turnPage h) s ⟨⟩ t := by
  unfold Journal.turnPage
  refine (Runs.get s).bind ?_
  rw [hcur]
  exact hload

/-- **Turning the page** leaves the unread frames unread. -/
theorem Unread.turnPage (hg : h.Grants) (hw : s.journal.isWriting = false) (he : s.journal.expired = false)
    (hu : Unread s rs) : ∃ t, Runs (Journal.turnPage h) s ⟨⟩ t ∧ Kept s t ∧ Turned t rs := by
  cases hu with
  | expired he' => exact nomatch he.symm.trans he'
  | @onPage p rs _ hcur ha =>
    cases ha with
    | raw hst =>
      have hne : Frame.getStatus (s.files.buffer p.pageNum) p.frame ≠ journalFrameStatusPageEnd := by
        rw [hst]
        decide
      exact ⟨s, turnPage_stay hcur hne, .refl s, .onPage he hcur hne (.raw hst)⟩
    | frame hst ha =>
      have hne : Frame.getStatus (s.files.buffer p.pageNum) p.frame ≠ journalFrameStatusPageEnd := by
        rw [hst]
        decide
      exact ⟨s, turnPage_stay hcur hne, .refl s, .onPage he hcur hne (.frame hst ha)⟩
    | page hst hr hne ha =>
      obtain ⟨t, hget, hfiles, hjournal⟩ := getPage_readable hg hr
      have hwt : t.journal.isWriting = s.journal.isWriting := congrArg Journal.isWriting hjournal
      have hload := Journal.loadNextPage_next hw he hcur hget
      refine ⟨_, turnPage_next hcur hst hload, .new hfiles hwt rfl hr.isSome,
        .onPage ((congrArg Journal.expired hjournal).trans he) rfl ?_ ?_⟩
      · show Frame.getStatus (t.files.buffer _) _ ≠ _
        rw [hfiles]
        exact hne
      · show Ahead t.files _ _ _
        rw [hfiles]
        exact ha
  | first _ hcur hr hne ha =>
    obtain ⟨t, hget, hfiles, hjournal⟩ := getPage_readable hg hr
    have hwt : t.journal.isWriting = s.journal.isWriting := congrArg Journal.isWriting hjournal
    have hload := Journal.loadNextPage_first hw he hcur hget
    refine ⟨_, turnPage_first hcur hload, .new hfiles hwt rfl hr.isSome,
      .onPage ((congrArg Journal.expired hjournal).trans he) rfl ?_ ?_⟩
    · show Frame.getStatus (t.files.buffer _) _ ≠ _
      rw [hfiles]
      exact hne
    · show Ahead t.files _ _ _
      rw [hfiles]
      exact ha
  | missing _ hcur hm =>
    obtain ⟨t, hget, hfiles, hjournal⟩ := getPage_missing hg hm
    have hwt : t.journal.isWriting = s.journal.isWriting := congrArg Journal.isWriting hjournal
    have hload := Journal.loadNextPage_first hw he hcur hget
    refine ⟨_, turnPage_first hcur hload, .of_none hfiles hwt rfl,
      .missing ((congrArg Journal.expired hjournal).trans he) rfl ?_⟩
    show Missing t.files 1
    rw [hfiles]
    exact hm

/-! ### Locating and taking a frame -/

/-- `locateFrame` of a reader looks at the page that it has turned to. -/
theorem locateFrame_of_turnPage (hw : s.journal.isWriting = false) (he : s.journal.expired = false)
    (hturn : Runs (Journal.turnPage h) s ⟨⟩ t) : Runs (Journal.locateFrame h) s
      (t.journal.curPage.bind fun p => p.locateReadableFrame (t.files.buffer p.pageNum)) t := by
  unfold Journal.locateFrame
  refine (Runs.get s).bind ?_
  simp only [he, hw, Bool.false_eq_true, if_false]
  refine hturn.bind ((Runs.get t).bind ?_)
  cases t.journal.curPage <;> exact Runs.pure _ _

/-- **`locateFrame` finds the first unread frame**, and it stays unread. -/
theorem Unread.locate (hg : h.Grants) (hw : s.journal.isWriting = false) (hu : Unread s rs) :
    ∃ t d, Runs (locateHeader h) s d t ∧ Kept s t ∧ Unread t rs ∧ Located t rs d := by
  cases he : s.journal.expired with
  | true =>
    have hloc : Runs (Journal.locateFrame h) s none s := by
      unfold Journal.locateFrame
      refine (Runs.get s).bind ?_
      simp only [he]
      exact Runs.pure _ _
    obtain rfl := hu.det (.expired he)
    refine ⟨s, none, ?_, .refl s, hu, .none⟩
    unfold locateHeader
    exact hloc.bind (Runs.pure _ _)
  | false =>
    obtain ⟨t, hturn, hkept, ht⟩ := hu.turnPage hg hw he
    have hloc := locateFrame_of_turnPage hw he hturn
    have hun := ht.unread
    cases ht with
    | missing _ hcur _ =>
      rw [hcur, Option.bind_none] at hloc
      refine ⟨t, none, ?_, hkept, hun, .none⟩
      unfold locateHeader
      exact hloc.bind (Runs.pure _ _)
    | @onPage p rs he' hcur hne ha =>
      rw [hcur, Option.bind_some] at hloc
      cases ha with
      | page hst => exact absurd hst hne
      | raw hst =>
        have hread : p.locateReadableFrame (t.files.buffer p.pageNum) = none := by
          unfold Page.locateReadableFrame Page.getCurStatus
          rw [hst]
          rfl
        rw [hread] at hloc
        refine ⟨t, none, ?_, hkept, hun, .none⟩
        unfold locateHeader
        exact hloc.bind (Runs.pure _ _)
      | frame hst ha =>
        have hread : p.locateReadableFrame (t.files.buffer p.pageNum) = some p.frame := by
          unfold Page.locateReadableFrame Page.getCurStatus
          rw [hst]
          rfl
        rw [hread] at hloc
        refine ⟨t, _, ?_, hkept, hun, .frame he' hcur hst ha rfl rfl⟩
        unfold locateHeader
        refine hloc.bind ((Runs.get t).bind ?_)
        rw [hcur]
        exact Runs.pure _ _

/-- **`passFrame` takes the frame that was located.** -/
theorem Located.take {r : Record} {d : Header} (hl : Located s (r :: rs) (some d)) :
    ∃ t, Runs (takeFrame d.page d.frame) s r t ∧ Kept s t ∧ Unread t rs := by
  cases hl with
  | @frame p _ _ _ he hcur hst ha hr hd =>
    let u := s.setCurPage (some (p.passFrame (s.files.buffer p.pageNum)))
    have hpage : d.page = p.pageNum := congrArg Header.page hd.symm
    have hframe : d.frame = p.frame := congrArg Header.frame hd.symm
    have hread : JournalReader.readFrame (u.files.buffer p.pageNum) p.frame = r := hr
    have hpass : Runs Journal.passFrame s ⟨⟩ u := by
      unfold Journal.passFrame
      refine (Runs.get s).bind ?_
      rw [hcur]
      exact setCurPage_runs _ s
    have hnext : Ahead u.files (p.passFrame (s.files.buffer p.pageNum)).pageNum
        (p.passFrame (s.files.buffer p.pageNum)).frame rs := by
      rw [Page.passFrame_pageNum, Page.passFrame_frame]
      exact ha
    refine ⟨u, ?_, ⟨rfl, rfl, fun hon q hq => ?_⟩, .onPage he rfl hnext⟩
    · unfold takeFrame
      rw [hpage, hframe, ← hread]
      exact hpass.bind ((Runs.get u).bind (Runs.pure _ u))
    · obtain rfl := Option.some.inj hq
      obtain ⟨hsome, hchain⟩ := hon p hcur
      rw [Page.passFrame_pageNum]
      exact ⟨hsome, hchain.passFrame hst⟩

/-- The time of the frame that was located. -/
theorem Located.nano_eq {r : Record} {d : Header} (hl : Located s (r :: rs) (some d)) : d.nano = r.nano := by
  cases hl with
  | frame _ _ _ _ hr hd => rw [← hr, ← hd, JournalReader.readFrame]

/-! ### A journal that a writer keeps -/

/-- The frames behind the place `(i, j)`, when those behind the end of the row are known. -/
theorem Rep.ahead_row (hr : Rep fs v) (hi : i < v.pages.length)
    (hend : Ahead fs (pageNo i) (v.addr i (v.row i).length) (v.ahead i (v.row i).length))
    (hj : j ≤ (v.row i).length) : Ahead fs (pageNo i) (v.addr i j) (v.ahead i j) := by
  induction hk : (v.row i).length - j generalizing j with
  | zero =>
    obtain rfl : j = (v.row i).length := by omega
    exact hend
  | succ k ih =>
    have hlt : j < (v.row i).length := by omega
    have hf := hr.frameAt hi hlt
    have hcons : v.ahead i j = (v.row i)[j] :: v.ahead i (j + 1) := left_cons hlt
    have hnext : Frame.getNextEntry (fs.buffer (pageNo i)) (v.addr i j) = v.addr i (j + 1) :=
      FrameAt.getNextEntry hlt hf
    have htail := ih hlt (by omega)
    rw [← hnext] at htail
    rw [hcons, ← hf.readFrame_eq]
    exact .frame hf.written htail

theorem Rep.readable (hr : Rep fs v) (hi : i < v.pages.length) : Readable fs (pageNo i) := by
  obtain ⟨b, hb, hp⟩ := hr.page i hi
  have hbuf := Files.buffer_of_lookup hb
  exact ⟨by rw [hb]; rfl, by rw [hbuf]; exact status_ne_raw hp, by rw [hbuf]; exact hp.version⟩

/-- No page of the journal is closed without a frame on it. -/
theorem Rep.first_ne_pageEnd (hr : Rep fs v) (hi : i < v.pages.length) :
    Frame.getStatus (fs.buffer (pageNo i)) pageInitPosition ≠ journalFrameStatusPageEnd := by
  rcases Nat.eq_zero_or_pos (v.row i).length with h0 | hpos
  · have hst := hr.status_end hi h0.symm
    have hlast : ¬ i + 1 < v.pages.length := fun hlt =>
      hr.ok.records_ne_nil hlt (List.length_eq_zero_iff.mp (by rw [← View.row_eq]; exact h0))
    rw [View.endStatus, if_neg hlast] at hst
    have haddr : v.addr i 0 = pageInitPosition := rfl
    rw [← haddr, hst]
    decide
  · have hw := (hr.frameAt hi hpos).written
    have haddr : v.addr i 0 = pageInitPosition := rfl
    rw [← haddr, hw]
    decide

/-- **The frames behind a place** are the records that are ahead of it. -/
theorem Rep.ahead (hr : Rep fs v) (hpl : v.Place i j) : Ahead fs (pageNo i) (v.addr i j) (v.ahead i j) := by
  have hi := hpl.lt
  induction hk : v.pages.length - (i + 1) generalizing i j with
  | zero =>
    refine hr.ahead_row hi ?_ hpl.2
    have hlast : ¬ i + 1 < v.pages.length := by omega
    have hnil : v.ahead i (v.row i).length = [] := left_end (by rw [length_recordRows]; omega) rfl
    have hst := hr.status_end hi rfl
    rw [View.endStatus, if_neg hlast] at hst
    rw [hnil]
    exact .raw hst
  | succ k ih =>
    refine hr.ahead_row hi ?_ hpl.2
    have hlt : i + 1 < v.pages.length := by omega
    have hnext : v.ahead i (v.row i).length = v.ahead (i + 1) 0 :=
      left_next_page (by rwa [length_recordRows]) rfl
    have hst := hr.status_end hi rfl
    rw [View.endStatus, if_pos hlt] at hst
    have hplace : v.Place (i + 1) 0 := ⟨by rwa [length_recordRows], Nat.zero_le _⟩
    rw [hnext]
    have hno := pageNo_succ i
    exact .page hst (hno ▸ hr.readable hlt) (hno ▸ hr.first_ne_pageEnd hlt) (hno ▸ ih hplace hlt (by omega))

/-- A page file of the journal can be given to a reader, or it is not initialized. -/
theorem Rep.readable_or_missing (hr : Rep fs v) (n : Int16) : Readable fs n ∨ Missing fs n := by
  cases hb : fs.lookup n with
  | none => exact .inr fun b hb' => nomatch hb.symm.trans hb'
  | some b =>
    have hv := SeekRace.HasFile.version hr ((hr.files n).mp (by rw [hb]; rfl)) hb
    have hbuf := Files.buffer_of_lookup hb
    cases hraw : PageHeader.status b == journalPageStatusRaw with
    | true =>
      refine .inr fun b' hb' => ?_
      obtain rfl := Option.some.inj (hb.symm.trans hb')
      exact beq_iff_eq.mp hraw
    | false => exact .inl ⟨by rw [hb]; rfl, by rw [hbuf]; exact hraw, by rw [hbuf]; exact hv⟩

/-- Where a reader can stand. -/
theorem OnFrame.place (hr : Rep s.files v) (hon : OnFrame s) (hcur : s.journal.curPage = some p) :
    ∃ i < v.numFiles, p.pageNum = pageNo i ∧ ∃ j ≤ (v.row i).length, p.frame = v.addr i j := by
  obtain ⟨hsome, hchain⟩ := hon p hcur
  obtain ⟨i, hi, hno⟩ := (hr.files p.pageNum).mp hsome
  obtain ⟨b, hb⟩ := Option.isSome_iff_exists.mp hsome
  rw [Files.buffer_of_lookup hb] at hchain
  rw [hno] at hb
  refine ⟨i, hi, hno, ?_⟩
  rcases View.lt_or_next hi with hlt | ⟨ho, rfl⟩
  · obtain ⟨b', hb', hp⟩ := hr.page i hlt
    obtain rfl := Option.some.inj (hb.symm.trans hb')
    have e := View.row_eq hlt
    obtain ⟨j, hj, ha⟩ := hchain.place hp (hr.ok.roomy _ (List.getElem_mem hlt)) (v.endStatus_ne_written i)
    refine ⟨j, by rwa [e], ?_⟩
    unfold View.addr
    rw [e]
    exact ha
  · refine ⟨0, Nat.zero_le _, ?_⟩
    rw [hchain.eq_first (hr.next ho b hb).status]
    rfl

/-- A reader without a page has not been given any record. -/
theorem Rep.unread_start (hr : Rep s.files v) (he : s.journal.expired = false) (hcur : s.journal.curPage = none) :
    Unread s (allRecords v.pages) := by
  by_cases hnil : v.pages = []
  · rw [hnil]
    exact .missing he hcur fun b hb => (hr.blank hnil b hb).raw
  · have hpos := List.length_pos_iff.mpr hnil
    have hpl : v.Place 0 0 := ⟨by rwa [length_recordRows], Nat.zero_le _⟩
    have hall : v.ahead 0 0 = allRecords v.pages := left_zero (by rwa [length_recordRows])
    rw [← hall]
    exact .first he hcur (hr.readable hpos) (hr.first_ne_pageEnd hpos) (hr.ahead hpl)

/-- **A reader has unread frames**, the last records of the journal. -/
theorem Rep.unread (hr : Rep s.files v) (hon : OnFrame s) : ∃ rs, Unread s rs ∧ rs <:+ allRecords v.pages := by
  cases he : s.journal.expired with
  | true => exact ⟨[], .expired he, List.nil_suffix⟩
  | false =>
    cases hcur : s.journal.curPage with
    | some p =>
      obtain ⟨i, hi, hno, j, hj, ha⟩ := hon.place hr hcur
      rcases View.lt_or_next hi with hlt | ⟨ho, rfl⟩
      · have hpl : v.Place i j := ⟨by rwa [length_recordRows], hj⟩
        refine ⟨v.ahead i j, .onPage he hcur ?_, ?_⟩
        · rw [hno, ha]
          exact hr.ahead hpl
        · unfold allRecords
          rw [← taken_append_left j hpl.1]
          exact List.suffix_append _ _
      · -- the page that is opened next has no frames yet
        obtain ⟨b, hb⟩ := Option.isSome_iff_exists.mp ((hr.files _).mpr ⟨_, hi, rfl⟩)
        have hfirst : v.addr v.pages.length j = pageInitPosition := by
          have hnil := SeekRace.View.row_of_ge (v := v) (Nat.le_refl v.pages.length)
          unfold View.addr
          rw [hnil, List.take_nil]
          rfl
        refine ⟨[], .onPage he hcur (.raw ?_), List.nil_suffix⟩
        rw [hno, ha, hfirst, Files.buffer_of_lookup hb]
        exact (hr.next ho b hb).status
    | none => exact ⟨_, hr.unread_start he hcur, List.suffix_rfl⟩

/-- The address of a place is one to stand at. -/
theorem Rep.onChain (hr : Rep fs v) (hi : i < v.pages.length) (hj : j ≤ (v.row i).length) :
    OnChain (fs.buffer (pageNo i)) (v.addr i j) := by
  induction j with
  | zero => exact .first
  | succ j ih =>
    have hf := hr.frameAt hi hj
    have hnext : Frame.getNextEntry (fs.buffer (pageNo i)) (v.addr i j) = v.addr i (j + 1) :=
      FrameAt.getNextEntry hj hf
    rw [← hnext]
    exact (ih (Nat.le_of_succ_le hj)).next hf.written

/-- A reader stands where it stood when the journal grows. -/
theorem OnFrame.later (hon : OnFrame s) (hr : Rep s.files v) (hr' : Rep fs' w) (hl : Later v w) :
    OnFrame { s with files := fs' } := by
  intro p hcur
  obtain ⟨i, hi, hno, j, hj, ha⟩ := hon.place hr hcur
  have hi' : i < w.numFiles := Nat.lt_of_lt_of_le hi hl.numFiles_le
  refine ⟨(hr'.files _).mpr ⟨i, hi', hno⟩, ?_⟩
  obtain ⟨rs, hrs⟩ := hl.row i
  have haddr : v.addr i j = w.addr i j := by
    unfold View.addr
    rw [← hrs, List.take_append_of_le_length hj]
  rw [hno, ha, haddr]
  rcases View.lt_or_next hi' with hlt | ⟨-, rfl⟩
  · exact hr'.onChain hlt (Nat.le_trans hj (hl.row i).length_le)
  · have hnil := SeekRace.View.row_of_ge (v := w) (Nat.le_refl w.pages.length)
    unfold View.addr
    rw [hnil, List.take_nil]
    exact .first

/-! ### Seeking and expiring -/

/-- The loops over the frames of a page lead from frame to frame. -/
theorem onChain_of_scan {b : Mem} {q q' : Page} (hq : OnChain b q.frame) {time : Int64}
    (hscan : q' = q ∨ q.passWrittenFrame b = some q' ∨ q.passToTime b time = some q') :
    OnChain b q'.frame ∧ q'.pageNum = q.pageNum := by
  have hstep : ∀ p : Page, OnChain b p.frame ∧ p.pageNum = q.pageNum →
      (Page.getCurStatus b p == journalFrameStatusWritten) = true →
      OnChain b (p.passFrame b).frame ∧ (p.passFrame b).pageNum = q.pageNum :=
    fun p hp hst => ⟨hp.1.passFrame (beq_iff_eq.mp hst), hp.2⟩
  rcases hscan with rfl | hscan | hscan
  · exact ⟨hq, rfl⟩
  · exact whileLoop_invariant hstep ⟨hq, rfl⟩ hscan
  · refine whileLoop_invariant (fun p hp hst => hstep p hp ?_) ⟨hq, rfl⟩ hscan
    rw [Bool.and_eq_true] at hst
    exact hst.1

/-- **A seek of a reader** ends on a frame of a page, or without a page. -/
theorem Rep.seekTime (hg : h.Grants) (hr : Rep s.files v) (hw : s.journal.isWriting = false) (time : Int64) :
    ∃ found t, Runs (Journal.seekTime h time) s found t ∧ Kept s t := by
  obtain ⟨hfiles, -, hjournal, -⟩ := s.releaseCur_eq
  have hwr : s.releaseCur.journal.isWriting = s.journal.isWriting := by rw [hjournal]
  have hor := hr.readable_or_missing (Journal.soughtPageNum s.files time)
  rw [← hfiles] at hor
  rcases hor with hread | hmiss
  · obtain ⟨t, hget, hfiles', hjournal'⟩ := getPage_readable hg hread
    have hf : t.files = s.files := hfiles'.trans hfiles
    have hn := (hr.files _).mp (hfiles ▸ hread.isSome)
    rw [hfiles, ← hw] at hget
    have hr' : Rep t.files v := hf ▸ hr
    obtain ⟨h1, h2⟩ := SeekRace.scans_end hr' hn s.releaseCur.mapped time
    obtain ⟨q, hseek, hscan⟩ := seekTime_runs_some hget h1 h2
    refine ⟨true, _, hseek, hf, (congrArg Journal.isWriting hjournal').trans hwr, fun _ p hp => ?_⟩
    obtain rfl := Option.some.inj hp
    obtain ⟨hchain, hno⟩ := onChain_of_scan .first hscan
    rw [hno]
    show (t.files.lookup _).isSome ∧ OnChain (t.files.buffer _) _
    exact ⟨by rw [hf, ← hfiles]; exact hread.isSome, hchain⟩
  · obtain ⟨t, hget, hfiles', hjournal'⟩ := getPage_missing hg hmiss
    rw [hfiles, ← hw] at hget
    exact ⟨false, _, seekTime_runs_none hget,
      .of_none (hfiles'.trans hfiles) ((congrArg Journal.isWriting hjournal').trans hwr) rfl⟩

/-- **An expired reader** has no page. -/
theorem Rep.expire (hg : h.Grants) (hr : Rep s.files v) (hw : s.journal.isWriting = false) :
    ∃ t, Runs (Journal.expire h) s ⟨⟩ t ∧ Kept s t := by
  cases he : s.journal.expired with
  | true =>
    refine ⟨s, ?_, .refl s⟩
    unfold Journal.expire
    refine (Runs.get s).bind ?_
    simp only [he]
    exact Runs.pure _ _
  | false =>
    obtain ⟨hfiles, -, hjournal, -⟩ := (s.setExpired true).releaseCur_eq
    let u := (s.setExpired true).releaseCur.setCurPage none
    have hwu : u.journal.isWriting = s.journal.isWriting := by
      show (s.setExpired true).releaseCur.journal.isWriting = (s.setExpired true).journal.isWriting
      rw [hjournal]
    have hcur : u.journal.curPage = none := rfl
    obtain ⟨q, t, hget, hfiles', hjournal'⟩ : ∃ q t, Runs (getPage h false (-1)) u q t ∧ t.files = u.files ∧
        t.journal = u.journal := by
      have hru : Rep u.files v := by
        show Rep (s.setExpired true).releaseCur.files v
        rw [hfiles]
        exact hr
      rcases hru.readable_or_missing (-1) with hread | hmiss
      · obtain ⟨t, hget⟩ := getPage_readable hg hread
        exact ⟨_, t, hget⟩
      · obtain ⟨t, hget⟩ := getPage_missing hg hmiss
        exact ⟨_, t, hget⟩
    refine ⟨t, ?_, .of_none (hfiles'.trans hfiles) ((congrArg Journal.isWriting hjournal').trans hwu)
      ((congrArg Journal.curPage hjournal').trans hcur)⟩
    unfold Journal.expire
    refine (Runs.get s).bind ?_
    simp only [he, hw]
    exact (Runs.set _ _).bind ((releaseCurPage_runs _).bind ((setCurPage_runs _ _).bind
      (hget.bind (Runs.pure _ _))))

end Yijinjing
