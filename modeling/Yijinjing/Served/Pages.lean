import Yijinjing.Journal.FailedChange
import Yijinjing.Journal.TimeLookup
import Yijinjing.Journal.WriterBooks
import Yijinjing.Served.Writer

/-!
# Which page a writer is on, and which pages there are

What the functions of a writer do to the number of its page and to the set of page files, whatever the
pages hold: a page request brings at most the file that it asks for, and nothing else brings or removes
one (`Within`, `OnPage`).
-/

namespace Yijinjing.Served

open Lib Prog

variable {h : Host} {s t u : Env} {fs : Files} {n k : Int16} {p : Page} {es : List Effect} {status : CommStatus}

/-! ### Programs that bring no other page file -/

/-- At most the page file `n` is new, and the journal object is as it was. -/
structure Within (n : Int16) (s t : Env) : Prop where
  files : ∀ k, k ≠ n → (k ∈ t.files ↔ k ∈ s.files)
  kept : n ∈ s.files → n ∈ t.files
  journal : t.journal = s.journal

instance (n : Int16) : Std.Refl (Within n) := ⟨fun _ => ⟨fun _ _ => .rfl, id, rfl⟩⟩

instance (n : Int16) : IsTrans Env (Within n) := ⟨fun _ _ _ h₁ h₂ =>
  ⟨fun k hk => (h₂.files k hk).trans (h₁.files k hk), h₂.kept ∘ h₁.kept, h₂.journal.trans h₁.journal⟩⟩

theorem Within.of_eq (hfiles : t.files = s.files) (hjournal : t.journal = s.journal) : Within n s t :=
  ⟨fun _ _ => by rw [hfiles], fun hn => by rwa [hfiles], hjournal⟩

theorem within_emitAll (hes : ∀ k, .create k ∈ es → k = n) (s : Env) : Within n s (s.emitAll es) :=
  ⟨fun k hk => Files.mem_execAll fun hmem => hk (hes k hmem), Files.mem_execAll_of_mem es, rfl⟩

theorem within_emit (hes : ∀ k, .create k ∈ es → k = n) : Keeps (Within n) (emit es) :=
  .modify (within_emitAll hes)

theorem within_getNanoTime : Keeps (Within n) (getNanoTime h) := fun s =>
  (getNanoTime_runs s).post (.of_eq rfl rfl)

theorem within_init (n : Int16) : Keeps (Within n) ( Page.initialize h n) := by
  unfold Page.initialize
  exact (within_emit (by simp)).bind fun _ => within_getNanoTime.bind fun _ => within_emit (by simp)

theorem within_serve (isWriting : Bool) (n : Int16) : Keeps (Within n) (serve h isWriting n) := by
  unfold serve
  refine .get fun s => .bind ((Runs.set s { s with asked := s.asked + 1 }).post ?_)
  have hasked : Within n s { s with asked := s.asked + 1 } := .of_eq rfl rfl
  split
  · exact (Runs.pure _ _).post hasked
  · split
    · exact (Runs.pure _ _).post hasked
    · split
      · refine .bind ((emit_runs [.create n] _).post ((Runs.pure _ _).post ?_))
        exact trans_of (Within n) hasked (within_emitAll (by simp) _)
      · exact (Runs.pure _ _).post hasked

/-! ### Page requests -/

/-- A page that is given has the number that was asked for, and a file. -/
theorem load_given (n : Int16) (s : Env) : Post (Page.load h true n) s
    (fun q t => (∃ p, q = some p ∧ p.pageNum = n) ∧ n ∈ t.files ∧ t.journal = s.journal ∧
      ∀ k, k ≠ n → (k ∈ t.files ↔ k ∈ s.files)) fun _ _ => True := by
  have hfile : n ∈ (s.emitAll (loadEffects n)).files :=
    AList.lookup_isSome.mp (lookup_loadEffects_isSome s.files n)
  have hload : Within n s (s.emitAll (loadEffects n)) := within_emitAll (by simp [loadEffects]) s
  unfold Page.load
  refine .bind ((loadPageBuffer_runs s).post (.bind ((Runs.get _).post (.bind ((Runs.set _ _).post ?_)))))
  dsimp only
  split
  · refine .bind ((within_init n _).mono (fun _ t ht => ?_) fun _ _ _ => trivial)
    have hall := trans_of (Within n) hload ⟨ht.files, ht.kept, ht.journal⟩
    exact (Runs.pure _ t).post ⟨⟨_, rfl, rfl⟩, ht.kept hfile, hall.journal, hall.files⟩
  · split
    · exact (Throws.throw _ _).post trivial
    · exact (Runs.pure _ _).post ⟨⟨_, rfl, rfl⟩, hfile, hload.journal, hload.files⟩

/-- The page files after the page `n` has been given. -/
def Gains (n : Int16) (s t : Env) : Prop := ∀ k, k ∈ t.files ↔ k ∈ s.files ∨ k = n

theorem grants_answered : (answered h .allocated).Grants := fun _ => rfl

theorem serve_granted (hg : h.Grants) (n : Int16) (s : Env) : Post (serve h true n) s
    (fun status t => status = .allocated ∧ Within n s t) fun _ _ => False := by
  have hwithin := within_serve (h := h) true n s
  cases hn : s.files.lookup n with
  | some b =>
    have hx := serve_runs_isSome (s := s) hg true (n := n) (by rw [hn]; rfl)
    exact hx.post ⟨rfl, hwithin.of_runs hx⟩
  | none =>
    have hx := serve_runs_create hg hn
    exact hx.post ⟨rfl, hwithin.of_runs hx⟩

theorem getPage_given (hg : h.Grants) (n : Int16) (s : Env) : Post (getPage h true n) s
    (fun q t => (∃ p, q = some p ∧ p.pageNum = n) ∧ Gains n s t ∧ t.journal = s.journal) fun _ _ => True := by
  unfold getPage
  refine .bind ((serve_granted hg n s).mono (fun status t ht => ?_) fun _ _ hf => hf.elim)
  obtain ⟨rfl, hserve⟩ := ht
  rw [if_pos rfl]
  refine (load_given n t).mono (fun q u hu => ?_) fun _ _ _ => trivial
  obtain ⟨hpage, hfile, hjournal, hfiles⟩ := hu
  refine ⟨hpage, fun k => ?_, hjournal.trans hserve.journal⟩
  by_cases hk : k = n
  · exact iff_of_true (hk ▸ hfile) (.inr hk)
  · rw [hfiles k hk, hserve.files k hk, or_iff_left hk]

/-! ### Programs on a page -/

/-- The writer is on the page it was on, and no page file has come or gone. -/
structure OnPage (s t : Env) : Prop where
  files : ∀ k, k ∈ t.files ↔ k ∈ s.files
  page : t.journal.curPage.map Page.pageNum = s.journal.curPage.map Page.pageNum
  isWriting : t.journal.isWriting = s.journal.isWriting
  expired : t.journal.expired = s.journal.expired

instance : Std.Refl OnPage := ⟨fun _ => ⟨fun _ => .rfl, rfl, rfl, rfl⟩⟩

instance : IsTrans Env OnPage := ⟨fun _ _ _ h₁ h₂ =>
  ⟨fun k => (h₂.files k).trans (h₁.files k), h₂.page.trans h₁.page, h₂.isWriting.trans h₁.isWriting,
    h₂.expired.trans h₁.expired⟩⟩

theorem OnPage.of_eq (hfiles : t.files = s.files) (hjournal : t.journal = s.journal) : OnPage s t :=
  ⟨fun _ => by rw [hfiles], by rw [hjournal], by rw [hjournal], by rw [hjournal]⟩

theorem onPage_emit (hes : ∀ k, .create k ∉ es) : Keeps OnPage (emit es) :=
  .modify fun _ => ⟨fun k => Files.mem_execAll (hes k), rfl, rfl, rfl⟩

theorem onPage_getNanoTime : Keeps OnPage (getNanoTime h) := fun s => (getNanoTime_runs s).post (.of_eq rfl rfl)

theorem onPage_setCurPage {q q' : Page} (hcur : s.journal.curPage = some q) (hno : q'.pageNum = q.pageNum) :
    OnPage s (s.setCurPage (some q')) := by
  refine ⟨fun _ => .rfl, ?_, rfl, rfl⟩
  show some q'.pageNum = _
  rw [hcur, hno]
  rfl

theorem passWrittenFrame_pageNum {b : Mem} {q : Page} (hscan : p.passWrittenFrame b = some q) :
    q.pageNum = p.pageNum := by
  unfold Page.passWrittenFrame at hscan
  refine whileLoop_invariant (P := fun q : Page => q.pageNum = p.pageNum) ?_ rfl hscan
  exact fun _ hs _ => hs

theorem onPage_scanCurPage : Keeps OnPage (scanCurPage fun b p => p.passWrittenFrame b) := by
  unfold scanCurPage
  refine .get fun s => ?_
  split
  · exact (Runs.pure _ s).post (refl_of _ s)
  · rename_i p hcur
    split
    · rename_i q hscan
      exact (setCurPage_runs _ s).post (onPage_setCurPage hcur (passWrittenFrame_pageNum hscan))
    · exact (Throws.throw _ s).post (refl_of _ s)

theorem onPage_locateWritableFrame : Keeps OnPage Journal.locateWritableFrame := by
  unfold Journal.locateWritableFrame
  refine .get fun s => ?_
  split
  · exact (Throws.throw _ s).post (refl_of _ s)
  · rename_i p hcur
    dsimp only
    split
    · exact (Throws.throw _ s).post (refl_of _ s)
    · rename_i q hscan
      refine .bind ((setCurPage_runs _ s).post ((Runs.pure _ _).post ?_))
      exact onPage_setCurPage hcur (passWrittenFrame_pageNum hscan)

theorem onPage_passFrame : Keeps OnPage Journal.passFrame := by
  unfold Journal.passFrame
  refine .get fun s => ?_
  split
  · exact (Throws.throw _ s).post (refl_of _ s)
  · rename_i p hcur
    exact (setCurPage_runs _ s).post (onPage_setCurPage hcur rfl)

theorem onPage_curPageNum : Keeps OnPage JournalWriter.curPageNum := by
  unfold JournalWriter.curPageNum
  refine .get fun s => ?_
  split
  · exact (Throws.throw _ s).post (refl_of _ s)
  · exact (Runs.pure _ s).post (refl_of _ s)

theorem frames_create (n k : Int16) (a : ℕ) (ss : List FrameStore) : .create k ∉ ss.map (Effect.frame n a) := by
  simp

theorem onPage_copyData (frame : ℕ) (data : List UInt8) : Keeps OnPage (JournalWriter.copyData frame data) := by
  unfold JournalWriter.copyData
  exact onPage_curPageNum.bind fun n => onPage_emit fun k => frames_create n k frame [.data data]

theorem onPage_writerPassFrame (frame length : ℕ) (msgType : Int16) (lastFlag : UInt8) :
    Keeps OnPage (JournalWriter.passFrame h frame length msgType lastFlag) := by
  unfold JournalWriter.passFrame
  refine onPage_curPageNum.bind fun n => .get fun s => ?_
  exact ((onPage_emit fun k => frames_create n k frame _).bind fun _ => onPage_passFrame) s

/-! ### Getting to a page -/

/-- The writer has come to the page `n`, which may be a new one. -/
structure Arrived (n : Int16) (s t : Env) : Prop where
  page : t.journal.curPage.map Page.pageNum = some n
  files : Gains n s t
  isWriting : t.journal.isWriting = true
  expired : t.journal.expired = false

/-- The writer has been given no page. -/
structure Lost (s t : Env) : Prop where
  page : t.journal.curPage = none
  files : ∀ k, k ∈ t.files ↔ k ∈ s.files
  isWriting : t.journal.isWriting = true

theorem Arrived.onPage (ha : Arrived n s t) (ho : OnPage t u) : Arrived n s u where
  page := ho.page.trans ha.page
  files k := (ho.files k).trans (ha.files k)
  isWriting := ho.isWriting.trans ha.isWriting
  expired := ho.expired.trans ha.expired

/-- A request that is not granted throws or gives no page. -/
theorem getPage_refused (hst : status ≠ .allocated) (n : Int16) (s : Env) :
    Post (getPage (answered h status) true n) s (fun q t => q = none ∧ t.files = s.files ∧ t.journal = s.journal)
      fun _ _ => True := by
  have hk : (answered h status).refuse s.asked = some status := if_neg hst
  by_cases hm : status = .moreThanOneWrite
  · subst hm
    exact (getPage_throws hk true).post trivial
  · exact (getPage_runs_none hk hst hm true).post ⟨rfl, rfl, rfl⟩

theorem seekTime_arrived (hw : s.journal.isWriting = true) :
    Post (Journal.seekTime (answered h .allocated) timeToLast) s
      (fun _ t => Arrived (Journal.lastPageNum s.files) s t) fun _ _ => True := by
  obtain ⟨hfiles, -, hjournal, -⟩ := s.releaseCur_eq
  unfold Journal.seekTime Journal.seekPage
  refine .bind ((releaseCurPage_runs s).post (.bind (.bind ((Runs.get _).post ?_))))
  rw [if_pos rfl, hfiles, hjournal, hw]
  refine .bind ((getPage_given grants_answered _ _).mono (fun q t ht => ?_) fun _ _ _ => trivial)
  obtain ⟨⟨p, rfl, hno⟩, hgains, hkept⟩ := ht
  unfold Gains at hgains
  simp only [hfiles] at hgains
  refine .bind ((setCurPage_runs _ t).post ((onPage_scanCurPage _).mono (fun _ u hu => ?_) fun _ _ _ => trivial))
  refine .bind ((Runs.get u).post (.bind ((Runs.set u _).post ((Runs.pure _ _).post ?_))))
  have hpage : u.journal.curPage.map Page.pageNum = some (Journal.lastPageNum s.files) := by
    rw [hu.page, ← hno]
    rfl
  refine ⟨hpage, fun k => (hu.files k).trans (hgains k), ?_, ?_⟩
  · refine hu.isWriting.trans ?_
    show t.journal.isWriting = true
    rw [hkept, hjournal, hw]
  · show u.journal.curPage.isNone = false
    cases hcur : u.journal.curPage with
    | none =>
      rw [hcur] at hpage
      cases hpage
    | some q => rfl

theorem seekTime_lost (hw : s.journal.isWriting = true) (hst : status ≠ .allocated) :
    Post (Journal.seekTime (answered h status) timeToLast) s (fun _ t => Lost s t ∧ t.journal.expired = true)
      fun _ _ => True := by
  obtain ⟨hfiles, -, hjournal, -⟩ := s.releaseCur_eq
  unfold Journal.seekTime Journal.seekPage
  refine .bind ((releaseCurPage_runs s).post (.bind (.bind ((Runs.get _).post ?_))))
  rw [if_pos rfl, hfiles, hjournal, hw]
  refine .bind ((getPage_refused hst _ _).mono (fun q t ht => ?_) fun _ _ _ => trivial)
  obtain ⟨rfl, hkept, hsame⟩ := ht
  have hscan : Runs (scanCurPage fun b p => p.passWrittenFrame b) (t.setCurPage none) ⟨⟩ (t.setCurPage none) := by
    unfold scanCurPage
    exact (Runs.get _).bind (Runs.pure _ _)
  refine .bind ((setCurPage_runs _ t).post (hscan.post ?_))
  refine .bind ((Runs.get _).post (.bind ((Runs.set _ _).post ((Runs.pure _ _).post ?_))))
  refine ⟨⟨rfl, fun k => ?_, ?_⟩, rfl⟩
  · show k ∈ t.files ↔ _
    rw [hkept, hfiles]
  · show t.journal.isWriting = true
    rw [hsame, hjournal, hw]

/-- The writer leaves its page, if it has one, for what it is given. -/
theorem loadNextPage_post (hw : s.journal.isWriting = true) (hexp : s.journal.expired = false)
    {Q : Option Page → Set Int16 → Prop} (hget : Post (getPage h true (nextPageNum s.journal.curPage)) s
      (fun q t => Q q {k | k ∈ t.files} ∧ t.journal = s.journal) fun _ _ => True) :
    Post (Journal.loadNextPage h) s (fun _ t => Q t.journal.curPage {k | k ∈ t.files} ∧
      t.journal.isWriting = true ∧ t.journal.expired = false) fun _ _ => True := by
  unfold Journal.loadNextPage
  refine .bind ((Runs.get s).post ?_)
  rw [hexp, hw]
  simp only [Bool.false_eq_true, if_false, if_true]
  cases hcur : s.journal.curPage with
  | none =>
    rw [hcur] at hget
    refine .bind (hget.mono (fun q t ht => ?_) fun _ _ _ => trivial)
    obtain ⟨hq, hjournal⟩ := ht
    refine (setCurPage_runs q t).post ⟨hq, ?_, ?_⟩
    · exact (congrArg Journal.isWriting hjournal).trans hw
    · exact (congrArg Journal.expired hjournal).trans hexp
  | some p =>
    rw [hcur] at hget
    refine .bind (hget.mono (fun q t ht => ?_) fun _ _ _ => trivial)
    obtain ⟨hq, hjournal⟩ := ht
    refine .bind ((finishPage_runs p t).post (.bind ((releasePage_runs p _).post ((setCurPage_runs q _).post ?_))))
    have hfinish : ∀ nano a b, {k | k ∈ execAll t.files (finishEffects p.pageNum p.frame nano a b)} =
        {k | k ∈ t.files} := fun nano a b =>
      Set.ext fun k => Files.mem_execAll (by simp [finishEffects, Frame.setStatusPageClosed])
    refine ⟨(hfinish _ _ _).symm ▸ hq, ?_, ?_⟩
    · exact (congrArg Journal.isWriting hjournal).trans hw
    · exact (congrArg Journal.expired hjournal).trans hexp

theorem loadNextPage_arrived (hw : s.journal.isWriting = true) (hexp : s.journal.expired = false) :
    Post (Journal.loadNextPage (answered h .allocated)) s
      (fun _ t => Arrived (nextPageNum s.journal.curPage) s t) fun _ _ => True := by
  have hpost := loadNextPage_post (h := answered h .allocated) hw hexp (Q := fun q fs =>
    q.map Page.pageNum = some (nextPageNum s.journal.curPage) ∧
      ∀ k, k ∈ fs ↔ k ∈ s.files ∨ k = nextPageNum s.journal.curPage) ?_
  · refine hpost.mono (fun _ t ht => ?_) fun _ _ _ => trivial
    obtain ⟨⟨hpage, hfiles⟩, hw', hexp'⟩ := ht
    exact ⟨hpage, hfiles, hw', hexp'⟩
  · refine (getPage_given grants_answered _ s).mono (fun q t ht => ?_) fun _ _ _ => trivial
    obtain ⟨⟨p, rfl, hno⟩, hgains, hjournal⟩ := ht
    exact ⟨⟨congrArg some hno, hgains⟩, hjournal⟩

theorem loadNextPage_lost (hw : s.journal.isWriting = true) (hexp : s.journal.expired = false)
    (hst : status ≠ .allocated) : Post (Journal.loadNextPage (answered h status)) s
      (fun _ t => Lost s t ∧ t.journal.expired = false) fun _ _ => True := by
  have hpost := loadNextPage_post (h := answered h status) hw hexp (Q := fun q fs =>
    q = none ∧ ∀ k, k ∈ fs ↔ k ∈ s.files) ?_
  · refine hpost.mono (fun _ t ht => ?_) fun _ _ _ => trivial
    obtain ⟨⟨hpage, hfiles⟩, hw', hexp'⟩ := ht
    exact ⟨⟨hpage, hfiles, hw'⟩, hexp'⟩
  · refine (getPage_refused hst _ s).mono (fun q t ht => ?_) fun _ _ _ => trivial
    obtain ⟨rfl, hfiles, hjournal⟩ := ht
    exact ⟨⟨rfl, fun k => by rw [← hfiles]; rfl⟩, hjournal⟩

end Yijinjing.Served
