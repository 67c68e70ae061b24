import Yijinjing.Journal.Books
import Yijinjing.Journal.Seek

/-!
# The calls of a writer keep the books

`SoundAt s rows`: all stores up to the state `s` have kept the books, the frames of the pages are `rows`,
and the cursor of the writer has passed frames of its page.  Every function of a writer keeps that
whatever its page requests are answered with and whether it returns or throws; only `write_frame` and
`passFrame` add a frame, and they do so at the frame that `locateFrame` has found.
-/

namespace Yijinjing

open Lib Prog

/-! ### The cursor of a writer -/

/-- The page is mapped from a file, and the cursor has passed the first of its frames. -/
structure CursorAt (fs : Files) (rows : Rows) (p : Page) : Prop where
  file : (fs.lookup p.pageNum).isSome
  passed : ∃ ss ts, rows p.pageNum = ss ++ ts ∧ p = Page.after p.buffer p.pageNum ss

structure SoundAt (s : Env) (rows : Rows) : Prop where
  entered : Entered ∅ (fun _ => []) s.trace s.files rows
  isWriting : s.journal.isWriting = true
  cursor : ∀ p, s.journal.curPage = some p → CursorAt s.files rows p

/-- The program adds no frame and loses no file. -/
structure Stays (rows : Rows) (s t : Env) : Prop where
  sound : SoundAt s rows → SoundAt t rows
  files : ∀ n, (s.files.lookup n).isSome → (t.files.lookup n).isSome
  expired : t.journal.expired = s.journal.expired

instance (rows : Rows) : Std.Refl (Stays rows) := ⟨fun _ => ⟨id, fun _ => id, rfl⟩⟩

instance (rows : Rows) : IsTrans Env (Stays rows) := ⟨fun _ _ _ h₁ h₂ =>
  ⟨h₂.sound ∘ h₁.sound, fun n => h₂.files n ∘ h₁.files n, h₂.expired.trans h₁.expired⟩⟩

variable {h : Host} {s t : Env} {rows rows' : Rows} {n : Int16} {p q : Page} {es : List Effect} {a : ℕ}
  {fs : Files} {r : Record}

theorem CursorAt.mono (hc : CursorAt fs rows p) (hgrows : ∀ n, rows n <+: rows' n) (es : List Effect) :
    CursorAt (execAll fs es) rows' p := by
  obtain ⟨ss, ts, hrows, hp⟩ := hc.passed
  obtain ⟨us, hus⟩ := hgrows p.pageNum
  exact ⟨execAll_lookup_isSome es hc.file, ss, ts ++ us, by rw [← hus, hrows, List.append_assoc], hp⟩

theorem SoundAt.booked (hs : SoundAt s rows) : AllBooked s.files rows := hs.entered.rep_end

theorem SoundAt.emitAll (hs : SoundAt s rows) (hes : Entered s.files rows es (execAll s.files es) rows') :
    SoundAt (s.emitAll es) rows' where
  entered := hs.entered.append hes
  isWriting := hs.isWriting
  cursor p hp := (hs.cursor p hp).mono hes.grows es

/-- A change of what the books do not depend on. -/
theorem SoundAt.congr (hs : SoundAt s rows) (htrace : t.trace = s.trace) (hfiles : t.files = s.files)
    (hjournal : t.journal = s.journal) : SoundAt t rows where
  entered := by
    rw [htrace, hfiles]
    exact hs.entered
  isWriting := by rw [hjournal, hs.isWriting]
  cursor p hp := by
    rw [hfiles]
    exact hs.cursor p (hjournal ▸ hp)

theorem SoundAt.setCurPage {q : Option Page} (hs : SoundAt s rows)
    (hq : ∀ p, q = some p → CursorAt s.files rows p) : SoundAt (s.setCurPage q) rows :=
  ⟨hs.entered, hs.isWriting, hq⟩

theorem Stays.cursor (hst : Stays rows s t) (hc : CursorAt s.files rows p) : CursorAt t.files rows p :=
  ⟨hst.files _ hc.file, hc.passed⟩

/-- A change of what the books do not depend on. -/
theorem Stays.of_eq (htrace : t.trace = s.trace) (hfiles : t.files = s.files)
    (hjournal : t.journal = s.journal) : Stays rows s t :=
  ⟨fun hs => hs.congr htrace hfiles hjournal, fun n hn => by rwa [hfiles], by rw [hjournal]⟩

/-! ### Programs that add no frame -/

theorem stays_emitAll (hes : ∀ fs, AllBooked fs rows → Entered fs rows es (execAll fs es) rows) (s : Env) :
    Stays rows s (s.emitAll es) :=
  ⟨fun hs => hs.emitAll (hes s.files hs.booked), fun _ hn => execAll_lookup_isSome es hn, rfl⟩

theorem stays_emit (hes : ∀ fs, AllBooked fs rows → Entered fs rows es (execAll fs es) rows) :
    Keeps (Stays rows) (emit es) := .modify (stays_emitAll hes)

theorem stays_getNanoTime : Keeps (Stays rows) (getNanoTime h) := fun s =>
  (getNanoTime_runs s).post (.of_eq rfl rfl rfl)

theorem stays_releaseCurPage : Keeps (Stays rows) Journal.releaseCurPage := fun s => by
  obtain ⟨hfiles, -, hjournal, htrace⟩ := s.releaseCur_eq
  exact (releaseCurPage_runs s).post (.of_eq htrace hfiles hjournal)

theorem stays_serve : Keeps (Stays rows) (serve h true n) := by
  unfold serve
  refine .get fun s => .bind ((Runs.set s { s with asked := s.asked + 1 }).post ?_)
  have hasked : Stays rows s { s with asked := s.asked + 1 } := .of_eq rfl rfl rfl
  cases h.refuse s.asked with
  | some status => exact (Runs.pure _ _).post hasked
  | none =>
    dsimp only
    split
    · exact (Runs.pure _ _).post hasked
    · refine .bind ((emit_runs [.create n] _).post ((Runs.pure _ _).post ?_))
      exact trans_of _ hasked (stays_emitAll (fun _ hk => entered_create hk n) _)

theorem stays_init : Keeps (Stays rows) ( Page.initialize h n) := by
  unfold Page.initialize
  have hinit : ∀ t, ∀ ss : List HeaderStore, (∀ x ∈ ss, x ∈ initStores h n t) →
      Keeps (Stays rows) (emit (ss.map (.header n))) :=
    fun t ss hss => stays_emit fun fs hk => entered_init hk hss
  refine (hinit 0 [.journalName h.nameBytes] (by simp [initStores])).bind fun _ => ?_
  refine stays_getNanoTime.bind fun nano => ?_
  exact hinit nano [.startNano nano, .closeNano (-1), .pageNum n, .status journalPageStatusInited,
    .frameVersion frameHeaderVersion] (by simp [initStores])

/-! ### Getting a page -/

/-- A page that is given is mapped from its file and stands at its first frame. -/
structure Opened (rows : Rows) (n : Int16) (s : Env) (q : Option Page) (t : Env) : Prop where
  stays : Stays rows s t
  page : ∀ p, q = some p → p.pageNum = n ∧ CursorAt t.files rows p

theorem Stays.opened (hst : Stays rows s t) (m : ℕ) (hn : (t.files.lookup n).isSome) :
    Opened rows n s (some (Page.new m n)) t := by
  refine ⟨hst, fun p hp => ?_⟩
  obtain rfl := Option.some.inj hp
  exact ⟨rfl, hn, [], rows n, rfl, rfl⟩

theorem Stays.not_opened (hst : Stays rows s t) : Opened rows n s none t := ⟨hst, fun _ hp => by cases hp⟩

theorem lookup_loadEffects_isSome (fs : Files) (n : Int16) : ((execAll fs (loadEffects n)).lookup n).isSome :=
  (Effect.lastByte n).lookup_isSome (AList.lookup_isSome.mpr (Files.mem_create.mpr (.inl rfl)))

theorem load_opened (s : Env) : Post (Page.load h true n) s (Opened rows n s) fun _ t => Stays rows s t := by
  have hfile := lookup_loadEffects_isSome s.files n
  have hload : Stays rows s (s.emitAll (loadEffects n)) := stays_emitAll (fun _ hk => entered_load hk n) s
  have hmap : Stays rows (s.emitAll (loadEffects n))
      { s.emitAll (loadEffects n) with mapped := (s.emitAll (loadEffects n)).mapped + 1 } :=
    .of_eq rfl rfl rfl
  have hmapped := trans_of (Stays rows) hload hmap
  unfold Page.load
  refine .bind ((loadPageBuffer_runs s).post (.bind ((Runs.get _).post (.bind ((Runs.set _ _).post ?_)))))
  dsimp only
  split
  · refine .bind ((stays_init _).mono (fun _ u hu => ?_) fun _ u hu => trans_of _ hmapped hu)
    exact (Runs.pure _ u).post ((trans_of _ hmapped hu).opened _ (hu.files n hfile))
  · split
    · exact (Throws.throw _ _).post hmapped
    · exact (Runs.pure _ _).post (hmapped.opened _ hfile)

theorem getPage_opened (s : Env) : Post (getPage h true n) s (Opened rows n s) fun _ t => Stays rows s t := by
  unfold getPage
  refine .bind ((stays_serve s).mono (fun status t ht => ?_) fun _ _ ht => ht)
  split
  · exact (load_opened t).mono (fun q u hu => ⟨trans_of _ ht hu.stays, hu.page⟩) fun _ u hu => trans_of _ ht hu
  · split
    · exact (Throws.throw _ t).post ht
    · exact (Runs.pure _ t).post ht.not_opened

/-! ### Moving along the frames -/

/-- The cursor stands behind all frames of its page. -/
structure AtEnd (s : Env) (rows : Rows) (p : Page) : Prop where
  curPage : s.journal.curPage = some p
  passed : p = Page.after p.buffer p.pageNum (rows p.pageNum)

/-- `passWrittenFrame` goes behind the last frame. -/
theorem CursorAt.passWrittenFrame (hc : CursorAt fs rows p) (hk : AllBooked fs rows) :
    p.passWrittenFrame (fs.buffer p.pageNum) =
      some (Page.after p.buffer p.pageNum (rows p.pageNum)) := by
  obtain ⟨ss, ts, hrows, hp⟩ := hc.passed
  have hb := hk p.pageNum
  have hend := hb.not_written
  obtain ⟨hchain, hlt⟩ := And.intro hb.chain hb.end_lt
  rw [hrows] at hchain hlt hend ⊢
  have hscan := Page.passWrittenFrame_of_lt (m := p.buffer) (n := p.pageNum) hchain hlt hend
  rwa [← hp] at hscan

/-- A page without PAGE_END has room, or is full. -/
theorem Booked.isWritable {b : Mem} {rs : List Record} (hb : Booked b rs) (m : ℕ) (n : Int16) :
    (Page.after m n rs).isWritable b = true ↔ HasRoom (pageInitPosition + framesSize rs) := by
  have hroom : (Page.after m n rs).position + pageMinHeadroom < journalPageSize ↔
      HasRoom (pageInitPosition + framesSize rs) := by
    unfold Page.after HasRoom
    dsimp only
    omega
  unfold Page.isWritable
  rw [Bool.and_eq_true, decide_eq_true_eq, hroom, beq_iff_eq]
  refine ⟨And.right, fun hr => ⟨?_, hr⟩⟩
  rcases hb.status with hraw | hend
  · exact hraw
  · exact absurd hr (hb.full hend)

theorem stays_setCurPage (s : Env) {q : Option Page} (hq : ∀ p, q = some p → SoundAt s rows → CursorAt s.files rows p) :
    Stays rows s (s.setCurPage q) :=
  ⟨fun hs => hs.setCurPage fun p hp => hq p hp hs, fun _ hn => hn, rfl⟩

theorem stays_scanCurPage : Keeps (Stays rows) (scanCurPage fun b p => p.passWrittenFrame b) := by
  unfold scanCurPage
  refine .get fun s => ?_
  split
  · exact (Runs.pure _ s).post (refl_of _ s)
  · rename_i p hcur
    split
    · rename_i q hscan
      refine (setCurPage_runs _ s).post (stays_setCurPage s fun q' hq' hs => ?_)
      obtain rfl := Option.some.inj hq'
      have hc := hs.cursor p hcur
      obtain rfl := Option.some.inj ((hc.passWrittenFrame hs.booked).symm.trans hscan)
      exact ⟨hc.file, rows p.pageNum, [], (List.append_nil _).symm, rfl⟩
    · exact (Throws.throw _ s).post (refl_of _ s)

/-! ### `seekTime` to the last page -/

theorem stays_seekPage (hs : SoundAt s rows) :
    Post (Journal.seekPage h timeToLast) s (fun _ t => Stays rows s t) fun _ t => Stays rows s t := by
  unfold Journal.seekPage
  refine .bind ((Runs.get s).post ?_)
  rw [if_pos rfl, hs.isWriting]
  refine .bind ((getPage_opened s).mono (fun q t ht => ?_) fun _ t ht => ht)
  refine .bind ((setCurPage_runs q t).post ?_)
  have hset := trans_of _ ht.stays (stays_setCurPage t fun p hp _ => (ht.page p hp).2)
  exact (stays_scanCurPage _).mono (fun _ u hu => trans_of _ hset hu) fun _ u hu => trans_of _ hset hu

theorem SoundAt.setExpired (hs : SoundAt s rows) (expired : Bool) : SoundAt (s.setExpired expired) rows :=
  ⟨hs.entered, hs.isWriting, hs.cursor⟩

theorem seekTime_sound (hs : SoundAt s rows) :
    Post (Journal.seekTime h timeToLast) s (fun _ t => SoundAt t rows) fun _ t => SoundAt t rows := by
  unfold Journal.seekTime
  refine .bind ((stays_releaseCurPage s).mono (fun _ t ht => ?_) fun _ _ ht => ht.sound hs)
  refine .bind ((stays_seekPage (ht.sound hs)).mono (fun _ u hu => ?_) fun _ u hu => hu.sound (ht.sound hs))
  refine .bind ((Runs.get u).post (.bind ((Runs.set u _).post ((Runs.pure _ _).post ?_))))
  exact (hu.sound (ht.sound hs)).setExpired _

/-! ### `loadNextPage` -/

/-- `finishPage` on a page without room, behind its last frame. -/
theorem stays_finishPage (hp : p = Page.after p.buffer p.pageNum (rows p.pageNum))
    (hfile : (s.files.lookup p.pageNum).isSome)
    (hfull : ¬ HasRoom (pageInitPosition + framesSize (rows p.pageNum))) :
    ∃ t, Runs (p.finishPage h) s ⟨⟩ t ∧ Stays rows s t := by
  refine ⟨_, finishPage_runs p s, fun hs => ?_, fun _ hn => execAll_lookup_isSome _ hn, rfl⟩
  have hframe : p.frame = pageInitPosition + framesSize (rows p.pageNum) := congrArg Page.frame hp
  have hnum : Int32.ofInt p.frameNum = Int32.ofNat (rows p.pageNum).length :=
    (congrArg (Int32.ofInt ∘ Page.frameNum) hp).trans Int32.ofInt_eq_ofNat
  have hpos : Int32.ofInt p.position = Int32.ofNat (pageInitPosition + framesSize (rows p.pageNum)) :=
    (congrArg (Int32.ofInt ∘ Page.position) hp).trans Int32.ofInt_eq_ofNat
  have htick : SoundAt { s with tick := s.tick + 1 } rows := hs.congr rfl rfl rfl
  rw [hframe, hnum, hpos]
  exact htick.emitAll (entered_finish hs.booked hfile (h.clock s.tick) hfull)

/-- The writer leaves a page without room for the next one. -/
theorem loadNextPage_sound (hs : SoundAt s rows) (hp : AtEnd s rows p) (hexp : s.journal.expired = false)
    (hfull : ¬ HasRoom (pageInitPosition + framesSize (rows p.pageNum))) :
    Post (Journal.loadNextPage h) s
      (fun _ t => SoundAt t rows ∧ t.journal.expired = false ∧
        ∀ q, t.journal.curPage = some q → q.pageNum = p.pageNum + 1)
      fun _ t => SoundAt t rows := by
  unfold Journal.loadNextPage
  refine .bind ((Runs.get s).post ?_)
  rw [hexp, hp.curPage]
  simp only [hs.isWriting, Bool.false_eq_true, if_false, if_true]
  refine .bind ((getPage_opened s).mono (fun q t ht => ?_) fun _ t ht => ht.sound hs)
  have hfile := ht.stays.files _ (hs.cursor p hp.curPage).file
  obtain ⟨u, hfinish, hu⟩ := stays_finishPage (h := h) hp.passed hfile hfull
  obtain ⟨v, hrelease, hv⟩ : ∃ v, Runs (releasePage p) u ⟨⟩ v ∧ Stays rows u v :=
    ⟨_, releasePage_runs p u, .of_eq rfl rfl rfl⟩
  have huv := trans_of _ hu hv
  have hset := stays_setCurPage v (q := q) fun q' hq' _ => huv.cursor (ht.page q' hq').2
  have hall := trans_of _ ht.stays (trans_of _ huv hset)
  refine .bind (hfinish.post (.bind (hrelease.post ((setCurPage_runs q v).post ?_))))
  exact ⟨hall.sound hs, hall.expired.trans hexp, fun q' hq' => (ht.page q' hq').1⟩

/-! ### `locateFrame` -/

/-- Where the next frame goes: behind the written frames of the first page with room, from this one on. -/
def framePosition (fs : Files) : ℕ → Page → ℕ
  | 0, _ => 0
  | fuel + 1, p =>
    match p.passWrittenFrame (fs.buffer p.pageNum) with
    | none => 0
    | some q =>
      if q.isWritable (fs.buffer q.pageNum) then q.frame
      else framePosition fs fuel (Page.new q.buffer (q.pageNum + 1))

/-- The same, from the frames of the pages. -/
def rowPosition (rows : Rows) : ℕ → Int16 → ℕ
  | 0, _ => 0
  | fuel + 1, n =>
    if HasRoom (pageInitPosition + framesSize (rows n)) then pageInitPosition + framesSize (rows n)
    else rowPosition rows fuel (n + 1)

/-- On a page with right books, `framePosition` only looks where the frames end. -/
theorem framePosition_succ (hk : AllBooked fs rows) {ss ts : List Record} (hrows : rows n = ss ++ ts) (m fuel : ℕ) :
    framePosition fs (fuel + 1) (Page.after m n ss) =
      if HasRoom (pageInitPosition + framesSize (rows n)) then pageInitPosition + framesSize (rows n)
      else framePosition fs fuel (Page.after m (n + 1) []) := by
  have hb := hk n
  have hscan : (Page.after m n ss).passWrittenFrame (fs.buffer n) = some (Page.after m n (rows n)) := by
    have hend := hb.not_written
    obtain ⟨hchain, hlt⟩ := And.intro hb.chain hb.end_lt
    rw [hrows] at hchain hlt hend ⊢
    exact Page.passWrittenFrame_of_lt hchain hlt hend
  have hwritable := hb.isWritable m n
  rw [framePosition]
  have hscan' : (Page.after m n ss).passWrittenFrame (fs.buffer (Page.after m n ss).pageNum) =
      some (Page.after m n (rows n)) := hscan
  simp only [hscan']
  by_cases hroom : HasRoom (pageInitPosition + framesSize (rows n))
  · rw [if_pos hroom]
    exact if_pos (hwritable.mpr hroom)
  · rw [if_neg hroom]
    exact if_neg fun hw => hroom (hwritable.mp hw)

theorem framePosition_eq (hk : AllBooked fs rows) {ss ts : List Record} (hrows : rows n = ss ++ ts) (m fuel : ℕ) :
    framePosition fs fuel (Page.after m n ss) = rowPosition rows fuel n := by
  induction fuel generalizing n ss ts with
  | zero => rfl
  | succ fuel ih =>
    rw [framePosition_succ hk hrows, rowPosition, ih (List.nil_append (rows (n + 1))).symm]

/-- The writer stands at a frame with room, which it goes on with. -/
structure FrameLocated (s : Env) (rows : Rows) (a : ℕ) : Prop where
  sound : SoundAt s rows
  atEnd : ∃ p, AtEnd s rows p ∧ a = pageInitPosition + framesSize (rows p.pageNum)
  hasRoom : HasRoom a

/-- `locateWritableFrame` gives the frame behind the last one, if there is room. -/
theorem locateWritableFrame_sound (hs : SoundAt s rows) (hcur : s.journal.curPage = some p) :
    ∃ t q, Runs Journal.locateWritableFrame s
        (if HasRoom (pageInitPosition + framesSize (rows p.pageNum)) then
          some (pageInitPosition + framesSize (rows p.pageNum)) else none) t ∧
      SoundAt t rows ∧ AtEnd t rows q ∧ q.pageNum = p.pageNum ∧ t.journal.expired = s.journal.expired := by
  have hc := hs.cursor p hcur
  let q := Page.after p.buffer p.pageNum (rows p.pageNum)
  have hset : SoundAt (s.setCurPage (some q)) rows := hs.setCurPage fun q' hq' => by
    obtain rfl := Option.some.inj hq'
    exact ⟨hc.file, rows p.pageNum, [], (List.append_nil _).symm, rfl⟩
  refine ⟨s.setCurPage (some q), q, ?_, hset, ⟨rfl, rfl⟩, rfl, rfl⟩
  unfold Journal.locateWritableFrame
  refine (Runs.get s).bind ?_
  rw [hcur]
  simp only [hc.passWrittenFrame hs.booked]
  refine (setCurPage_runs (some q) s).bind ?_
  have hwritable := (hs.booked p.pageNum).isWritable p.buffer p.pageNum
  by_cases hroom : HasRoom (pageInitPosition + framesSize (rows p.pageNum))
  · rw [if_pos hroom, if_pos (hwritable.mpr hroom)]
    exact Runs.pure _ _
  · rw [if_neg hroom, if_neg fun hw => hroom (hwritable.mp hw)]
    exact Runs.pure _ _

/-- Without a page, the loop of `locateFrame` throws at once. -/
theorem locateFrameLoop_throws (hcur : s.journal.curPage = none) (fuel : ℕ) :
    Throws (Journal.locateFrameLoop h (fuel + 1)) s .nullPage s := by
  have hthrow : Throws Journal.locateWritableFrame s .nullPage s := by
    unfold Journal.locateWritableFrame
    refine (Runs.get s).bind_throws ?_
    rw [hcur]
    exact Throws.throw _ s
  unfold Journal.locateFrameLoop
  exact hthrow.bind _

/-- The loop of `locateFrame` ends at a frame with room, or throws. -/
theorem locateFrameLoop_sound (fuel : ℕ) (hs : SoundAt s rows) (hexp : s.journal.expired = false)
    (hn : ∀ p, s.journal.curPage = some p → p.pageNum = n) :
    Post (Journal.locateFrameLoop h fuel) s (fun a t => FrameLocated t rows a ∧ a = rowPosition rows fuel n)
      fun _ t => SoundAt t rows := by
  induction fuel generalizing s n with
  | zero => exact (Throws.throw _ s).post hs
  | succ fuel ih =>
    cases hcur : s.journal.curPage with
    | none => exact (locateFrameLoop_throws hcur fuel).post hs
    | some p =>
      unfold Journal.locateFrameLoop
      obtain rfl := hn p hcur
      obtain ⟨t, q, hlocate, ht, hq, hno, hexp'⟩ := locateWritableFrame_sound hs hcur
      refine .bind (hlocate.post ?_)
      by_cases hroom : HasRoom (pageInitPosition + framesSize (rows p.pageNum))
      · simp only [if_pos hroom]
        refine (Runs.pure _ t).post ⟨⟨ht, ⟨q, hq, by rw [hno]⟩, hroom⟩, ?_⟩
        rw [rowPosition, if_pos hroom]
      · simp only [if_neg hroom]
        rw [← hno] at hroom
        refine .bind ((loadNextPage_sound ht hq (hexp'.trans hexp) hroom).mono (fun _ u hu => ?_) fun _ _ hu => hu)
        obtain ⟨hsound, hexpired, hnext⟩ := hu
        rw [rowPosition, ← hno, if_neg hroom]
        exact ih hsound hexpired hnext

/-- The position that `locateFrame` comes to. -/
def Env.nextPosition (s : Env) : ℕ :=
  match s.journal.curPage with
  | some p => framePosition s.files Journal.pageFuel p
  | none => 0

theorem SoundAt.nextPosition_eq (hs : SoundAt s rows) (hcur : s.journal.curPage = some p) :
    s.nextPosition = rowPosition rows Journal.pageFuel p.pageNum := by
  obtain ⟨ss, ts, hrows, hp⟩ := (hs.cursor p hcur).passed
  unfold Env.nextPosition
  rw [hcur]
  have hpos := framePosition_eq hs.booked hrows p.buffer Journal.pageFuel
  rwa [← hp] at hpos

theorem rowPosition_lt (rows : Rows) (fuel : ℕ) (n : Int16) :
    rowPosition rows fuel n + pageMinHeadroom < journalPageSize := by
  induction fuel generalizing n with
  | zero =>
    rw [rowPosition, pageMinHeadroom_eq, journalPageSize_eq]
    omega
  | succ fuel ih =>
    rw [rowPosition]
    split
    · assumption
    · exact ih (n + 1)

theorem SoundAt.nextPosition_lt (hs : SoundAt s rows) : s.nextPosition + pageMinHeadroom < journalPageSize := by
  cases hcur : s.journal.curPage with
  | none =>
    unfold Env.nextPosition
    rw [hcur, pageMinHeadroom_eq, journalPageSize_eq]
    dsimp only
    omega
  | some p =>
    rw [hs.nextPosition_eq hcur]
    exact rowPosition_lt rows _ _

/-- `Journal::locateFrame` of a writer. -/
theorem locateFrame_sound (hs : SoundAt s rows) :
    Post (Journal.locateFrame h) s
      (fun c t => SoundAt t rows ∧ ∀ a, c = some a → FrameLocated t rows a ∧ a = s.nextPosition)
      fun _ t => SoundAt t rows := by
  unfold Journal.locateFrame
  refine .bind ((Runs.get s).post ?_)
  cases hexp : s.journal.expired with
  | true => exact (Runs.pure _ s).post ⟨hs, fun a ha => by cases ha⟩
  | false =>
    simp only [hs.isWriting, Bool.false_eq_true, if_false, if_true]
    cases hcur : s.journal.curPage with
    | none => exact ((locateFrameLoop_throws (h := h) hcur 65535).bind _).post hs
    | some p =>
      have hloop := locateFrameLoop_sound (h := h) (n := p.pageNum) Journal.pageFuel hs hexp
        fun q hq => by rw [Option.some.inj (hcur.symm.trans hq)]
      refine .bind (hloop.mono (fun a t ha => ?_) fun _ _ ht => ht)
      refine (Runs.pure _ t).post ⟨ha.1.sound, fun a' ha' => ?_⟩
      obtain rfl := Option.some.inj ha'
      exact ⟨ha.1, ha.2.trans (hs.nextPosition_eq hcur).symm⟩

theorem frameAddress_sound (hs : SoundAt s rows) :
    Post (JournalWriter.frameAddress h) s (fun a t => FrameLocated t rows a ∧ a = s.nextPosition)
      fun _ t => SoundAt t rows := by
  unfold JournalWriter.frameAddress
  refine .bind ((locateFrame_sound hs).mono (fun c t hc => ?_) fun _ _ ht => ht)
  cases c with
  | none => exact (Throws.throw _ t).post hc.1
  | some a => exact (Runs.pure _ t).post (hc.2 a rfl)

/-! ### The calls of `JournalWriter` -/

namespace JournalWriter

theorem seekEnd_sound (hs : SoundAt s rows) :
    Post (seekEnd h) s (fun _ t => SoundAt t rows) fun _ t => SoundAt t rows := by
  unfold seekEnd
  refine .bind ((seekTime_sound hs).mono (fun _ t ht => ?_) fun _ _ ht => ht)
  refine .bind ((locateFrame_sound ht).mono (fun _ u hu => ?_) fun _ _ hu => hu)
  exact (Runs.pure _ u).post hu.1

theorem create_sound (hs : SoundAt s rows) :
    Post (create h) s (fun _ t => SoundAt t rows) fun _ t => SoundAt t rows := by
  have hcreated : SoundAt (created s) rows := ⟨hs.entered, rfl, fun p hp => by cases hp⟩
  unfold create
  exact .bind ((new_runs s).post (seekEnd_sound hcreated))

/-- The data that `write_frame` stores is its own. -/
theorem data_mem_write {autoHash : Bool} {data bs : List UInt8} {nano : Int64} {msgType : Int16} {lastFlag : UInt8}
    (hbs : .data bs ∈ Frame.setMsgType msgType ++ Frame.setLastFlag lastFlag ++
      Frame.setData autoHash data ++ Frame.setNano nano) : bs = data := by
  cases autoHash <;>
    simpa [Frame.setMsgType, Frame.setLastFlag, Frame.setData, Frame.setNano, Frame.setFrameLength,
      Frame.autoHashCode] using hbs

/-- Stores into the fields of the located frame. -/
theorem fields_located (hl : FrameLocated s rows a) (hp : AtEnd s rows p) {ss : List FrameStore}
    (ha : a = pageInitPosition + framesSize (rows p.pageNum)) (hss : ∀ x ∈ ss, x.IsField)
    (hdata : ∀ bs, .data bs ∈ ss → a + basicFrameHeaderLength + bs.length ≤ journalPageSize) :
    FrameLocated (s.emitAll (ss.map (.frame p.pageNum a))) rows a := by
  have hroom := hl.hasRoom
  have h20 : basicFrameHeaderLength = 20 := rfl
  subst ha
  have hlt : pageInitPosition + framesSize (rows p.pageNum) + basicFrameHeaderLength ≤ journalPageSize := by
    unfold HasRoom at hroom
    rw [pageMinHeadroom_eq] at hroom
    omega
  exact ⟨hl.sound.emitAll (entered_fields hl.sound.booked hss hlt hdata), ⟨p, ⟨hp.curPage, hp.passed⟩, rfl⟩,
    hroom⟩

/-- The located frame becomes WRITTEN, and the cursor passes it. -/
theorem complete_sound (hl : FrameLocated s rows a) (hp : AtEnd s rows p)
    (ha : a = pageInitPosition + framesSize (rows p.pageNum))
    (hf : Frame.Filled (s.files.buffer p.pageNum) a r) (hlt : a + r.size < journalPageSize) :
    ∃ t, Runs Journal.passFrame (s.emitAll (Frame.setStatusWritten.map (.frame p.pageNum a))) ⟨⟩ t ∧
      SoundAt t (Function.update rows p.pageNum (rows p.pageNum ++ [r])) := by
  subst ha
  have hfile := (hl.sound.cursor p hp.curPage).file
  have hs := hl.sound.emitAll (entered_written hl.sound.booked hfile hf hlt)
  have hb := hs.booked p.pageNum
  rw [Function.update_self] at hb
  have hpass : p.passFrame
      ((s.emitAll (Frame.setStatusWritten.map (.frame p.pageNum (pageInitPosition + framesSize (rows p.pageNum))))).files.buffer
        p.pageNum) = Page.after p.buffer p.pageNum (rows p.pageNum ++ [r]) := by
    have hfilled := (chain_snoc.mp hb.chain).2.2
    have hpassed := Page.passFrame_of_lt (m := p.buffer) (n := p.pageNum) hfilled hlt
    rwa [← hp.passed] at hpassed
  refine ⟨_, journal_passFrame_runs hp.curPage, hs.setCurPage fun q hq => ?_⟩
  rw [hpass] at hq
  obtain rfl := Option.some.inj hq
  refine ⟨execAll_lookup_isSome _ hfile, rows p.pageNum ++ [r], [], ?_, rfl⟩
  rw [List.append_nil]
  exact Function.update_self ..

/-- The buffer of the page after stores into a frame. -/
theorem buffer_fields (hn : (s.files.lookup n).isSome) (ss : List FrameStore) (a : ℕ) :
    (s.emitAll (ss.map (.frame n a))).files.buffer n = ss.foldl (FrameStore.exec a) (s.files.buffer n) := by
  obtain ⟨b, hb⟩ := Option.isSome_iff_exists.mp hn
  refine Files.buffer_of_lookup ?_
  rw [Env.emitAll_files, lookup_execAll_frame, hb, Files.buffer_of_lookup hb]
  rfl

/-- Stores into the fields of the located frame, and the two statuses. -/
theorem write_sound (hl : FrameLocated s rows a) (hp : AtEnd s rows p)
    (ha : a = pageInitPosition + framesSize (rows p.pageNum)) {ss : List FrameStore} (hss : ∀ x ∈ ss, x.IsField)
    (hdata : ∀ bs, .data bs ∈ ss → a + basicFrameHeaderLength + bs.length ≤ journalPageSize)
    (hf : Frame.Filled (ss.foldl (FrameStore.exec a) (s.files.buffer p.pageNum)) a r)
    (hlt : a + r.size < journalPageSize) :
    ∃ t, Runs Journal.passFrame (s.emitAll ((ss ++ Frame.setStatusWritten).map (.frame p.pageNum a))) ⟨⟩ t ∧
      SoundAt t (Function.update rows p.pageNum (rows p.pageNum ++ [r])) := by
  have hfields := fields_located hl hp ha hss hdata
  have hp' : AtEnd (s.emitAll (ss.map (.frame p.pageNum a))) rows p := ⟨hp.curPage, hp.passed⟩
  rw [← buffer_fields (hl.sound.cursor p hp.curPage).file] at hf
  rw [List.map_append, ← Env.emitAll_emitAll]
  exact complete_sound hfields hp' ha hf hlt

/-- `write_frame` keeps the books if the frame ends inside the page. -/
theorem writeFrame_sound (hs : SoundAt s rows) {data : List UInt8} (msgType : Int16) (lastFlag : UInt8)
    (hlt : s.nextPosition + basicFrameHeaderLength + data.length < journalPageSize) :
    Post (writeFrame h data msgType lastFlag) s (fun _ t => ∃ rows', SoundAt t rows')
      fun _ t => ∃ rows', SoundAt t rows' := by
  have hs' : SoundAt { s with tick := s.tick + 1 } rows := hs.congr rfl rfl rfl
  unfold writeFrame
  refine .bind ((getNanoTime_runs s).post ?_)
  refine .bind ((frameAddress_sound hs').mono (fun a t ha => ?_) fun _ t ht => ⟨rows, ht⟩)
  obtain ⟨hl, hpos⟩ := ha
  obtain ⟨p, hp, hend⟩ := hl.atEnd
  have hnext : a + basicFrameHeaderLength + data.length < journalPageSize := hpos ▸ hlt
  have hdata : ∀ bs, .data bs ∈ Frame.setMsgType msgType ++ Frame.setLastFlag lastFlag ++
      Frame.setData h.autoHash data ++ Frame.setNano (h.clock s.tick) →
      a + basicFrameHeaderLength + bs.length ≤ journalPageSize := fun bs hbs => by
    obtain rfl := data_mem_write hbs
    omega
  have hf := Frame.filled_write (b := t.files.buffer p.pageNum) (a := a) h.autoHash data (h.clock s.tick) msgType
    lastFlag
  obtain ⟨u, hpass, hu⟩ := write_sound hl hp hend isField_write hdata hf (by
    simp only [Record.size]
    omega)
  refine .bind ((curPageNum_runs hp.curPage).post (.bind ((emit_runs _ t).post (.bind (hpass.post ?_)))))
  exact (Runs.pure _ u).post ⟨_, hu⟩

/-- `locateFrame` gives a frame with room. -/
theorem locateFrame_sound (hs : SoundAt s rows) :
    Post (locateFrame h) s (fun a t => FrameLocated t rows a) fun _ t => SoundAt t rows := by
  have hs' : SoundAt { s with tick := s.tick + 1 } rows := hs.congr rfl rfl rfl
  unfold locateFrame
  refine .bind ((getNanoTime_runs s).post ?_)
  refine .bind ((frameAddress_sound hs').mono (fun a t ha => ?_) fun _ t ht => ht)
  obtain ⟨hl, -⟩ := ha
  obtain ⟨p, hp, hend⟩ := hl.atEnd
  have hfield : ∀ x ∈ Frame.setNano (h.clock s.tick), x.IsField := by simp [Frame.setNano, FrameStore.IsField]
  have hnano := fields_located hl hp hend hfield (by simp [Frame.setNano])
  exact .bind ((curPageNum_runs hp.curPage).post (.bind ((emit_runs _ t).post ((Runs.pure _ _).post hnano))))

/-- The user's copy stays inside the page. -/
theorem copyData_sound (hl : FrameLocated s rows a) {data : List UInt8}
    (hlt : a + basicFrameHeaderLength + data.length ≤ journalPageSize) :
    Post (copyData a data) s (fun _ t => FrameLocated t rows a) fun _ t => SoundAt t rows := by
  obtain ⟨p, hp, hend⟩ := hl.atEnd
  have hfield : ∀ x ∈ [FrameStore.data data], x.IsField := by simp [FrameStore.IsField]
  have hdata := fields_located hl hp hend hfield fun bs hbs => by
    simp only [List.mem_singleton, FrameStore.data.injEq] at hbs
    rwa [hbs]
  unfold copyData
  exact .bind ((curPageNum_runs hp.curPage).post ((emit_runs _ s).post hdata))

/-- `passFrame` keeps the books if the frame ends inside the page. -/
theorem passFrame_sound (hl : FrameLocated s rows a) {length : ℕ} (msgType : Int16) (lastFlag : UInt8)
    (hlt : a + basicFrameHeaderLength + length < journalPageSize) :
    Post (passFrame h a length msgType lastFlag) s (fun _ t => ∃ rows', SoundAt t rows')
      fun _ t => ∃ rows', SoundAt t rows' := by
  obtain ⟨p, hp, hend⟩ := hl.atEnd
  let b := s.files.buffer p.pageNum
  -- what the frame holds is what the user has left there
  let data := b.load (a + basicFrameHeaderLength) length
  have hlen : data.length = length := b.length_load _ _
  have hf := Frame.filled_pass h.autoHash (r := ⟨data, Frame.getNano b a, msgType, lastFlag⟩) b msgType lastFlag
    rfl (by simp only [hlen, data])
  have hfield : ∀ x ∈ Frame.setMsgType msgType ++ Frame.setLastFlag lastFlag ++
      Frame.setDataLength h.autoHash b a length, x.IsField := isField_pass
  have hnodata : ∀ bs, .data bs ∈ Frame.setMsgType msgType ++ Frame.setLastFlag lastFlag ++
      Frame.setDataLength h.autoHash b a length → a + basicFrameHeaderLength + bs.length ≤ journalPageSize := by
    intro bs hbs
    cases hauto : h.autoHash <;>
      simp [Frame.setMsgType, Frame.setLastFlag, Frame.setDataLength, Frame.setFrameLength,
        Frame.autoHashCode, hauto] at hbs
  simp only [hlen] at hf
  obtain ⟨u, hpass, hu⟩ := write_sound hl hp hend hfield hnodata hf (by
    simp only [Record.size, hlen]
    omega)
  unfold passFrame
  refine .bind ((curPageNum_runs hp.curPage).post (.bind ((Runs.get s).post ?_)))
  exact .bind ((emit_runs _ s).post (hpass.post ⟨_, hu⟩))

end JournalWriter

end Yijinjing
