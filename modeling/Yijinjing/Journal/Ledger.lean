import Yijinjing.Journal.Calls

/-!
# The ledger of a writer

What a writer does, said on the layout alone: a `Ledger` is the closed pages, the current page and the
clock, and its operations take a clock reading, make room and append a record.  `WriterAt` ties the
state of the program to a ledger.  Here, the functions of `Journal` that a writer uses: changing the
page is `Ledger.rollover` and `locateFrame` is `Ledger.makeRoom`.
-/

namespace Yijinjing

open Lib Prog

structure Ledger where
  closed : List PageLog
  cur : PageLog
  tick : ℕ

namespace Ledger

variable (h : Host) (l : Ledger)

def pages : List PageLog := l.closed ++ [l.cur]

/-- The number of the current page. -/
def curNo : Int16 := pageNo l.closed.length

/-- `getNanoTime` -/
def readClock : Ledger := { l with tick := l.tick + 1 }

/-- `loadNextPage`: the new page takes a clock reading to start, and then the old one to close. -/
def rollover : Ledger := ⟨l.pages, .fresh (h.clock l.tick), l.tick + 2⟩

/-- `locateFrame` -/
def makeRoom : Ledger := if HasRoom l.cur.endPos then l else l.rollover h

/-- The frame becomes WRITTEN. -/
def append (r : Record) : Ledger := { l with cur := l.cur.push r }

/-- `write_frame`, which takes its clock reading before it makes room. -/
def write (data : List UInt8) (msgType : Int16) (lastFlag : UInt8) : Ledger :=
  ((l.readClock).makeRoom h).append ⟨data, h.clock l.tick, msgType, lastFlag⟩

/-- `JournalWriter::create` on a journal with these pages. -/
def reopen (h : Host) (ps : List PageLog) (tick : ℕ) : Ledger :=
  match ps.getLast? with
  | none => ⟨[], .fresh (h.clock tick), tick + 1⟩
  | some p => (Ledger.mk ps.dropLast p tick).makeRoom h

@[simp] theorem pages_mk (ps : List PageLog) (p : PageLog) (k : ℕ) : (mk ps p k).pages = ps ++ [p] := rfl

@[simp] theorem readClock_pages : l.readClock.pages = l.pages := rfl

@[simp] theorem rollover_pages : (l.rollover h).pages = l.pages ++ [.fresh (h.clock l.tick)] := rfl

theorem append_pages (r : Record) : (l.append r).pages = l.closed ++ [l.cur.push r] := rfl

theorem makeRoom_of_hasRoom (hr : HasRoom l.cur.endPos) : l.makeRoom h = l := if_pos hr

theorem makeRoom_of_not_hasRoom (hr : ¬ HasRoom l.cur.endPos) : l.makeRoom h = l.rollover h := if_neg hr

theorem write_of_hasRoom (hr : HasRoom l.cur.endPos) (data : List UInt8) (msgType : Int16) (lastFlag : UInt8) :
    l.write h data msgType lastFlag = l.readClock.append ⟨data, h.clock l.tick, msgType, lastFlag⟩ := by
  unfold write
  rw [makeRoom_of_hasRoom h l.readClock hr]

theorem length_pages_write (hr : HasRoom l.cur.endPos) (data : List UInt8) (msgType : Int16) (lastFlag : UInt8) :
    (l.write h data msgType lastFlag).pages.length = l.pages.length := by
  rw [write_of_hasRoom h l hr]
  simp [append, readClock, pages]

theorem hasRoom_makeRoom : HasRoom (l.makeRoom h).cur.endPos := by
  unfold makeRoom
  split
  · assumption
  · exact hasRoom_pageInitPosition

theorem length_pages : l.pages.length = l.closed.length + 1 := by simp [pages]

theorem reopen_nil (k : ℕ) : reopen h [] k = ⟨[], .fresh (h.clock k), k + 1⟩ := rfl

theorem reopen_concat (ps : List PageLog) (p : PageLog) (k : ℕ) :
    reopen h (ps ++ [p]) k = (mk ps p k).makeRoom h := by
  simp [reopen]

/-! What the operations do to the records. -/

@[simp] theorem allRecords_readClock : allRecords l.readClock.pages = allRecords l.pages := rfl

@[simp] theorem allRecords_makeRoom : allRecords (l.makeRoom h).pages = allRecords l.pages := by
  unfold makeRoom
  split
  · rfl
  · simp

@[simp] theorem allRecords_append (r : Record) :
    allRecords (l.append r).pages = allRecords l.pages ++ [r] := by
  rw [append_pages]
  simp [pages]

@[simp] theorem allRecords_write (data : List UInt8) (msgType : Int16) (lastFlag : UInt8) :
    allRecords (l.write h data msgType lastFlag).pages =
      allRecords l.pages ++ [⟨data, h.clock l.tick, msgType, lastFlag⟩] := by
  simp [write]

@[simp] theorem allRecords_reopen (ps : List PageLog) (k : ℕ) :
    allRecords (reopen h ps k).pages = allRecords ps := by
  rcases List.eq_nil_or_concat ps with rfl | ⟨qs, p, rfl⟩
  · rfl
  · rw [List.concat_eq_append, reopen_concat, allRecords_makeRoom]
    rfl

/-! Filling the first page with frames of the greatest length. -/

/-- A payload of the greatest length. -/
@[irreducible] def greatest : List UInt8 := List.replicate (pageMinHeadroom - basicFrameHeaderLength) 0

theorem size_greatest : basicFrameHeaderLength + greatest.length = pageMinHeadroom := by
  have h20 : basicFrameHeaderLength = 20 := rfl
  have hlen : greatest.length = pageMinHeadroom - basicFrameHeaderLength := by
    unfold greatest
    exact List.length_replicate
  rw [hlen, pageMinHeadroom_eq, h20]

/-- The ledger of a first session that has written `k` greatest frames on the first page. -/
def filling (k : ℕ) : Ledger :=
  ⟨[], ⟨h.clock 0, (List.range k).map fun i => ⟨greatest, h.clock (i + 1), 0, 0⟩⟩, k + 1⟩

theorem filling_endPos (k : ℕ) : (filling h k).cur.endPos = pageInitPosition + k * pageMinHeadroom := by
  have hsizes : ((List.range k).map fun i => Record.size ⟨greatest, h.clock (i + 1), 0, 0⟩) =
      List.replicate k pageMinHeadroom := by
    refine List.eq_replicate_iff.mpr ⟨by simp, fun n hn => ?_⟩
    obtain ⟨i, -, rfl⟩ := List.mem_map.mp hn
    exact size_greatest
  unfold filling PageLog.endPos framesSize
  rw [List.map_map]
  exact congrArg (pageInitPosition + ·) ((congrArg List.sum hsizes).trans (by simp))

/-- The page has room for sixty-three such frames. -/
theorem filling_hasRoom_iff (k : ℕ) : HasRoom (filling h k).cur.endPos ↔ k < 63 := by
  have hpos : pageInitPosition = 137 := rfl
  rw [filling_endPos]
  unfold HasRoom
  rw [pageMinHeadroom_eq, journalPageSize_eq]
  omega

theorem filling_write {k : ℕ} (hk : k < 63) : (filling h k).write h greatest 0 0 = filling h (k + 1) := by
  rw [write_of_hasRoom h _ ((filling_hasRoom_iff h k).mpr hk)]
  unfold filling append readClock PageLog.push
  simp [List.range_succ]

/-- The sixty-fourth goes on the second page, which takes its clock reading after it. -/
theorem filling_full : (filling h 63).write h greatest 0 0 =
    ⟨(filling h 63).pages, ⟨h.clock 65, [⟨greatest, h.clock 64, 0, 0⟩]⟩, 67⟩ := by
  have hroom : ¬ HasRoom (filling h 63).readClock.cur.endPos :=
    fun hr => absurd ((filling_hasRoom_iff h 63).mp hr) (by decide)
  unfold write
  rw [makeRoom_of_not_hasRoom h _ hroom]
  rfl

end Ledger

/-! ### The writer at rest -/

/-- The writer stands at the end of the current page of its ledger. -/
structure WriterAt (s : Env) (l : Ledger) : Prop where
  rep : Settled s.files l.pages
  tick : s.tick = l.tick
  isWriting : s.journal.isWriting = true
  expired : s.journal.expired = false
  curPage : ∃ buffer, s.journal.curPage = some (Page.after buffer l.curNo l.cur.records)

/-- A call that takes the writer from one ledger to another, and the files along. -/
def Moves (ρ : Option Record) {α : Type} (x : JournalM α) (s : Env) (l : Ledger) (a : α) (t : Env)
    (l' : Ledger) : Prop :=
  Calls ρ x s ⟨l.pages, false⟩ a t ⟨l'.pages, false⟩ ∧ WriterAt t l'

variable {h : Host} {s t u : Env} {l l' l'' : Ledger} {ρ : Option Record} {α β : Type}

theorem Moves.bind {x : JournalM α} {f : α → JournalM β} {a : α} {c : β} (hx : Moves ρ x s l a t l')
    (hf : Moves ρ (f a) t l' c u l'') : Moves ρ (x >>= f) s l c u l'' :=
  ⟨hx.1.bind hf.1, hf.2⟩

theorem Moves.runs {x : JournalM α} {a : α} (hx : Moves ρ x s l a t l') : Runs x s a t := hx.1.runs

theorem Moves.silent {x : JournalM α} {a : α} (hw : WriterAt s l) (hx : Runs x s a s) :
    Moves ρ x s l a s l :=
  ⟨.silent hx rfl rfl hw.rep, hw⟩

theorem WriterAt.last (hw : WriterAt s l) : ∃ b, s.files.lookup l.curNo = some b ∧
    PageRep b l.cur journalFrameStatusRaw := hw.rep.last

theorem WriterAt.roomy (hw : WriterAt s l) : Roomy pageInitPosition l.cur.records :=
  hw.rep.ok.roomy l.cur (by simp [Ledger.pages])

theorem setCurPage_self {q : Option Page} (hq : s.journal.curPage = q) : s.setCurPage q = s := by
  subst hq
  rfl

/-- Another program state that differs in nothing the ledger is about. -/
theorem WriterAt.congr (hw : WriterAt s l) (hfiles : t.files = s.files) (htick : t.tick = s.tick)
    (hjournal : t.journal = s.journal) : WriterAt t l where
  rep := hfiles ▸ hw.rep
  tick := htick ▸ hw.tick
  isWriting := hjournal ▸ hw.isWriting
  expired := hjournal ▸ hw.expired
  curPage := hjournal ▸ hw.curPage

theorem getNanoTime_spec (hw : WriterAt s l) :
    Moves ρ (getNanoTime h) s l (h.clock l.tick) { s with tick := s.tick + 1 } l.readClock := by
  refine ⟨.silent ?_ rfl rfl hw.rep, ⟨hw.rep, ?_, hw.isWriting, hw.expired, hw.curPage⟩⟩
  · rw [← hw.tick]
    exact getNanoTime_runs s
  · show s.tick + 1 = l.tick + 1
    rw [hw.tick]

/-! ### `Journal` -/

theorem passWrittenFrame_end {b : Mem} {p : PageLog} {st : UInt8} (hp : PageRep b p st)
    (hroomy : Roomy pageInitPosition p.records) (hst : st ≠ journalFrameStatusWritten) {m : ℕ}
    {n : Int16} {q ts : List Record} (hsplit : p.records = q ++ ts) :
    (Page.after m n q).passWrittenFrame b = some (Page.after m n p.records) := by
  rw [hsplit]
  refine Page.passWrittenFrame_after (hsplit ▸ hp.chain) (hsplit ▸ hroomy) ?_
  have := hp.status
  unfold PageLog.endPos at this
  rw [← hsplit, this]
  exact hst

/-- `locateWritableFrame` at the end of an open page. -/
theorem Journal.locateWritableFrame_runs {b : Mem} {p : PageLog} {buffer : ℕ} {n : Int16}
    (hcur : s.journal.curPage = some (Page.after buffer n p.records)) (hb : s.files.lookup n = some b)
    (hp : PageRep b p journalFrameStatusRaw) (hroomy : Roomy pageInitPosition p.records) :
    Runs Journal.locateWritableFrame s (if HasRoom p.endPos then some p.endPos else none) s := by
  have hbuf : s.files.buffer (Page.after buffer n p.records).pageNum = b := Files.buffer_of_lookup hb
  have hscan := passWrittenFrame_end hp hroomy (by decide) (m := buffer) (n := n)
    (List.append_nil _).symm
  unfold Journal.locateWritableFrame
  refine (Runs.get s).bind ?_
  rw [hcur]
  simp only [hbuf, hscan]
  refine Runs.bind (setCurPage_runs _ s) ?_
  rw [setCurPage_self hcur]
  have hstat : Page.getCurStatus b (Page.after buffer n p.records) = journalFrameStatusRaw := hp.status
  have hpos : (Page.after buffer n p.records).position = (p.endPos : ℤ) := rfl
  have hroom : (Page.after buffer n p.records).isWritable b = decide (HasRoom p.endPos) := by
    unfold Page.isWritable HasRoom
    rw [hstat, hpos, beq_self_eq_true, Bool.true_and]
    exact decide_eq_decide.mpr (by omega)
  rw [hroom]
  simp only [decide_eq_true_eq]
  exact Runs.pure _ s

theorem Journal.locateWritableFrame_spec (hw : WriterAt s l) :
    Moves ρ Journal.locateWritableFrame s l
      (if HasRoom l.cur.endPos then some l.cur.endPos else none) s l := by
  obtain ⟨b, hb, hp⟩ := hw.last
  obtain ⟨buffer, hcur⟩ := hw.curPage
  exact .silent hw (Journal.locateWritableFrame_runs hcur hb hp hw.roomy)

theorem finishPage_runs (p : Page) (s : Env) :
    Runs (p.finishPage h) s ⟨⟩ ({ s with tick := s.tick + 1 }.emitAll
      (finishEffects p.pageNum p.frame (h.clock s.tick) (Int32.ofInt p.frameNum)
        (Int32.ofInt p.position))) := by
  have e : ∀ fs, execAll fs (finishEffects p.pageNum p.frame (h.clock s.tick) (Int32.ofInt p.frameNum)
      (Int32.ofInt p.position)) = execAll (execAll fs ([HeaderStore.closeNano (h.clock s.tick),
        .frameNum (Int32.ofInt p.frameNum), .lastPos (Int32.ofInt p.position)].map (.header p.pageNum)))
      (Frame.setStatusPageClosed.map (.frame p.pageNum p.frame)) := fun fs => by
    unfold finishEffects
    rw [execAll_append]
  unfold Page.finishPage Env.emitAll
  rw [e]
  unfold finishEffects
  rw [← List.append_assoc]
  exact (getNanoTime_runs _).bind ((emit_runs _ _).bind (emit_runs _ _))

/-- `finishPage` on the last page, with the next one initialized behind it. -/
theorem finishPage_calls {ps : List PageLog} {p p' : PageLog} {b : Mem} {m : ℕ}
    (hr : Rep s.files ⟨ps ++ [p], true⟩) (hroom : ¬ HasRoom p.endPos)
    (hb : s.files.lookup (pageNo (ps ++ [p]).length) = some b)
    (hp' : PageRep b p' journalFrameStatusRaw) (hnil : p'.records = []) :
    ∃ t, Calls ρ ((Page.after m (pageNo ps.length) p.records).finishPage h) s
        ⟨ps ++ [p], true⟩ ⟨⟩ t ⟨ps ++ [p] ++ [p'], false⟩ ∧
      t.tick = s.tick + 1 ∧ t.journal = s.journal :=
  ⟨_, .of_runs (finishPage_runs _ s) rfl (publishes_finish hr hroom hb hp' hnil), rfl, rfl⟩

/-- `loadNextPage` of a writer whose page has no room left. -/
theorem Journal.loadNextPage_spec (hg : h.Grants) (hw : WriterAt s l) (hroom : ¬ HasRoom l.cur.endPos)
    (hlt : l.pages.length < maxPages) :
    ∃ t, Moves ρ (Journal.loadNextPage h) s l ⟨⟩ t (l.rollover h) := by
  obtain ⟨buffer, hcur⟩ := hw.curPage
  obtain ⟨t, buffer', b, hget, htick, hjournal, hb, hp⟩ :=
    getPage_next (ρ := ρ) hg hw.rep (by simp [Ledger.pages]) hlt
  rw [hw.tick] at htick hp
  obtain ⟨u, hfin, htick', hjournal'⟩ :=
    finishPage_calls (ρ := ρ) (h := h) (m := buffer) hget.rep_end hroom hb hp rfl
  have hno : (Page.after buffer l.curNo l.cur.records).pageNum + 1 = pageNo l.pages.length := by
    rw [l.length_pages]
    exact pageNo_succ _
  have hrep : Settled u.files (l.rollover h).pages := hfin.rep_end
  let new := Page.after buffer' (pageNo l.pages.length) []
  refine ⟨{ u with released := u.released ++ [buffer] }.setCurPage (some new), ?_, ?_⟩
  · unfold Journal.loadNextPage
    refine Calls.bind (.silent (Runs.get s) rfl rfl hw.rep) ?_
    rw [hw.expired, hcur]
    simp only [hw.isWriting, Bool.false_eq_true, if_false, if_true]
    rw [hno]
    have hfin' : Calls ρ (Page.finishPage h (Page.after buffer l.curNo l.cur.records)) t
        ⟨l.pages, true⟩ ⟨⟩ u ⟨(l.rollover h).pages, false⟩ := hfin
    exact hget.bind (hfin'.bind (.silent ((releasePage_runs _ _).bind (setCurPage_runs _ _)) rfl rfl hrep))
  · refine ⟨hrep, ?_, ?_, ?_, buffer', rfl⟩
    · show u.tick = l.tick + 2
      rw [htick', htick]
    · show u.journal.isWriting = true
      rw [hjournal', hjournal, hw.isWriting]
    · show u.journal.expired = false
      rw [hjournal', hjournal, hw.expired]

/-- `Journal::locateFrame` of a writer whose page has room changes nothing. -/
theorem Journal.locateFrame_hasRoom (hw : WriterAt s l) (hroom : HasRoom l.cur.endPos) :
    Moves ρ (Journal.locateFrame h) s l (some l.cur.endPos) s l := by
  have hfuel : Journal.pageFuel = 65535 + 1 := rfl
  have hfirst := Journal.locateWritableFrame_spec (ρ := ρ) hw
  rw [if_pos hroom] at hfirst
  have hloop : Moves ρ (Journal.locateFrameLoop h Journal.pageFuel) s l l.cur.endPos s l := by
    rw [hfuel]
    unfold Journal.locateFrameLoop
    exact hfirst.bind (.silent hw (Runs.pure _ _))
  unfold Journal.locateFrame
  refine Moves.bind (.silent hw (Runs.get s)) ?_
  simp only [hw.expired, hw.isWriting, Bool.false_eq_true, if_false, if_true]
  exact hloop.bind (.silent hw (Runs.pure _ _))

/-- `Journal::locateFrame` of a writer goes to a frame with room. -/
theorem Journal.locateFrame_spec (hg : h.Grants) (hw : WriterAt s l) (hlt : l.pages.length < maxPages) :
    ∃ t, Moves ρ (Journal.locateFrame h) s l (some (l.makeRoom h).cur.endPos) t (l.makeRoom h) := by
  by_cases hroom : HasRoom l.cur.endPos
  · rw [l.makeRoom_of_hasRoom h hroom]
    exact ⟨s, Journal.locateFrame_hasRoom hw hroom⟩
  · -- the loop changes the page once
    rw [l.makeRoom_of_not_hasRoom h hroom]
    have hfuel : Journal.pageFuel = 65534 + 1 + 1 := rfl
    have hfirst := Journal.locateWritableFrame_spec (ρ := ρ) hw
    rw [if_neg hroom] at hfirst
    obtain ⟨t, hload⟩ := Journal.loadNextPage_spec (ρ := ρ) hg hw hroom hlt
    have hsecond := Journal.locateWritableFrame_spec (ρ := ρ) hload.2
    have hroom' : HasRoom (l.rollover h).cur.endPos := hasRoom_pageInitPosition
    rw [if_pos hroom'] at hsecond
    have hloop : Moves ρ (Journal.locateFrameLoop h Journal.pageFuel) s l (l.rollover h).cur.endPos t
        (l.rollover h) := by
      rw [hfuel]
      unfold Journal.locateFrameLoop
      refine hfirst.bind (hload.bind ?_)
      unfold Journal.locateFrameLoop
      exact hsecond.bind (.silent hload.2 (Runs.pure _ _))
    refine ⟨t, ?_⟩
    unfold Journal.locateFrame
    refine Moves.bind (.silent hw (Runs.get s)) ?_
    simp only [hw.expired, hw.isWriting, Bool.false_eq_true, if_false, if_true]
    exact hloop.bind (.silent hloop.2 (Runs.pure _ _))

end Yijinjing
