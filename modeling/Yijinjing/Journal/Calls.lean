import Yijinjing.Journal.Journal
import Yijinjing.Journal.PageChange

/-!
# The parts of a journal call

`Calls ρ x s v a t w`: the program `x` of a journal call, started in `s` where the page files
represent `v`, returns `a` and ends in `t` where they represent `w`, and the effects it has recorded on
the way lead from one to the other as a script.  The page requests are all granted.
-/

namespace Yijinjing

open Lib Prog

variable {h : Host} {α β : Type} {ρ : Option Record} {s t u : Env} {v v' w : View} {ps : List PageLog}
  {p : PageLog} {b : Mem} {n : Int16}

/-- Every page request is granted. -/
def Host.Grants (h : Host) : Prop := ∀ k, h.refuse k = none

/-- The same host with every page request granted. -/
def Host.granting (h : Host) : Host := { h with refuse := fun _ => none }

/-- Successive readings of the clock never decrease. -/
def Host.Steady (h : Host) : Prop := ∀ m n, m ≤ n → h.clock m ≤ h.clock n

theorem Host.grants_granting (h : Host) : h.granting.Grants := fun _ => rfl

/-- A host with the given clock, which grants every page request. -/
def hostWith (clock : ℕ → Int64) : Host where
  jname := "test".toList
  name_fits := by decide
  autoHash := true
  clock := clock
  refuse _ := none

def Calls (ρ : Option Record) (x : JournalM α) (s : Env) (v : View) (a : α) (t : Env) (w : View) :
    Prop :=
  Runs x s a t ∧ ∃ es, t.trace = s.trace ++ es ∧ Publishes ρ s.files v es t.files w

namespace Calls

variable {x : JournalM α} {f : α → JournalM β} {a : α} {c : β}

theorem runs (hx : Calls ρ x s v a t w) : Runs x s a t := hx.1

theorem rep_end (hx : Calls ρ x s v a t w) : Rep t.files w := by
  obtain ⟨-, es, -, hes⟩ := hx
  exact hes.rep_end

theorem bind (hx : Calls ρ x s v a t v') (hf : Calls ρ (f a) t v' c u w) :
    Calls ρ (x >>= f) s v c u w := by
  obtain ⟨hx, es, htr, hes⟩ := hx
  obtain ⟨hf, es', htr', hes'⟩ := hf
  refine ⟨hx.bind hf, es ++ es', ?_, hes.append hes'⟩
  rw [htr', htr, List.append_assoc]

/-- A program that leaves the files alone. -/
theorem silent (hx : Runs x s a t) (hfiles : t.files = s.files) (htr : t.trace = s.trace)
    (hr : Rep s.files v) : Calls ρ x s v a t v := by
  refine ⟨hx, [], by rw [htr, List.append_nil], ?_⟩
  rw [hfiles]
  exact .done hr

/-- The program is followed by a change of other parts of the state. -/
theorem of_runs {es : List Effect} (hx : Runs x s a t) (htr : t.trace = s.trace ++ es)
    (hes : Publishes ρ s.files v es t.files w) : Calls ρ x s v a t w := ⟨hx, es, htr, hes⟩

end Calls

/-! ### Runs of the pieces -/

section Emit

variable (s : Env) (es : List Effect)

@[simp] theorem Env.emitAll_files : (s.emitAll es).files = execAll s.files es := rfl
@[simp] theorem Env.emitAll_trace : (s.emitAll es).trace = s.trace ++ es := rfl
@[simp] theorem Env.emitAll_tick : (s.emitAll es).tick = s.tick := rfl
@[simp] theorem Env.emitAll_journal : (s.emitAll es).journal = s.journal := rfl

theorem Env.emitAll_emitAll (es' : List Effect) : (s.emitAll es).emitAll es' = s.emitAll (es ++ es') := by
  simp only [Env.emitAll, execAll, List.foldl_append, List.append_assoc]

@[simp] theorem execAll_singleton (fs : Files) (e : Effect) : execAll fs [e] = e.exec fs := rfl

end Emit

theorem emit_runs (es : List Effect) (s : Env) : Runs (emit es) s ⟨⟩ (s.emitAll es) := rfl

theorem setCurPage_runs (q : Option Page) (s : Env) : Runs (setCurPage q) s ⟨⟩ (s.setCurPage q) := rfl

theorem releasePage_runs (q : Page) (s : Env) :
    Runs (releasePage q) s ⟨⟩ { s with released := s.released ++ [q.buffer] } := rfl

theorem getNanoTime_runs (s : Env) :
    Runs (getNanoTime h) s (h.clock s.tick) { s with tick := s.tick + 1 } := rfl

theorem emit_calls {es : List Effect} (hes : Publishes ρ s.files v es (execAll s.files es) w) :
    Calls ρ (emit es) s v ⟨⟩ (s.emitAll es) w :=
  .of_runs (emit_runs es s) rfl hes

theorem serve_runs_isSome (hg : h.Grants) (isWriting : Bool) (hs : (s.files.lookup n).isSome) :
    Runs (serve h isWriting n) s .allocated { s with asked := s.asked + 1 } := by
  unfold serve
  refine (Runs.get s).bind ((Runs.set _ _).bind ?_)
  rw [hg]
  simp only [hs]
  exact Runs.pure _ _

theorem serve_runs_create (hg : h.Grants) (hs : s.files.lookup n = none) :
    Runs (serve h true n) s .allocated ({ s with asked := s.asked + 1 }.emitAll [.create n]) := by
  unfold serve
  refine (Runs.get s).bind ((Runs.set _ _).bind ?_)
  rw [hg]
  simp only [hs]
  exact (emit_runs _ _).bind (Runs.pure _ _)

theorem loadPageBuffer_runs (s : Env) :
    Runs (loadPageBuffer true n) s true (s.emitAll (loadEffects n)) := rfl

/-- The state after a raw page has been mapped and initialized. -/
def Env.opened (s : Env) (h : Host) (n : Int16) : Env :=
  { s.emitAll (openEffects h n (h.clock s.tick)) with mapped := s.mapped + 1, tick := s.tick + 1 }

theorem Env.opened_files (s : Env) :
    (s.opened h n).files = execAll s.files (openEffects h n (h.clock s.tick)) := by
  simp only [Env.opened, Env.emitAll_files]

theorem Env.opened_trace (s : Env) :
    (s.opened h n).trace = s.trace ++ openEffects h n (h.clock s.tick) := by
  simp only [Env.opened, Env.emitAll_trace]

theorem Env.opened_journal (s : Env) : (s.opened h n).journal = s.journal := by
  simp only [Env.opened, Env.emitAll_journal]

/-- `Page::load` in write mode on a raw page. -/
theorem load_runs_raw
    (hraw : PageHeader.status ((execAll s.files (loadEffects n)).buffer n) = journalPageStatusRaw) :
    Runs (Page.load h true n) s (some (Page.new s.mapped n)) (s.opened h n) := by
  -- the effects, as the program makes them
  have e : openEffects h n (h.clock s.tick) = loadEffects n ++ [.header n (.journalName h.nameBytes)] ++
      (initStores h n (h.clock s.tick)).tail.map (.header n) := rfl
  unfold Page.load
  refine (loadPageBuffer_runs s).bind ((Runs.get _).bind ((Runs.set _ _).bind ?_))
  simp only [Env.opened, Env.emitAll, hraw, e, execAll_append, ← List.append_assoc]
  refine Runs.bind (a := ⟨⟩) ?_ (Runs.pure _ _)
  unfold Page.initialize
  exact (emit_runs _ _).bind ((getNanoTime_runs _).bind (emit_runs _ _))

/-- The version check of `Page::load` passes on the pages of a journal. -/
theorem version_ok (hv : PageHeader.frameVersion b = 0 ∨ PageHeader.frameVersion b = frameHeaderVersion) :
    ¬ (0 < PageHeader.frameVersion b ∧ PageHeader.frameVersion b ≠ frameHeaderVersion) := by
  rintro ⟨hpos, hne⟩
  rcases hv with h0 | h2
  · rw [h0] at hpos
    exact absurd hpos (by decide)
  · exact hne h2

theorem status_ne_raw {st : UInt8} (hp : PageRep b p st) :
    (PageHeader.status b == journalPageStatusRaw) = false := by
  rw [hp.inited]
  rfl

/-- `Page::load` in write mode on a page of the journal. -/
theorem load_runs_inited {st : UInt8}
    (hp : PageRep ((s.emitAll (loadEffects n)).files.buffer n) p st) :
    Runs (Page.load h true n) s (some (Page.new s.mapped n))
      { s.emitAll (loadEffects n) with mapped := s.mapped + 1 } := by
  unfold Page.load
  refine (loadPageBuffer_runs s).bind ((Runs.get _).bind ((Runs.set _ _).bind ?_))
  simp only [status_ne_raw hp, Bool.false_eq_true, if_false]
  rw [if_neg (version_ok hp.version)]
  exact Runs.pure _ _

/-- `Page::load` of a reader on a page that is initialized. -/
theorem load_runs_reader (hb : s.files.lookup n = some b)
    (hst : (PageHeader.status b == journalPageStatusRaw) = false)
    (hv : PageHeader.frameVersion b = 0 ∨ PageHeader.frameVersion b = frameHeaderVersion) :
    Runs (Page.load h false n) s (some (Page.new s.mapped n)) { s with mapped := s.mapped + 1 } := by
  have hbuf := Files.buffer_of_lookup hb
  unfold Page.load loadPageBuffer
  refine Runs.bind (a := true) (t := s) ?_ ?_
  · refine (Runs.get _).bind ?_
    rw [hb]
    exact Runs.pure _ _
  · refine (Runs.get _).bind ((Runs.set _ _).bind ?_)
    simp only [hbuf, hst, if_neg (version_ok hv)]
    exact Runs.pure _ _

/-- `Page::load` of a reader on a page that is not. -/
theorem load_runs_reader_raw (hb : s.files.lookup n = some b)
    (hraw : PageHeader.status b = journalPageStatusRaw) :
    Runs (Page.load h false n) s none { s with mapped := s.mapped + 1 } := by
  unfold Page.load loadPageBuffer
  refine Runs.bind (a := true) (t := s) ?_ ?_
  · refine (Runs.get _).bind ?_
    rw [hb]
    exact Runs.pure _ _
  · refine (Runs.get _).bind ((Runs.set _ _).bind ?_)
    simp only [Files.buffer_of_lookup hb, hraw]
    exact Runs.pure _ _

namespace JournalWriter

variable {q : Page}

theorem curPageNum_runs (hcur : s.journal.curPage = some q) : Runs curPageNum s q.pageNum s := by
  unfold curPageNum
  refine (Runs.get s).bind ?_
  rw [hcur]
  exact Runs.pure _ _

theorem curPageNum_throws (hcur : s.journal.curPage = none) : Throws curPageNum s .nullPage s := by
  unfold curPageNum
  refine (Runs.get s).bind_throws ?_
  rw [hcur]
  exact Throws.throw _ _

theorem journal_passFrame_runs (hcur : s.journal.curPage = some q) :
    Runs Journal.passFrame s ⟨⟩ (s.setCurPage (some (q.passFrame (s.files.buffer q.pageNum)))) := by
  unfold Journal.passFrame
  refine (Runs.get s).bind ?_
  rw [hcur]
  exact setCurPage_runs _ _

end JournalWriter

/-! ### `getPage` -/

theorem getPage_runs {isWriting : Bool} {q : Option Page}
    (hs : Runs (serve h isWriting n) s .allocated t) (hl : Runs (Page.load h isWriting n) t q u) :
    Runs (getPage h isWriting n) s q u := by
  unfold getPage
  exact hs.bind hl

/-! ### `getPage` without a page -/

variable {status : CommStatus}

theorem serve_runs_refused (hk : h.refuse s.asked = some status) (isWriting : Bool) :
    Runs (serve h isWriting n) s status { s with asked := s.asked + 1 } := by
  unfold serve
  refine (Runs.get s).bind ((Runs.set _ _).bind ?_)
  rw [hk]
  exact Runs.pure _ _

theorem getPage_throws (hk : h.refuse s.asked = some .moreThanOneWrite) (isWriting : Bool) :
    Throws (getPage h isWriting n) s .moreThanOneWrite { s with asked := s.asked + 1 } := by
  unfold getPage
  exact (serve_runs_refused hk isWriting).bind_throws (Throws.throw _ _)

theorem getPage_runs_none (hk : h.refuse s.asked = some status) (ha : status ≠ .allocated)
    (hm : status ≠ .moreThanOneWrite) (isWriting : Bool) :
    Runs (getPage h isWriting n) s none { s with asked := s.asked + 1 } := by
  unfold getPage
  refine (serve_runs_refused hk isWriting).bind ?_
  rw [if_neg ha, if_neg hm]
  exact Runs.pure _ _

/-- A reader is given no page whose file is missing. -/
theorem getPage_runs_missing (hg : h.Grants) (hb : s.files.lookup n = none) :
    Runs (getPage h false n) s none { s with asked := s.asked + 1 } := by
  unfold getPage
  refine Runs.bind (a := .nonExist) (t := { s with asked := s.asked + 1 }) ?_ (Runs.pure _ _)
  unfold serve
  refine (Runs.get s).bind ((Runs.set _ _).bind ?_)
  rw [hg]
  simp only [hb]
  exact Runs.pure _ _

/-! ### `getPage` with a page -/

/-- A reader gets any page of the journal. -/
theorem getPage_reader (hg : h.Grants) (hr : Rep s.files v) {i : ℕ} (hi : i < v.pages.length) :
    ∃ t buffer, Runs (getPage h false (pageNo i)) s (some (Page.after buffer (pageNo i) [])) t ∧
      t.files = s.files ∧ t.tick = s.tick ∧ t.journal = s.journal := by
  obtain ⟨b, hb, hp⟩ := hr.page i hi
  refine ⟨_, s.mapped, getPage_runs (serve_runs_isSome hg false ?_)
    (load_runs_reader hb (status_ne_raw hp) hp.version), rfl, rfl, rfl⟩
  rw [hb]
  rfl

/-- `Page::load` in write mode on a blank page. -/
theorem load_calls_blank (hb : s.files.lookup n = some b) (hblank : Blank b)
    (hes : Publishes ρ s.files v (openEffects h n (h.clock s.tick))
      (execAll s.files (openEffects h n (h.clock s.tick))) w) :
    ∃ t, Calls ρ (Page.load h true n) s v (some (Page.new s.mapped n)) t w ∧
      t.tick = s.tick + 1 ∧ t.journal = s.journal ∧
      t.files = execAll s.files (openEffects h n (h.clock s.tick)) := by
  have hload := load_runs_raw (h := h) (s := s) (n := n) (by
    rw [Files.buffer_of_lookup (lookup_loadEffects hb)]
    exact (blank_lastByte hblank).raw)
  rw [← s.opened_files] at hes
  exact ⟨s.opened h n, .of_runs hload s.opened_trace hes, rfl, s.opened_journal, s.opened_files⟩

/-- The service makes the file of the page behind the last one. -/
theorem serve_calls_create (ps : List PageLog) (hg : h.Grants) (hr : Settled s.files ps)
    (hlt : ps.length < maxPages) :
    ∃ t, Calls ρ (serve h true (pageNo ps.length)) s ⟨ps, false⟩ .allocated t ⟨ps, true⟩ ∧
      t.tick = s.tick ∧ t.journal = s.journal ∧
      t.files.lookup (pageNo ps.length) = some zeroPage := by
  have hnone : s.files.lookup (pageNo ps.length) = none := by
    rw [← Option.not_isSome_iff_eq_none, hr.lookup_isSome hlt]
    simp [View.numFiles]
  have hnext : Next ρ s.files ⟨ps, false⟩ (.create (pageNo ps.length)) ⟨ps, true⟩ :=
    ⟨.same _, fun ho => Bool.noConfusion ho, .create s.files _ _, fun _ => .create s.files _⟩
  refine ⟨_, .of_runs (serve_runs_create hg hnone) rfl (.single hr hnext (hr.create hlt)), rfl, rfl, ?_⟩
  rw [Env.emitAll_files, execAll_singleton, Files.lookup_create hnone, if_pos rfl]

/-- A writer gets the first page of an empty journal and initializes it. -/
theorem getPage_first (hg : h.Grants) {o : Bool} (hr : Rep s.files ⟨[], o⟩) :
    ∃ t buffer, Calls ρ (getPage h true (pageNo 0)) s ⟨[], o⟩
        (some (Page.after buffer (pageNo 0) [])) t ⟨[.fresh (h.clock s.tick)], false⟩ ∧
      t.tick = s.tick + 1 ∧ t.journal = s.journal := by
  -- what the service leaves
  obtain ⟨t, hserve, htick, hjournal⟩ : ∃ t,
      Calls ρ (serve h true (pageNo 0)) s ⟨[], o⟩ .allocated t ⟨[], true⟩ ∧
      t.tick = s.tick ∧ t.journal = s.journal := by
    cases o with
    | false =>
      obtain ⟨t, hserve, htick, hjournal, -⟩ := serve_calls_create [] hg hr (by decide)
      exact ⟨t, hserve, htick, hjournal⟩
    | true =>
      have hsome := (hr.lookup_isSome (i := 0) (by decide)).mpr (by simp [View.numFiles])
      refine ⟨{ s with asked := s.asked + 1 }, .silent ?_ rfl rfl hr, rfl, rfl⟩
      exact serve_runs_isSome hg true hsome
  have ht := hserve.rep_end
  obtain ⟨b, hb⟩ := Option.isSome_iff_exists.mp
    ((ht.lookup_isSome (i := 0) (by decide)).mpr (by simp [View.numFiles]))
  obtain ⟨u, hload, htick', hjournal', -⟩ :=
    load_calls_blank hb (ht.blank rfl b hb) (publishes_open_first (h := h) ht)
  rw [← htick, ← hjournal]
  exact ⟨u, t.mapped, hserve.bind hload, htick', hjournal'⟩

/-- A writer gets the page behind the last one and initializes it; nobody sees it yet. -/
theorem getPage_next (hg : h.Grants) (hr : Settled s.files ps) (hne : ps ≠ [])
    (hlt : ps.length < maxPages) :
    ∃ t buffer b, Calls ρ (getPage h true (pageNo ps.length)) s ⟨ps, false⟩
        (some (Page.after buffer (pageNo ps.length) [])) t ⟨ps, true⟩ ∧
      t.tick = s.tick + 1 ∧ t.journal = s.journal ∧
      t.files.lookup (pageNo ps.length) = some b ∧
      PageRep b (.fresh (h.clock s.tick)) journalFrameStatusRaw := by
  obtain ⟨t, hserve, htick, hjournal, hb⟩ := serve_calls_create (ρ := ρ) ps hg hr hlt
  obtain ⟨hopen, b, hb', hp⟩ := publishes_open_next (h := h) (t := h.clock t.tick) hserve.rep_end hne
    hb blank_zeroPage startNano_zeroPage
  obtain ⟨u, hload, htick', hjournal', hfiles⟩ := load_calls_blank hb blank_zeroPage hopen
  rw [← htick, ← hjournal]
  exact ⟨u, t.mapped, b, hserve.bind hload, htick', hjournal', hfiles ▸ hb', hp⟩

/-- The zero at the last byte of a page is no change: at most the status behind the last frame is
there. -/
theorem pageRep_lastByte (hp : PageRep b p journalFrameStatusRaw)
    (hroomy : Roomy pageInitPosition p.records) :
    PageRep (b.storeAs (journalPageSize - 1) (0 : UInt8)) p journalFrameStatusRaw := by
  have hlt := PageLog.endPos_lt hroomy
  refine hp.congr fun i _ hi => ?_
  rcases Nat.lt_or_ge i (journalPageSize - 1) with hlt' | hge
  · exact (b.storeAs_outside _ (by omega)).symm
  · obtain rfl : i = journalPageSize - 1 := by omega
    have hend : p.endPos = journalPageSize - 1 := by omega
    rw [b.storeAs_byte, ← hend]
    exact hp.status

/-- Mapping the last page again is not visible. -/
theorem publishes_lastByte {fs : Files} (hr : Settled fs (ps ++ [p])) :
    Publishes ρ fs ⟨ps ++ [p], false⟩ (loadEffects (pageNo ps.length))
      (execAll fs (loadEffects (pageNo ps.length))) ⟨ps ++ [p], false⟩ := by
  have hroomy := hr.ok.roomy p (by simp)
  refine (Script.of_invariant _ _ _ _ (Rep · ⟨ps ++ [p], false⟩) (fun _ h => h) (fun e he m hm => ?_) hr).1
  simp only [loadEffects, List.mem_cons, List.not_mem_nil, or_false] at he
  rcases he with rfl | rfl
  · refine ⟨.same rfl (.create m _ _) fun _ => .create m _, ?_⟩
    obtain ⟨b, hb, -⟩ := hm.last
    rw [Files.exec_create_of_isSome (by rw [hb]; rfl)]
    exact hm
  · -- the last frame ends before the last byte, or right there
    have hlt := PageLog.endPos_lt hroomy
    have hspares : Spares m ⟨ps ++ [p], false⟩ (.lastByte (pageNo ps.length)) :=
      .last hm rfl fun b _ x _ hx => b.storeAs_outside _ (by omega)
    exact ⟨.same rfl hspares fun _ => .lastByte m _, hm.update_last hm.ok fun _ _ hp => pageRep_lastByte hp hroomy⟩

/-- A writer gets the last page again. -/
theorem getPage_last (hg : h.Grants) (hr : Settled s.files (ps ++ [p])) :
    ∃ t buffer, Calls ρ (getPage h true (pageNo ps.length)) s ⟨ps ++ [p], false⟩
        (some (Page.after buffer (pageNo ps.length) [])) t ⟨ps ++ [p], false⟩ ∧
      t.tick = s.tick ∧ t.journal = s.journal := by
  obtain ⟨b, hb, hp⟩ := hr.last
  have hroomy := hr.ok.roomy p (by simp)
  have hserve := serve_runs_isSome (s := s) hg true (n := pageNo ps.length) (by rw [hb]; rfl)
  have hpage : PageRep (({ s with asked := s.asked + 1 }.emitAll
      (loadEffects (pageNo ps.length))).files.buffer (pageNo ps.length)) p journalFrameStatusRaw := by
    have hbuf := Files.buffer_of_lookup (lookup_loadEffects hb)
    exact hbuf.symm ▸ pageRep_lastByte hp hroomy
  exact ⟨_, s.mapped, .of_runs (getPage_runs hserve (load_runs_inited hpage)) rfl
    (publishes_lastByte hr), rfl, rfl⟩

end Yijinjing
