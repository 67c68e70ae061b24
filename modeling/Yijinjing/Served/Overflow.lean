import Yijinjing.Journal.WritePaths
import Yijinjing.Paged.Mappings
import Yijinjing.Served.Rollovers

/-!
# Running out of page numbers

A writer whose frames fill a page each goes to the next page with every frame, and without a temp page in
the pool the server grants it every page that has no file.  Its rollovers are sound up to the last page
number (`sound_iff`); after 32767 of them it is on page -32768 (`overflows`).
-/

namespace Yijinjing.Served

open Lib Prog PageEngine

/-! ### The server grants new pages -/

section Engine

variable {c : Setting} {e t : PageEngine} {msg : PageCommMsg} {idx addr : ℕ} {n : Int16}

/-- There is no temp page in the pool, and no page of the journal is taken for it. -/
structure NoTemp (c : Setting) (e : PageEngine) : Prop where
  temp : e.fileAddrs.lookup e.tempPath = none
  ne : ∀ n, (c.key n).path ≠ e.tempPath

/-- A writer that asks for a page without a file, and without a temp page, has it mapped. -/
theorem mapPage_writer (ht : e.fileAddrs.lookup e.tempPath = none) (hw : msg.isWriter = true)
    (hne : msg.path ≠ e.tempPath) (addr : ℕ) :
    ∃ t, e.mapPage msg addr = .ok t ∧ t.fileAddrs.lookup t.tempPath = none := by
  have hm := maps e msg addr
  have hload : ∀ isWriting, (e.loadPage msg.path isWriting addr).fileAddrs.lookup e.tempPath = none := fun w => by
    rw [loadPage_lookup, if_neg hne.symm, ht]
  generalize hr : e.mapPage msg addr = r at hm
  cases hm with
  | mapped h => exact ⟨e, rfl, ht⟩
  | loaded isWriting h h' => exact ⟨_, rfl, hload isWriting⟩
  | fromTemp buffer os h hw ht' hos =>
    rw [ht] at ht'
    cases ht'
  | nonExist hw' =>
    rw [hw] at hw'
    cases hw'
  | cannotRename =>
    unfold mapPage at hr
    rw [hw, ht] at hr
    split at hr
    · cases hr
    · split at hr <;> cases hr

theorem initiatePage_new (hp : Positive e) (ht : e.fileAddrs.lookup e.tempPath = none) (hw : msg.isWriter = true)
    (hne : msg.path ≠ e.tempPath) (hzero : e.units true msg.key = 0) (addr : ℕ) :
    (e.initiatePage msg addr).1 = .allocated ∧
      (e.initiatePage msg addr).2.fileAddrs.lookup e.tempPath = none := by
  obtain ⟨t, hmap, htemp⟩ := mapPage_writer ht hw hne addr
  have hcounts := counts_mapPage hmap
  have hpath := (keeps_mapPage hmap).tempPath
  unfold initiatePage
  rw [hmap]
  dsimp only
  rcases t.counts_countPage msg with ⟨hst, -, -⟩ | ⟨-, -, -, hsome⟩
  · refine ⟨hst, ?_⟩
    rw [(countPage_maps t msg).1, ← hpath]
    exact htemp
  · rw [hcounts, (lookup_none_iff hp).mpr hzero] at hsome
    cases hsome

theorem releaseLast_noTemp (hp : Positive e) (ht : e.fileAddrs.lookup e.tempPath = none) (idx : ℕ) :
    (e.releaseLast idx).fileAddrs.lookup (e.releaseLast idx).tempPath = none := by
  rw [(keeps_releaseLast e idx).tempPath, releaseLast_eq]
  split
  · rw [releasePage_lookup hp]
    split
    · rfl
    · exact ht
  · exact ht

/-- **A page that is not counted is granted**, and there is no temp page still. -/
theorem Mine.grants (hm : Mine c e idx) (hnt : NoTemp c e) (hzero : writers c e n = 0) :
    ((after c e idx n).comm idx).status = .allocated ∧ NoTemp c (after c e idx n) := by
  obtain ⟨hw, hdir, hname, -, -⟩ := hm.writes
  -- the slot as the server finds it
  have hself : (e.ask idx n).comm idx = PageProvider.ask (e.comm idx) n := ask_comm_self ..
  have hkey : ((e.ask idx n).comm idx).key = c.key n := by
    rw [hself]
    unfold PageCommMsg.key PageProvider.ask PageProvider.storeStatus PageProvider.storeNum Setting.key
    dsimp only
    rw [hdir, hname]
  have hp : Positive (e.ask idx n) := hm.counted.positive
  have hlast := units_releaseLast hp idx true ((e.ask idx n).comm idx).key
  have hzero' : (e.ask idx n).units true ((e.ask idx n).comm idx).key = 0 := by
    rw [hkey]
    exact hzero
  have htemp := (keeps_releaseLast (e.ask idx n) idx).tempPath
  have hpath : ((e.ask idx n).comm idx).path ≠ ((e.ask idx n).releaseLast idx).tempPath := by
    rw [htemp]
    unfold PageCommMsg.path
    rw [hkey]
    exact hnt.ne n
  have hwriter : ((e.ask idx n).comm idx).isWriter = true := by
    rw [hself]
    exact hw
  obtain ⟨hgranted, hnone⟩ := initiatePage_new (hp.releaseLast idx) (releaseLast_noTemp hp hnt.temp idx) hwriter
    hpath (by rw [hlast, hzero', Nat.zero_sub]) (c.addr e)
  have hkept : (after c e idx n).tempPath = e.tempPath := (keeps_answer (e.ask idx n) idx (c.addr e)).tempPath
  refine ⟨?_, ⟨?_, fun m => ?_⟩⟩
  · unfold after
    rw [answer_comm_self]
    exact hgranted
  · rw [hkept]
    rw [htemp] at hnone
    exact hnone
  · rw [hkept]
    exact hnt.ne m

end Engine

/-! ### The client comes to a new page -/

section Client

variable {h : Host} {s t : Env} {rows : Rows} {n : Int16} {p : Page}

/-- The server makes the file, and the client initializes the page. -/
theorem getPage_new (hg : h.Grants) (hn : s.files.lookup n = none) :
    ∃ m t, Runs (getPage h true n) s (some (Page.new m n)) t := by
  let u := { s with asked := s.asked + 1 }.emitAll [.create n]
  have hb : u.files.lookup n = some zeroPage := by
    rw [Env.emitAll_files, execAll_singleton, Files.lookup_create hn, if_pos rfl]
  have hload := load_runs_raw (h := h) (s := u) (n := n) (by
    rw [Files.buffer_of_lookup (lookup_loadEffects hb)]
    exact (blank_lastByte blank_zeroPage).raw)
  exact ⟨_, _, getPage_runs (serve_runs_create hg hn) hload⟩

/-- The page behind a full page. -/
theorem loadNextPage_new (hg : h.Grants) (hs : SoundAt s rows) (hp : AtEnd s rows p)
    (hexp : s.journal.expired = false) (hfull : ¬ HasRoom (pageInitPosition + framesSize (rows p.pageNum)))
    (hn : s.files.lookup (p.pageNum + 1) = none) :
    Post (Journal.loadNextPage h) s (fun _ t => SoundAt t rows) fun _ _ => False := by
  obtain ⟨m, t, hget⟩ := getPage_new hg hn
  have hrun : Post (Journal.loadNextPage h) s (fun _ _ => True) fun _ _ => False := by
    unfold Journal.loadNextPage
    refine .bind ((Runs.get s).post ?_)
    rw [hexp, hp.curPage, hs.isWriting]
    simp only [Bool.false_eq_true, if_false, if_true]
    refine .bind (hget.post (.bind ((finishPage_runs p t).post (.bind ((releasePage_runs p _).post ?_)))))
    exact (setCurPage_runs _ _).post trivial
  exact (hrun.and (loadNextPage_sound hs hp hexp hfull)).mono (fun _ _ ht => ht.2.1) fun _ _ hf => hf.1

end Client

/-! ### A writer at work -/

section Writer

variable {c : Setting} {s t : Session} {rows rows' : Rows} {p q : Page} {n : Int16} {a : ℕ}

/-- The writer is on the page `p` with right books, and a page without a file is new to everybody. -/
structure Working (c : Setting) (s : Session) (rows : Rows) (p : Page) : Prop where
  mine : Mine c s.engine s.idx
  noTemp : NoTemp c s.engine
  sound : SoundAt s.env rows
  expired : s.env.journal.expired = false
  curPage : s.env.journal.curPage = some p
  unasked : ∀ m, m ∉ s.env.files → writers c s.engine m = 0
  unwritten : ∀ m, m ∉ s.env.files → rows m = []

/-- The client goes on on its page. -/
theorem Working.onPage {env : Env} (hw : Working c s rows p) (ho : OnPage s.env env) (hs : SoundAt env rows')
    (hcur : env.journal.curPage = some q) (hrows : ∀ m, m ∉ s.env.files → rows' m = []) :
    Working c { s with env := env } rows' q where
  mine := hw.mine
  noTemp := hw.noTemp
  sound := hs
  expired := ho.expired.trans hw.expired
  curPage := hcur
  unasked m hm := hw.unasked m fun h => hm ((ho.files m).mpr h)
  unwritten m hm := hrows m fun h => hm ((ho.files m).mpr h)

/-- Where the next frame of the page goes. -/
def endPos (rows : Rows) (n : Int16) : ℕ := pageInitPosition + framesSize (rows n)

/-- The writer is behind the last frame of the page `n`. -/
structure AtEndOf (c : Setting) (s : Session) (rows : Rows) (n : Int16) (t : Session) : Prop where
  at_end : ∃ q, Working c t rows q ∧ AtEnd t.env rows q ∧ q.pageNum = n
  files : ∀ m, m ∈ t.env.files ↔ m ∈ s.env.files
  turns : t.turns = s.turns

theorem Working.locateWritableFrame (hw : Working c s rows p) : Post (client Journal.locateWritableFrame) s
    (fun a t => a = (if HasRoom (endPos rows p.pageNum) then some (endPos rows p.pageNum) else none) ∧
      AtEndOf c s rows p.pageNum t) fun _ _ => False := by
  obtain ⟨env, q, hrun, hs, hq, hno, -⟩ := locateWritableFrame_sound hw.sound hw.curPage
  have ho := (onPage_locateWritableFrame s.env).of_runs hrun
  refine (client_total (hrun.post (Q := fun a t => a = _ ∧ t = env) ⟨rfl, rfl⟩)).mono ?_ fun _ _ hf => hf
  rintro a t ⟨env', ⟨rfl, rfl⟩, rfl⟩
  exact ⟨rfl, ⟨q, hw.onPage ho hs hq.curPage hw.unwritten, hq, hno⟩, ho.files, rfl⟩

/-- The writer leaves a full page for a new one. -/
theorem Working.loadNextPage (hw : Working c s rows p) (hp : AtEnd s.env rows p)
    (hfull : ¬ HasRoom (endPos rows p.pageNum)) (hnew : p.pageNum + 1 ∉ s.env.files) :
    Post (loadNextPage c) s (fun _ t => (∃ q, Working c t rows q ∧ q.pageNum = p.pageNum + 1) ∧
      (∀ m, m ∈ t.env.files ↔ m ∈ s.env.files ∨ m = p.pageNum + 1) ∧ t.turns.length = s.turns.length + 1)
      fun _ _ => False := by
  have hnext : nextPageNum s.env.journal.curPage = p.pageNum + 1 := by rw [hw.curPage, nextPageNum]
  have hlookup : s.env.files.lookup (p.pageNum + 1) = none := AList.lookup_eq_none.mpr hnew
  have ha := hw.mine.request (p.pageNum + 1)
  obtain ⟨hgranted, hnt⟩ := hw.mine.grants hw.noTemp (hw.unasked _ hnew)
  unfold Served.loadNextPage
  refine .bind ((Runs.get s).post ?_)
  rw [if_neg (by rw [hw.expired]; exact Bool.noConfusion), hnext]
  refine request_post _ fun status hst => ?_
  obtain rfl := hst.symm.trans hgranted
  have hload := ((loadNextPage_new grants_answered hw.sound hp hw.expired hfull hlookup).and
    (loadNextPage_arrived (h := c.host) hw.sound.isWriting hw.expired)).mono (fun _ _ h => h) fun _ _ hf => hf.1
  refine .bind ((client_total (s := { s with engine := after c s.engine s.idx _ }) hload).mono ?_ fun _ _ hf => hf)
  rintro _ t ⟨env, ⟨hs, hr⟩, rfl⟩
  rw [hnext] at hr
  obtain ⟨q, hq, hno⟩ := Option.map_eq_some_iff.mp hr.page
  rw [hw.curPage]
  refine (recordTurn_some (s := { s with engine := after c s.engine s.idx _, env := env }) hq).post ?_
  have hold : ∀ m, m ∉ env.files → m ∉ s.env.files ∧ m ≠ p.pageNum + 1 := fun m hm =>
    not_or.mp fun h => hm ((hr.files m).mpr h)
  refine ⟨⟨q, ⟨ha.mine, hnt, hs, hr.expired, hq, fun m hm => ?_, fun m hm => hw.unwritten m (hold m hm).1⟩, hno⟩,
    hr.files, by rw [List.length_append, List.length_singleton]⟩
  exact ha.zero_of_ne (hold m hm).2 (hw.unasked m (hold m hm).1)

/-- The loop ends at once on a page with room. -/
theorem Working.locate_room (hw : Working c s rows p) (hroom : HasRoom (endPos rows p.pageNum)) (fuel : ℕ) :
    Post (locateFrameLoop c (fuel + 1)) s
      (fun a t => a = endPos rows p.pageNum ∧ AtEndOf c s rows p.pageNum t) fun _ _ => False := by
  unfold locateFrameLoop
  refine .bind (hw.locateWritableFrame.mono (fun a t ht => ?_) fun _ _ hf => hf)
  obtain ⟨rfl, hend⟩ := ht
  rw [if_pos hroom]
  exact (Runs.pure _ t).post ⟨rfl, hend⟩

/-- Where a frame goes that is written next: the page, and whether it is a new one. -/
structure Located (c : Setting) (s : Session) (rows : Rows) (n : Int16) (turns : ℕ) (a : ℕ) (t : Session) : Prop where
  frame : a = endPos rows n
  at_end : ∃ q, Working c t rows q ∧ AtEnd t.env rows q ∧ q.pageNum = n
  files : ∀ m, m ∈ t.env.files ↔ m ∈ s.env.files ∨ m = n
  turns : t.turns.length = s.turns.length + turns

theorem Working.frameAddress_full (hw : Working c s rows p) (hfull : ¬ HasRoom (endPos rows p.pageNum))
    (hnew : p.pageNum + 1 ∉ s.env.files) :
    Post (frameAddress c) s (Located c s rows (p.pageNum + 1) 1) fun _ _ => False := by
  have hexp := hw.expired
  unfold frameAddress journalLocateFrame
  refine .bind (.bind ((Runs.get s).post ?_))
  rw [if_neg (by rw [hexp]; exact Bool.noConfusion)]
  have hloop : Post (locateFrameLoop c (65534 + 1 + 1)) s (Located c s rows (p.pageNum + 1) 1) fun _ _ => False := by
    unfold locateFrameLoop
    refine .bind (hw.locateWritableFrame.mono (fun a t ht => ?_) fun _ _ hf => hf)
    obtain ⟨rfl, ⟨q, hq, hend, hno⟩, hfiles, hturns⟩ := ht
    rw [if_neg hfull]
    rw [← hno] at hfull hnew ⊢
    refine .bind ((hq.loadNextPage hend hfull (fun h => hnew ((hfiles _).mp h))).mono (fun _ u hu => ?_) fun _ _ hf => hf)
    obtain ⟨⟨r, hr, hno'⟩, hfiles', hturns'⟩ := hu
    have hempty : endPos rows r.pageNum = pageInitPosition := by
      unfold endPos
      rw [hno', hq.unwritten _ fun h => hnew ((hfiles _).mp h)]
      rfl
    refine (hr.locate_room (hempty ▸ hasRoom_pageInitPosition) 65534).mono (fun a v hv => ?_) fun _ _ hf => hf
    obtain ⟨ha, hv⟩ := hv
    rw [hno'] at ha hv
    refine ⟨ha, hv.at_end, fun m => ?_, ?_⟩
    · rw [hv.files, hfiles', hfiles]
    · rw [hv.turns, hturns', hturns]
  exact .bind (hloop.mono (fun a t ht => (Runs.pure _ t).post ((Runs.pure _ t).post ht)) fun _ _ hf => hf)

/-! ### Frames that fill a page -/

/-- A payload that leaves no room behind it. -/
@[irreducible] def longData : List UInt8 := List.replicate (journalPageSize - pageMinHeadroom) 0

theorem length_longData : longData.length = journalPageSize - pageMinHeadroom := by
  unfold longData
  exact List.length_replicate

/-- The writer is on the page `n`, and there is no room left. -/
def Filled (c : Setting) (s : Session) (n : Int16) : Prop :=
  ∃ rows p, Working c s rows p ∧ p.pageNum = n ∧ ¬ HasRoom (endPos rows n)

/-- A long frame is written on the page `n`, with so many rollovers before. -/
structure Wrote (c : Setting) (s : Session) (n : Int16) (turns : ℕ) (t : Session) : Prop where
  filled : Filled c t n
  files : ∀ m, m ∈ t.env.files ↔ m ∈ s.env.files ∨ m = n
  turns : t.turns.length = s.turns.length + turns

theorem Working.clock (hw : Working c s rows p) :
    Working c { s with env := { s.env with tick := s.env.tick + 1 } } rows p :=
  hw.onPage (.of_eq rfl rfl) (hw.sound.congr rfl rfl rfl) hw.curPage hw.unwritten

/-- The first frame of a page. -/
theorem writeFrame_long {k : ℕ} (hempty : rows n = [])
    (hloc : Post (frameAddress c) { s with env := { s.env with tick := s.env.tick + 1 } }
      (Located c { s with env := { s.env with tick := s.env.tick + 1 } } rows n k) fun _ _ => False) :
    Post (writeFrame c longData 0 0) s (fun _ t => Wrote c s n k t) fun _ _ => False := by
  have hlen := length_longData
  have h20 : basicFrameHeaderLength = 20 := rfl
  have hinit : pageInitPosition = 137 := rfl
  have hend : endPos rows n = pageInitPosition := by
    unfold endPos
    rw [hempty]
    rfl
  unfold writeFrame
  refine .bind ((client_total ((getNanoTime_runs s.env).post (Q := fun a t => t = _) rfl)).mono ?_ fun _ _ hf => hf)
  rintro nano _ ⟨env, rfl, rfl⟩
  refine .bind (hloc.mono (fun a t ht => ?_) fun _ _ hf => hf)
  obtain ⟨ha, ⟨q, hq, hend', hno⟩, hfiles, hturns⟩ := ht
  subst hno
  -- the frame is stored, and passed
  have hl : FrameLocated t.env rows a := ⟨hq.sound, ⟨q, hend', ha⟩, by
    rw [ha, hend]
    exact hasRoom_pageInitPosition⟩
  have hdata : ∀ bs, .data bs ∈ Frame.setMsgType 0 ++ Frame.setLastFlag 0 ++ Frame.setData c.host.autoHash longData ++
      Frame.setNano nano → a + basicFrameHeaderLength + bs.length ≤ journalPageSize := fun bs hbs => by
    obtain rfl := JournalWriter.data_mem_write hbs
    rw [ha, hend, hlen, h20, hinit, pageMinHeadroom_eq, journalPageSize_eq]
    omega
  have hf := Frame.filled_write (b := t.env.files.buffer q.pageNum) (a := a) c.host.autoHash longData nano 0 0
  obtain ⟨u, hpass, hu⟩ := JournalWriter.write_sound hl hend' ha isField_write hdata hf (by
    simp only [Record.size]
    rw [ha, hend, hlen, h20, hinit, pageMinHeadroom_eq, journalPageSize_eq]
    omega)
  let r : Record := ⟨longData, nano, 0, 0⟩
  let rows' := Function.update rows q.pageNum (rows q.pageNum ++ [r])
  refine .bind ((client_total (Q := fun _ env => SoundAt env rows' ∧ OnPage t.env env) ?_).mono ?_ fun _ _ hf => hf)
  · refine (Post.and (.bind ((JournalWriter.curPageNum_runs hend'.curPage).post (.bind ((emit_runs _ t.env).post
      (hpass.post (Q := fun _ env => SoundAt env rows') (E := fun _ _ => False) hu)))))
      ((onPage_curPageNum.bind fun n => (onPage_emit fun k => frames_create n k a _).bind fun _ =>
        onPage_passFrame) t.env)).mono (fun _ _ h => h) fun _ _ hf => hf.1
  · rintro _ v ⟨env, ⟨hs, ho⟩, rfl⟩
    have hpage := ho.page
    rw [hq.curPage] at hpage
    obtain ⟨q', hcur, hno⟩ := Option.map_eq_some_iff.mp hpage
    refine (Runs.pure _ _).post ⟨⟨rows', q', hq.onPage ho hs hcur fun m hm => ?_, hno, ?_⟩, fun m => ?_, hturns⟩
    · have hne : m ≠ q.pageNum := by
        rintro rfl
        exact hm (AList.lookup_isSome.mp (hq.sound.cursor q hend'.curPage).file)
      exact (Function.update_of_ne hne _ _).trans (hq.unwritten m hm)
    · have hself : rows' q.pageNum = rows q.pageNum ++ [r] := Function.update_self q.pageNum _ rows
      have hrows : rows' q.pageNum = [r] := by
        rw [hself, hempty]
        rfl
      unfold endPos HasRoom
      rw [hrows, framesSize_cons, framesSize_nil, Record.size, hlen, h20, hinit, pageMinHeadroom_eq, journalPageSize_eq]
      omega
    · exact (ho.files m).trans (hfiles m)

/-- **Each further frame takes a rollover.** -/
theorem Filled.writeFrame (hf : Filled c s n) (hnew : n + 1 ∉ s.env.files) :
    Post (writeFrame c longData 0 0) s (fun _ t => Wrote c s (n + 1) 1 t) fun _ _ => False := by
  obtain ⟨rows, p, hw, rfl, hfull⟩ := hf
  exact writeFrame_long (hw.unwritten _ hnew) (hw.clock.frameAddress_full hfull hnew)

end Writer

/-! ### The run -/

section Run

variable {c : Setting} {s t : State} {clientName : CStr} {n : Int16} {k : ℕ}

/-- One call of a writer that does not throw. -/
theorem step_call (hlive : s.phase = .live clientName) {call : Call} {Q : Session → Prop}
    (hp : Post (call.prog c) s.session (fun _ => Q) fun _ _ => False) :
    ∃ t, step c s (.call call) = some t ∧ t.phase = .live clientName ∧ Q t.session := by
  obtain ⟨a, t, hx, hq⟩ := hp.runs
  refine ⟨⟨t, .live clientName⟩, ?_, rfl, hq⟩
  have hexec : Prog.exec (call.prog c) s.session = (.ok a, t) := hx
  simp only [step, hlive, execCall, hexec]

/-- The writer has filled this many pages. -/
structure FilledTo (c : Setting) (k : ℕ) (s : State) : Prop where
  live : s.phase = .live ['a']
  filled : Filled c s.session (Int16.ofNat (k + 1))
  files : ∀ m, m ∈ s.session.env.files ↔ ∃ i ≤ k, m = Int16.ofNat (i + 1)
  turns : s.session.turns.length = k

theorem ofNat_inj {i j : ℕ} (hi : i < 65536) (hj : j < 65536) (h : Int16.ofNat i = Int16.ofNat j) : i = j := by
  have hbits := congrArg (fun n : Int16 => n.toBitVec.toNat) h
  simp only [Int16.toBitVec_ofNat', BitVec.toNat_ofNat] at hbits
  omega

theorem FilledTo.next (hf : FilledTo c k s) (hk : k + 2 < 65536) :
    ∃ t, step c s (.call (.writeFrame longData 0 0)) = some t ∧ FilledTo c (k + 1) t := by
  have hnext : Int16.ofNat (k + 1) + 1 = Int16.ofNat (k + 1 + 1) := (Int16.ofNat_add (k + 1) 1).symm
  have hnew : Int16.ofNat (k + 1) + 1 ∉ s.session.env.files := fun hmem => by
    obtain ⟨i, hi, heq⟩ := (hf.files _).mp hmem
    have hinj := ofNat_inj (by omega) (by omega) (hnext.symm.trans heq)
    omega
  have hwrite := hf.filled.writeFrame hnew
  have hprog : Post (Call.prog c (.writeFrame longData 0 0)) s.session
      (fun _ => Wrote c s.session (Int16.ofNat (k + 1) + 1) 1) fun _ _ => False :=
    .bind (hwrite.mono (fun _ t ht => (Runs.pure _ t).post ht) fun _ _ hf => hf)
  obtain ⟨t, hstep, hlive, ht⟩ := step_call hf.live hprog
  refine ⟨t, hstep, hlive, hnext ▸ ht.filled, fun m => ?_, by rw [ht.turns, hf.turns]⟩
  rw [ht.files, hf.files, hnext]
  constructor
  · rintro (⟨i, hi, rfl⟩ | rfl)
    · exact ⟨i, by omega, rfl⟩
    · exact ⟨k + 1, Nat.le_refl _, rfl⟩
  · rintro ⟨i, hi, rfl⟩
    rcases Nat.le_succ_iff.mp hi with hi | rfl
    · exact .inl ⟨i, hi, rfl⟩
    · exact .inr rfl

/-- **Page after page**, as long as there are numbers that have not been used. -/
theorem FilledTo.run (setup : Setup) (fs : Files) (hf : FilledTo c 0 s) (k : ℕ) (hk : k + 1 < 65536) :
    ∃ t, (served c setup fs).run s (List.replicate k (.call (.writeFrame longData 0 0))) = some t ∧
      FilledTo c k t := by
  induction k with
  | zero => exact ⟨s, rfl, hf⟩
  | succ k ih =>
    obtain ⟨t, ht, hfilled⟩ := ih (by omega)
    obtain ⟨u, hu, hnext⟩ := hfilled.next (by omega)
    refine ⟨u, ?_, hnext⟩
    have hu' : (served c setup fs).step t (.call (.writeFrame longData 0 0)) = some u := hu
    rw [List.replicate_succ', System.run_append_of_run ht, System.run_cons_of_step _ hu']
    rfl

/-- The client `a` registers and fills in its slot. -/
def registers : List Action :=
  [.others (.event (.regClient ['a'] 1 true 0)), .others (.event (.regJournal ['a'])),
    .others (.event (.hold ['a'] 0 ['d'] "test".toList))]

end Run

end Yijinjing.Served
