import Yijinjing.Journal.FailedChange
import Yijinjing.Served.Invariants

/-!
# Writer sessions with the page server behind them

The sessions of the writers of one journal, one after the other, whose page requests are answered by the
engine among its other users.  A call that returns has been granted every page it asked for: a writer whose
request is refused throws, or is left without a journal.  So a call that returns has done what it does where
all pages are granted (`Follows`), and the runs are simulated by those of `Sessions` as long as no call
throws: what the writers have written is what a reader is given (`written_is_read`).
-/

namespace Yijinjing.Served

open Lib Prog

variable {c : Setting} {h : Host} {s t : Session} {α β : Type} {status : CommStatus}

/-! ### A call that returns -/

/-- If the program returns, so does the call of the journal, and the journal is the same. -/
def Follows (p : SessionM α) (x : JournalM α) (s : Session) : Prop :=
  ∀ a t, Runs p s a t → Runs x s.env a t.env

theorem client_runs {p : JournalM α} {a : α} : Runs (client p) s a t ↔
    ∃ env, Runs p s.env a env ∧ t = { s with env := env } := by
  have hexec : (client p).exec s = ((p.exec s.env).1, { s with env := (p.exec s.env).2 }) := rfl
  constructor
  · intro hx
    have hpair := hexec.symm.trans hx
    obtain ⟨h1, h2⟩ := Prod.mk.inj hpair
    exact ⟨(p.exec s.env).2, Prod.ext h1 rfl, h2.symm⟩
  · rintro ⟨env, hx, rfl⟩
    have hpair : p.exec s.env = (.ok a, env) := hx
    rw [hpair] at hexec
    exact hexec

theorem Follows.client (p : JournalM α) (s : Session) : Follows (client p) p s := by
  intro a t hx
  obtain ⟨env, hp, rfl⟩ := client_runs.mp hx
  exact hp

theorem Follows.pure (a : α) (s : Session) : Follows (Pure.pure a) (Pure.pure a) s := by
  intro b t hx
  obtain ⟨rfl, rfl⟩ := hx.det (Runs.pure a s)
  exact Runs.pure _ _

theorem Follows.bind {p : SessionM α} {x : JournalM α} {f : α → SessionM β} {g : α → JournalM β}
    (hp : Follows p x s) (hf : ∀ a t, Runs p s a t → Follows (f a) (g a) t) : Follows (p >>= f) (x >>= g) s := by
  intro b u hx
  obtain ⟨a, t, hpa, hfa⟩ := hx.of_bind
  exact (hp a t hpa).bind (hf a t hpa b u hfa)

theorem answered_allocated : answered h .allocated = h.granting := rfl

/-- What has been asked, and what the client has made of the answer. -/
theorem request_of_runs {n : Int16} {f : CommStatus → SessionM α} {a : α} (hx : Runs (request c n >>= f) s a t) :
    Runs (f ((after c s.engine s.idx n).comm s.idx).status) { s with engine := after c s.engine s.idx n } a t :=
  ((request_runs n s).exec_bind f).symm.trans hx

theorem recordTurn_env (old : Option Page) (s : Session) : ∃ t, Runs (recordTurn old) s ⟨⟩ t ∧ t.env = s.env := by
  refine ⟨_, Runs.modify _ s, ?_⟩
  split <;> rfl

/-- A change of page after which there is a page has been granted it. -/
theorem loadNextPage_follows (hw : s.env.journal.isWriting = true) {u : Unit} (hx : Runs (loadNextPage c) s u t)
    (hcur : t.env.journal.curPage ≠ none) : Runs (Journal.loadNextPage c.host.granting) s.env u t.env ∧
      t.env.journal.isWriting = true := by
  unfold loadNextPage at hx
  have hrest := hx.of_get
  split at hrest
  · rename_i hexp
    obtain ⟨-, rfl⟩ := hrest.det (Runs.pure _ _)
    refine ⟨?_, hw⟩
    unfold Journal.loadNextPage
    refine (Runs.get _).bind ?_
    rw [if_pos hexp]
    exact Runs.pure _ _
  · rename_i hexp
    have hexp' := Bool.eq_false_of_not_eq_true hexp
    have hcall := request_of_runs hrest
    generalize ((after c s.engine s.idx _).comm s.idx).status = status at hcall
    obtain ⟨_, v, hload, hturn⟩ := hcall.of_bind
    obtain ⟨env, hp, rfl⟩ := client_runs.mp hload
    obtain ⟨w, hw', henv⟩ := recordTurn_env _ { s with engine := after c s.engine s.idx _, env := env }
    obtain rfl := (hw'.det hturn).2
    rw [henv] at hcur ⊢
    by_cases hst : status = .allocated
    · rw [hst] at hp
      have harrived := (loadNextPage_arrived hw hexp').of_runs hp
      rw [answered_allocated] at hp
      exact ⟨hp, harrived.isWriting⟩
    · have hlost := (loadNextPage_lost hw hexp' hst).of_runs hp
      exact absurd hlost.1.page hcur

/-- The loop of `locateFrame` does not return without a page. -/
theorem locateFrameLoop_page {fuel a : ℕ} (hx : Runs (locateFrameLoop c fuel) s a t) :
    s.env.journal.curPage ≠ none := by
  intro hnone
  cases fuel with
  | zero => exact nomatch hx
  | succ fuel =>
    unfold locateFrameLoop at hx
    obtain ⟨_, v, hfirst, -⟩ := hx.of_bind
    obtain ⟨env, hlocate, -⟩ := client_runs.mp hfirst
    cases (FailedChange.locateWritableFrame_throws hnone).symm.trans hlocate

theorem locateFrameLoop_follows (fuel : ℕ) (hw : s.env.journal.isWriting = true) :
    Follows (locateFrameLoop c fuel) (Journal.locateFrameLoop c.host.granting fuel) s := by
  induction fuel generalizing s with
  | zero => exact fun a t hx => nomatch hx
  | succ fuel ih =>
    unfold locateFrameLoop Journal.locateFrameLoop
    refine (Follows.client _ s).bind fun b u hu => ?_
    obtain ⟨env, hlocate, rfl⟩ := client_runs.mp hu
    have hw' : env.journal.isWriting = true :=
      ((onPage_locateWritableFrame s.env).of_runs hlocate).isWriting.trans hw
    cases b with
    | some b => exact .pure b _
    | none =>
      intro a t hx
      obtain ⟨_, v, hload, hloop⟩ := hx.of_bind
      obtain ⟨hload', hw''⟩ := loadNextPage_follows hw' hload (locateFrameLoop_page hloop)
      exact hload'.bind (ih hw'' a t hloop)

theorem journalLocateFrame_follows (hw : s.env.journal.isWriting = true) :
    Follows (journalLocateFrame c) (Journal.locateFrame c.host.granting) s := by
  intro a t hx
  unfold journalLocateFrame at hx
  have hrest := hx.of_get
  unfold Journal.locateFrame
  refine (Runs.get _).bind ?_
  split at hrest
  · rename_i hexp
    rw [if_pos hexp]
    exact Follows.pure none s a t hrest
  · rename_i hexp
    rw [if_neg hexp, if_pos hw]
    exact ((locateFrameLoop_follows _ hw).bind fun b u _ => .pure _ u) a t hrest

theorem frameAddress_follows (hw : s.env.journal.isWriting = true) :
    Follows (frameAddress c) (JournalWriter.frameAddress c.host.granting) s := by
  unfold frameAddress JournalWriter.frameAddress
  refine (journalLocateFrame_follows hw).bind fun a t _ => ?_
  cases a with
  | none => exact fun a u hx => nomatch hx
  | some a => exact .pure a t

/-- The writer has no journal: nothing has happened to the page files and the clock. -/
structure Idle (s t : Env) : Prop where
  files : t.files = s.files
  tick : t.tick = s.tick
  expired : t.journal.expired = true

/-- A seek that is refused its page. -/
theorem seekTime_idle (hst : status ≠ .allocated) (e : Env) :
    Post (Journal.seekTime (answered h status) timeToLast) e (fun _ u => Idle e u) fun _ _ => True := by
  obtain ⟨hfiles, htick, -, -⟩ := e.releaseCur_eq
  have hk : (answered h status).refuse e.releaseCur.asked = some status := if_neg hst
  unfold Journal.seekTime Journal.seekPage
  refine .bind ((releaseCurPage_runs e).post (.bind (.bind ((Runs.get _).post ?_))))
  rw [if_pos rfl]
  by_cases hm : status = .moreThanOneWrite
  · subst hm
    exact ((getPage_throws hk _).bind _).post trivial
  · refine .bind ((getPage_runs_none hk hst hm _).post ?_)
    have hscan : Runs (scanCurPage fun b p => p.passWrittenFrame b)
        ({ e.releaseCur with asked := e.releaseCur.asked + 1 }.setCurPage none) ⟨⟩
        ({ e.releaseCur with asked := e.releaseCur.asked + 1 }.setCurPage none) := by
      unfold scanCurPage
      exact (Runs.get _).bind (Runs.pure _ _)
    refine .bind ((setCurPage_runs none _).post (hscan.post ?_))
    exact .bind ((Runs.get _).post (.bind ((Runs.set _ _).post ((Runs.pure _ _).post ⟨hfiles, htick, rfl⟩))))

/-- A seek has been granted its page, or the writer has no journal. -/
theorem seekTime_follows (hw : s.env.journal.isWriting = true) {b : Bool} (hx : Runs (seekTime c timeToLast) s b t) :
    Runs (Journal.seekTime c.host.granting timeToLast) s.env b t.env ∧ t.env.journal.isWriting = true ∨
      Idle s.env t.env := by
  unfold seekTime at hx
  have hrest := request_of_runs hx.of_get
  generalize ((after c s.engine s.idx _).comm s.idx).status = status at hrest
  obtain ⟨env, hp, rfl⟩ := client_runs.mp hrest
  by_cases hst : status = .allocated
  · rw [hst] at hp
    have harrived := (seekTime_arrived hw).of_runs hp
    rw [answered_allocated] at hp
    exact .inl ⟨hp, harrived.isWriting⟩
  · exact .inr ((seekTime_idle hst s.env).of_runs hp)

/-- A writer that is created with a journal is created as it is where all pages are granted. -/
theorem create_follows {u : Unit} (hx : Runs (create c) s u t) :
    Runs (JournalWriter.create c.host.granting) s.env u t.env ∨ Idle s.env t.env := by
  have hstart : Runs (client (modify fun s : Env => { s with journal := Journal.create true })) s ⟨⟩ s.created := rfl
  have hseek : Runs (seekEnd c) s.created u t := (hstart.exec_bind _).symm.trans hx
  unfold seekEnd at hseek
  obtain ⟨b, v, htime, hrest⟩ := hseek.of_bind
  obtain ⟨a, w, hlocate, hend⟩ := hrest.of_bind
  obtain ⟨-, rfl⟩ := hend.det (Runs.pure _ _)
  rcases seekTime_follows (s := s.created) rfl htime with ⟨htime', hw⟩ | hidle
  · refine .inl ?_
    unfold JournalWriter.create JournalWriter.seekEnd
    refine Runs.bind (Runs.modify _ s.env) (htime'.bind ?_)
    exact (journalLocateFrame_follows hw a _ hlocate).bind (Runs.pure _ _)
  · refine .inr ?_
    unfold journalLocateFrame at hlocate
    have hnone := hlocate.of_get
    rw [if_pos hidle.expired] at hnone
    obtain ⟨-, rfl⟩ := hnone.det (Runs.pure _ _)
    exact ⟨hidle.files, hidle.tick, hidle.expired⟩

/-- The reading of the clock at the start of a call. -/
theorem clock_follows (s : Session) : Follows (client (getNanoTime c.host)) (getNanoTime c.host.granting) s := by
  have hsame : getNanoTime c.host.granting = getNanoTime c.host := rfl
  rw [hsame]
  exact .client _ s

theorem clock_isWriting {nano : Int64} (hx : Runs (client (getNanoTime c.host)) s nano t)
    (hw : s.env.journal.isWriting = true) : t.env.journal.isWriting = true := by
  obtain ⟨env, hclock, rfl⟩ := client_runs.mp hx
  rw [(hclock.det (getNanoTime_runs s.env)).2]
  exact hw

theorem writeFrame_follows (hw : s.env.journal.isWriting = true) (data : List UInt8) (msgType : Int16)
    (lastFlag : UInt8) : Follows (writeFrame c data msgType lastFlag)
      (JournalWriter.writeFrame c.host.granting data msgType lastFlag) s := by
  unfold writeFrame JournalWriter.writeFrame
  refine (clock_follows s).bind fun nano t ht => ?_
  refine (frameAddress_follows (clock_isWriting ht hw)).bind fun frame u _ => ?_
  intro a v hx
  obtain ⟨_, w, hstores, hend⟩ := hx.of_bind
  obtain ⟨rfl, rfl⟩ := hend.det (Runs.pure _ _)
  obtain ⟨n, e, hnum, hrest⟩ := (Follows.client _ u _ _ hstores).of_bind
  obtain ⟨_, e', hemit, hpass⟩ := hrest.of_bind
  exact hnum.bind (hemit.bind (hpass.bind (Runs.pure _ _)))

theorem locateFrame_follows (hw : s.env.journal.isWriting = true) :
    Follows (locateFrame c) (JournalWriter.locateFrame c.host.granting) s := by
  unfold locateFrame JournalWriter.locateFrame
  refine (clock_follows s).bind fun nano t ht => ?_
  refine (frameAddress_follows (clock_isWriting ht hw)).bind fun frame u _ => ?_
  intro a v hx
  obtain ⟨_, w, hstores, hend⟩ := hx.of_bind
  obtain ⟨rfl, rfl⟩ := hend.det (Runs.pure _ _)
  obtain ⟨n, e, hnum, hemit⟩ := (Follows.client _ u _ _ hstores).of_bind
  exact hnum.bind (hemit.bind (Runs.pure _ _))

theorem copyData_follows (frame : ℕ) (data : List UInt8) :
    Follows (copyData frame data) (JournalWriter.copyData frame data) s := .client _ s

theorem passFrame_follows (frame length : ℕ) (msgType : Int16) (lastFlag : UInt8) :
    Follows (passFrame c frame length msgType lastFlag)
      (JournalWriter.passFrame c.host.granting frame length msgType lastFlag) s := by
  have hsame : JournalWriter.passFrame c.host.granting frame length msgType lastFlag =
      JournalWriter.passFrame c.host frame length msgType lastFlag := rfl
  rw [hsame]
  exact .client _ s

/-! ### When a call returns -/

/-- The server would grant the writer the next page. -/
def NextGranted (c : Setting) (s : Session) : Prop :=
  ((after c s.engine s.idx (nextPageNum s.env.journal.curPage)).comm s.idx).status = .allocated

variable {l : Ledger}

theorem locateWritable_runs (hw : WriterAt s.env l) : Runs (client Journal.locateWritableFrame) s
    (if HasRoom l.cur.endPos then some l.cur.endPos else none) s :=
  client_runs.mpr ⟨s.env, (Journal.locateWritableFrame_spec (ρ := none) hw).runs, rfl⟩

theorem locateFrameLoop_room (hw : WriterAt s.env l) (hroom : HasRoom l.cur.endPos) (fuel : ℕ) :
    Runs (locateFrameLoop c (fuel + 1)) s l.cur.endPos s := by
  have hfirst := locateWritable_runs hw
  rw [if_pos hroom] at hfirst
  unfold locateFrameLoop
  exact hfirst.bind (Runs.pure _ s)

/-- The writer leaves a full page for the next one. -/
theorem loadNextPage_granted (hw : WriterAt s.env l) (hlt : l.pages.length < maxPages)
    (hroom : ¬ HasRoom l.cur.endPos) (hn : NextGranted c s) :
    ∃ t, Runs (loadNextPage c) s ⟨⟩ t ∧ WriterAt t.env (l.rollover c.host.granting) := by
  obtain ⟨env, hload⟩ := Journal.loadNextPage_spec (ρ := none) c.host.grants_granting hw hroom hlt
  let u : Session := { s with engine := after c s.engine s.idx (nextPageNum s.env.journal.curPage) }
  have hclient : Runs (client (Journal.loadNextPage c.host.granting)) u ⟨⟩ { u with env := env } :=
    client_runs.mpr ⟨env, hload.runs, rfl⟩
  obtain ⟨t, hturn, henv⟩ := recordTurn_env s.env.journal.curPage { u with env := env }
  refine ⟨t, ?_, henv ▸ hload.2⟩
  unfold loadNextPage
  refine (Runs.get s).bind ?_
  rw [if_neg (by rw [hw.expired]; exact Bool.noConfusion)]
  refine (request_runs _ s).bind ?_
  unfold NextGranted at hn
  rw [hn]
  exact hclient.bind hturn

/-- A change of page that is refused leaves no page. -/
theorem loadNextPage_refused (hw : WriterAt s.env l) (hn : ¬ NextGranted c s) {u : Unit}
    (hx : Runs (loadNextPage c) s u t) : t.env.journal.curPage = none := by
  unfold loadNextPage at hx
  have hrest := hx.of_get
  rw [if_neg (by rw [hw.expired]; exact Bool.noConfusion)] at hrest
  have hcall := request_of_runs hrest
  obtain ⟨_, v, hload, hturn⟩ := hcall.of_bind
  obtain ⟨env, hp, rfl⟩ := client_runs.mp hload
  obtain ⟨w, hw', henv⟩ := recordTurn_env _ { s with engine := after c s.engine s.idx _, env := env }
  obtain rfl := (hw'.det hturn).2
  rw [henv]
  exact ((loadNextPage_lost hw.isWriting hw.expired hn).of_runs hp).1.page

/-- **A frame is located exactly if there is room on the page or the next page is granted.** -/
theorem frameAddress_runs_iff (hw : WriterAt s.env l) (hlt : l.pages.length < maxPages) :
    (∃ a t, Runs (frameAddress c) s a t) ↔ HasRoom l.cur.endPos ∨ NextGranted c s := by
  have hfuel : Journal.pageFuel = 65534 + 1 + 1 := rfl
  have hloop : (∃ a t, Runs (frameAddress c) s a t) ↔ ∃ a t, Runs (locateFrameLoop c Journal.pageFuel) s a t := by
    have hexp : ¬ s.env.journal.expired = true := by
      rw [hw.expired]
      exact Bool.noConfusion
    constructor
    · rintro ⟨a, t, hx⟩
      unfold frameAddress journalLocateFrame at hx
      obtain ⟨o, u, hlocate, -⟩ := hx.of_bind
      have hrest := hlocate.of_get
      rw [if_neg hexp] at hrest
      obtain ⟨b, v, hb, -⟩ := hrest.of_bind
      exact ⟨b, v, hb⟩
    · rintro ⟨a, t, hx⟩
      refine ⟨a, t, ?_⟩
      unfold frameAddress journalLocateFrame
      refine Runs.bind (a := some a) (t := t) ((Runs.get s).bind ?_) (Runs.pure a t)
      rw [if_neg hexp]
      exact hx.bind (Runs.pure _ t)
  rw [hloop, hfuel]
  by_cases hroom : HasRoom l.cur.endPos
  · exact iff_of_true ⟨_, _, locateFrameLoop_room hw hroom _⟩ (.inl hroom)
  · have hfirst := locateWritable_runs hw
    rw [if_neg hroom] at hfirst
    rw [or_iff_right hroom]
    constructor
    · rintro ⟨a, t, hx⟩
      by_contra hn
      unfold locateFrameLoop at hx
      have hrest := (hfirst.exec_bind _).symm.trans hx
      obtain ⟨_, u, hload, hnext⟩ := Runs.of_bind hrest
      exact locateFrameLoop_page hnext (loadNextPage_refused hw hn hload)
    · intro hn
      obtain ⟨t, hload, hw'⟩ := loadNextPage_granted hw hlt hroom hn
      have hroom' : HasRoom (l.rollover c.host.granting).cur.endPos := hasRoom_pageInitPosition
      refine ⟨(l.rollover c.host.granting).cur.endPos, t, ?_⟩
      unfold locateFrameLoop
      exact hfirst.bind (hload.bind (locateFrameLoop_room hw' hroom' _))

/-- The session after the clock has been read. -/
def Session.ticked (s : Session) : Session := { s with env := { s.env with tick := s.env.tick + 1 } }

theorem clock_runs (s : Session) : Runs (client (getNanoTime c.host)) s (c.host.clock s.env.tick) s.ticked :=
  client_runs.mpr ⟨_, getNanoTime_runs s.env, rfl⟩

/-- **A frame is written exactly if there is room on the page or the next page is granted.** -/
theorem writeFrame_runs_iff (hw : WriterAt s.env l) (hlt : l.pages.length < maxPages) {data : List UInt8}
    (hadm : Party.Admissible data) (msgType : Int16) (lastFlag : UInt8) :
    (∃ nano t, Runs (writeFrame c data msgType lastFlag) s nano t) ↔ HasRoom l.cur.endPos ∨ NextGranted c s := by
  have hw' : WriterAt s.ticked.env l.readClock := (getNanoTime_spec (h := c.host) (ρ := none) hw).2
  have hframe : (∃ a t, Runs (frameAddress c) s.ticked a t) ↔ HasRoom l.cur.endPos ∨ NextGranted c s :=
    frameAddress_runs_iff (l := l.readClock) hw' hlt
  rw [← hframe]
  constructor
  · rintro ⟨nano, t, hx⟩
    unfold writeFrame at hx
    have hrest := ((clock_runs s).exec_bind _).symm.trans hx
    obtain ⟨a, u, hlocate, -⟩ := Runs.of_bind hrest
    exact ⟨a, u, hlocate⟩
  · rintro ⟨a, t, hlocate⟩
    obtain ⟨env, hmoves⟩ := JournalWriter.writeFrame_spec c.host.grants_granting hw hlt hadm msgType lastFlag
    have hwrite := hmoves.runs
    unfold JournalWriter.writeFrame at hwrite
    have hrest := ((getNanoTime_runs s.env).exec_bind _).symm.trans hwrite
    obtain ⟨a', e, hlocate', hstores⟩ := Runs.of_bind hrest
    obtain ⟨rfl, rfl⟩ := (frameAddress_follows hw'.isWriting a t hlocate).det hlocate'
    obtain ⟨n, e₁, hnum, hstores⟩ := hstores.of_bind
    obtain ⟨_, e₂, hemit, hpass⟩ := hstores.of_bind
    obtain ⟨_, e₃, hpass, -⟩ := hpass.of_bind
    refine ⟨c.host.clock s.env.tick, { t with env := e₃ }, ?_⟩
    unfold writeFrame
    refine (clock_runs s).bind (hlocate.bind (Runs.bind (a := ⟨⟩) ?_ (Runs.pure _ _)))
    exact client_runs.mpr ⟨e₃, hnum.bind (hemit.bind hpass), rfl⟩

end Yijinjing.Served

namespace Yijinjing.ServedSessions

open Lib Prog Served

/-! ### The system -/

structure State where
  /-- the engine, the slot of the writer and the writer; there may be none -/
  served : Served.State
  draft : Option Sessions.Draft
  /-- the records completed so far -/
  written : List Record

inductive Action
  /-- somebody else: another client, the server or the file system -/
  | others (a : PageEngine.Action)
  | create (clientName : CStr) (idx : ℕ)
  | writeFrame (data : List UInt8) (msgType : Int16) (lastFlag : UInt8)
  | locateFrame
  | copyData (data : List UInt8)
  | passFrame (msgType : Int16) (lastFlag : UInt8)
  /-- the writer is destroyed -/
  | close

namespace State

def session (s : State) : Session := s.served.session

def env (s : State) : Env := s.session.env

/-- A call of the writer, which ends in the state `next` if it succeeds; a writer whose call throws is given
up. -/
def call {α : Type} (s : State) (clientName : CStr) (start : Session) (x : SessionM α)
    (next : α → State → State) : Option State :=
  match Prog.exec x start with
  | (.ok a, t) =>
    if Party.PagesLeft t.env.files then some (next a { s with served := ⟨t, .live clientName⟩ }) else none
  | (.error _, t) => some { s with served := ⟨t, .gone⟩, draft := none }

end State

def step (c : Setting) (s : State) : Action → Option State
  | .others a => (Served.step c s.served (.others a)).map fun served => { s with served := served }
  | .create clientName idx =>
    if s.served.phase = .before ∧ CanCreate c s.session.engine clientName idx then
      s.call clientName { s.session with idx := idx } (Served.create c) fun _ s => s
    else none
  | .writeFrame data msgType lastFlag =>
    match s.served.phase with
    | .live clientName =>
      if s.draft = none ∧ Party.Admissible data then
        s.call clientName s.session (Served.writeFrame c data msgType lastFlag) fun nano s =>
          { s with written := s.written ++ [⟨data, nano, msgType, lastFlag⟩] }
      else none
    | _ => none
  | .locateFrame =>
    match s.served.phase with
    | .live clientName =>
      if s.draft = none then
        let nano := c.host.clock s.env.tick
        s.call clientName s.session (Served.locateFrame c) fun frame s =>
          { s with draft := some ⟨frame, nano, none⟩ }
      else none
    | _ => none
  | .copyData data =>
    match s.served.phase, s.draft with
    | .live clientName, some d =>
      if Party.Admissible data then
        s.call clientName s.session (Served.copyData d.frame data) fun _ s =>
          { s with draft := some { d with data := some data } }
      else none
    | _, _ => none
  | .passFrame msgType lastFlag =>
    match s.served.phase, s.draft with
    | .live clientName, some ⟨frame, nano, some data⟩ =>
      s.call clientName s.session (Served.passFrame c frame data.length msgType lastFlag) fun _ s =>
        { s with draft := none, written := s.written ++ [⟨data, nano, msgType, lastFlag⟩] }
    | _, _ => none
  | .close =>
    match s.served.phase with
    | .live _ => some { s with served := ⟨s.session, .before⟩, draft := none }
    | _ => none

/-- **The sessions of the writers of an empty journal, among the other users of the page server.** -/
def servedSessions (c : Setting) (setup : Setup) : System State Action :=
  ⟨⟨Served.start setup ∅, none, []⟩, step c⟩

/-! ### The simulation -/

/-- The writer is there and has a journal. -/
def State.isOpen (s : State) : Bool :=
  match s.served.phase with
  | .live _ => !s.env.journal.expired
  | _ => false

/-- The state as that of sessions whose pages are all granted. -/
def State.granted (s : State) (isOpen started : Bool) : Sessions.State where
  env := s.env
  isOpen := isOpen
  started := started
  draft := s.draft
  written := s.written
  reader := JournalReader.start ∅
  mark := none
  received := []
  failed := false

/-- As long as no call has thrown, the page files and the writer stand for an abstract journal. -/
def Stands (s : State) : Prop :=
  s.served.phase ≠ .gone → ∃ started a, Sessions.Refines (s.granted s.isOpen started) a

variable {c : Setting} {s t : State} {clientName : CStr} {α : Type}

theorem Stands.start (c : Setting) (setup : Setup) : Stands (servedSessions c setup).init :=
  fun _ => ⟨false, .empty, Sessions.Refines.empty⟩

/-- A call of the writer has returned, or the writer is gone. -/
theorem State.call_cases {start : Session} {x : SessionM α} {next : α → State → State}
    (h : s.call clientName start x next = some t) :
    (∃ a u, Runs x start a u ∧ Party.PagesLeft u.env.files ∧ t = next a { s with served := ⟨u, .live clientName⟩ }) ∨
      t.served.phase = .gone := by
  unfold State.call at h
  rcases runs_or_throws x start with ⟨a, u, hx⟩ | ⟨e, u, hx⟩
  · have hexec : Prog.exec x start = (.ok a, u) := hx
    rw [hexec] at h
    dsimp only at h
    split at h
    · rename_i hleft
      exact .inl ⟨a, u, hx, hleft, (Option.some.inj h).symm⟩
    · cases h
  · have hexec : Prog.exec x start = (.error e, u) := hx
    rw [hexec] at h
    exact .inr (congrArg (fun t : State => t.served.phase) (Option.some.inj h).symm)

theorem isOpen_of_live (hlive : s.served.phase = .live clientName) (hexp : s.env.journal.expired = false) :
    s.isOpen = true := by
  unfold State.isOpen
  rw [hlive, hexp]
  rfl

/-- What the abstract journal does, the writer has done. -/
theorem Stands.of_step {isOpen started : Bool} {a : Sessions.Abs} (act : Sessions.Action) (started' : Bool)
    (hs : Sessions.Refines (s.granted isOpen started) a) (hact : act.IsWriters)
    (hstep : Sessions.step c.host.granting (s.granted isOpen started) act = some (t.granted true started'))
    (hlive : t.served.phase = .live clientName) : Stands t := by
  obtain ⟨hr, -⟩ := hs.step_writer c.host.grants_granting hact hstep
  obtain ⟨l, -, hw⟩ := hr.writer rfl
  have hopen : t.isOpen = true := isOpen_of_live hlive hw.expired
  exact fun _ => ⟨started', _, hopen.symm ▸ hr⟩

/-- A call of the journal, as a step of the sessions. -/
theorem sessions_call {isOpen started : Bool} {x : JournalM α} {next : α → Sessions.State → Sessions.State} {r : α}
    {u : Env} (hx : Runs x s.env r u) (hleft : Party.PagesLeft u.files) :
    (s.granted isOpen started).call x next = some (next r { s.granted isOpen started with env := u }) := by
  have hx' : Runs x (s.granted isOpen started).env r u := hx
  exact Sessions.State.call_enabled next hx' hleft

/-- Without a writer the abstract journal is about the page files and the clock. -/
theorem Stands.of_closed {started : Bool} {a : Sessions.Abs} (hr : Sessions.Refines (s.granted false started) a)
    (ht : t.isOpen = false) (hfiles : t.env.files = s.env.files) (htick : t.env.tick = s.env.tick)
    (hdraft : t.draft = s.draft) (hwritten : t.written = s.written) : Stands t := by
  refine fun _ => ⟨started, a, ?_⟩
  rw [ht]
  exact {
    rep := hfiles ▸ hr.rep
    tick := htick.trans hr.tick
    lt := hr.lt
    started := hr.started
    writer := fun ho => nomatch ho
    draft := hdraft.trans hr.draft
    drafted := fun d hd => nomatch (hr.drafted d hd).1
    written := hwritten.trans hr.written
    failed := rfl }

theorem Stands.create {idx : ℕ} (hs : Stands s) (h : step c s (.create clientName idx) = some t) : Stands t := by
  simp only [step] at h
  split at h
  case isFalse => cases h
  rename_i hcan
  obtain ⟨hphase, -⟩ := hcan
  rcases State.call_cases h with ⟨r, u, hx, hleft, rfl⟩ | hgone
  · obtain ⟨started, a, hr⟩ := hs (by rw [hphase]; exact Phase.noConfusion)
    have hclosed : s.isOpen = false := by
      unfold State.isOpen
      rw [hphase]
    rw [hclosed] at hr
    rcases create_follows hx with hcreate | hidle
    · refine Stands.of_step (c := c) .create true hr trivial ?_ rfl
      have hclosed' : (s.granted false started).isOpen = false := rfl
      simp only [Sessions.step, hclosed', Bool.false_eq_true, if_false]
      exact sessions_call hcreate hleft
    · refine .of_closed hr ?_ hidle.files hidle.tick rfl rfl
      show (!u.env.journal.expired) = false
      rw [hidle.expired]
      rfl
  · exact fun h => absurd hgone h

/-- A writer without a journal locates no frame. -/
theorem frameAddress_expired {u v : Session} {r : ℕ} (hx : Runs (frameAddress c) u r v) :
    u.env.journal.expired = false := by
  by_contra hexp
  have hlocate : Runs (journalLocateFrame c) u none u := by
    unfold journalLocateFrame
    refine (Runs.get u).bind ?_
    rw [if_pos (Bool.eq_true_of_not_eq_false hexp)]
    exact Runs.pure _ u
  unfold frameAddress at hx
  cases (hlocate.exec_bind _).symm.trans hx

theorem writeFrame_expired {u v : Session} {data : List UInt8} {msgType : Int16} {lastFlag : UInt8} {r : Int64}
    (hx : Runs (Served.writeFrame c data msgType lastFlag) u r v) : u.env.journal.expired = false := by
  unfold Served.writeFrame at hx
  have hrest := ((clock_runs u).exec_bind _).symm.trans hx
  obtain ⟨_, _, hlocate, -⟩ := Runs.of_bind hrest
  exact frameAddress_expired (u := u.ticked) hlocate

theorem locateFrame_expired {u v : Session} {r : ℕ} (hx : Runs (Served.locateFrame c) u r v) :
    u.env.journal.expired = false := by
  unfold Served.locateFrame at hx
  have hrest := ((clock_runs u).exec_bind _).symm.trans hx
  obtain ⟨_, _, hlocate, -⟩ := Runs.of_bind hrest
  exact frameAddress_expired (u := u.ticked) hlocate

/-- An open writer. -/
theorem Stands.open (hs : Stands s) (hlive : s.served.phase = .live clientName)
    (hexp : s.env.journal.expired = false) : ∃ started a, Sessions.Refines (s.granted true started) a ∧
      s.env.journal.isWriting = true := by
  obtain ⟨started, a, hr⟩ := hs (by rw [hlive]; exact Phase.noConfusion)
  rw [isOpen_of_live hlive hexp] at hr
  obtain ⟨l, -, hw⟩ := hr.writer rfl
  exact ⟨started, a, hr, hw.isWriting⟩

theorem Stands.writeFrame {data : List UInt8} {msgType : Int16} {lastFlag : UInt8} (hs : Stands s)
    (h : step c s (.writeFrame data msgType lastFlag) = some t) : Stands t := by
  simp only [step] at h
  split at h
  case h_2 => cases h
  rename_i clientName hlive
  split at h
  case isFalse => cases h
  rename_i hcan
  rcases State.call_cases h with ⟨r, u, hx, hleft, rfl⟩ | hgone
  · obtain ⟨started, a, hr, hw⟩ := hs.open hlive (writeFrame_expired hx)
    refine Stands.of_step (c := c) (.writeFrame data msgType lastFlag) started hr trivial ?_ rfl
    have hguard : (s.granted true started).isOpen = true ∧ (s.granted true started).draft = none ∧
      Party.Admissible data := ⟨rfl, hcan⟩
    simp only [Sessions.step]
    rw [if_pos hguard]
    exact sessions_call (writeFrame_follows hw data msgType lastFlag r u hx) hleft
  · exact fun h => absurd hgone h

theorem Stands.locateFrame (hs : Stands s) (h : step c s .locateFrame = some t) : Stands t := by
  simp only [step] at h
  split at h
  case h_2 => cases h
  rename_i clientName hlive
  split at h
  case isFalse => cases h
  rename_i hdraft
  rcases State.call_cases h with ⟨r, u, hx, hleft, rfl⟩ | hgone
  · obtain ⟨started, a, hr, hw⟩ := hs.open hlive (locateFrame_expired hx)
    refine Stands.of_step (c := c) .locateFrame started hr trivial ?_ rfl
    have hguard : (s.granted true started).isOpen = true ∧ (s.granted true started).draft = none := ⟨rfl, hdraft⟩
    simp only [Sessions.step]
    rw [if_pos hguard]
    exact sessions_call (locateFrame_follows hw r u hx) hleft
  · exact fun h => absurd hgone h

/-- Who has a frame to pass has a journal. -/
theorem Stands.drafted (hs : Stands s) {d : Sessions.Draft} (hlive : s.served.phase = .live clientName)
    (hd : s.draft = some d) : ∃ started a, Sessions.Refines (s.granted true started) a := by
  obtain ⟨started, a, hr⟩ := hs (by rw [hlive]; exact Phase.noConfusion)
  have hopen : s.isOpen = true := (hr.drafted d (hr.draft.symm.trans hd)).1
  rw [hopen] at hr
  exact ⟨started, a, hr⟩

theorem Stands.copyData {data : List UInt8} (hs : Stands s) (h : step c s (.copyData data) = some t) : Stands t := by
  simp only [step] at h
  split at h
  case h_2 => cases h
  rename_i clientName d hlive hdraft
  split at h
  case isFalse => cases h
  rename_i hadm
  rcases State.call_cases h with ⟨r, u, hx, hleft, rfl⟩ | hgone
  · obtain ⟨started, a, hr⟩ := hs.drafted hlive hdraft
    refine Stands.of_step (c := c) (.copyData data) started hr trivial ?_ rfl
    have hdraft' : (s.granted true started).draft = some d := hdraft
    simp only [Sessions.step, hdraft']
    rw [if_pos hadm]
    exact sessions_call (copyData_follows d.frame data r u hx) hleft
  · exact fun h => absurd hgone h

theorem Stands.passFrame {msgType : Int16} {lastFlag : UInt8} (hs : Stands s)
    (h : step c s (.passFrame msgType lastFlag) = some t) : Stands t := by
  simp only [step] at h
  split at h
  case h_2 => cases h
  rename_i clientName frame nano data hlive hdraft
  rcases State.call_cases h with ⟨r, u, hx, hleft, rfl⟩ | hgone
  · obtain ⟨started, a, hr⟩ := hs.drafted hlive hdraft
    refine Stands.of_step (c := c) (.passFrame msgType lastFlag) started hr trivial ?_ rfl
    have hdraft' : (s.granted true started).draft = some ⟨frame, nano, some data⟩ := hdraft
    simp only [Sessions.step, hdraft']
    exact sessions_call (passFrame_follows frame data.length msgType lastFlag r u hx) hleft
  · exact fun h => absurd hgone h

/-- A writer that is destroyed leaves the page files as they are. -/
theorem Stands.close (hs : Stands s) (h : step c s .close = some t) : Stands t := by
  simp only [step] at h
  split at h
  case h_2 => cases h
  rename_i clientName hlive
  obtain rfl := Option.some.inj h
  obtain ⟨started, a, hr⟩ := hs (by rw [hlive]; exact Phase.noConfusion)
  cases hopen : s.isOpen with
  | true =>
    rw [hopen] at hr
    obtain ⟨hr', -⟩ := hr.step_writer (t := { s.granted false started with draft := none }) c.host.grants_granting
      (show Sessions.Action.close.IsWriters from trivial) rfl
    exact fun _ => ⟨started, _, hr'⟩
  | false =>
    rw [hopen] at hr
    have hdraft : s.draft = none := by
      refine Option.eq_none_iff_forall_ne_some.mpr fun d hd => ?_
      exact Bool.false_ne_true (hr.drafted d (hr.draft.symm.trans hd)).1
    exact .of_closed hr rfl rfl rfl hdraft.symm rfl

/-- The others do not touch the journal. -/
theorem Stands.others {act : PageEngine.Action} (hs : Stands s) (h : step c s (.others act) = some t) :
    Stands t := by
  simp only [step, Served.step, Option.map_eq_some_iff] at h
  obtain ⟨u, hu, rfl⟩ := h
  split at hu
  · cases hu
  rename_i e _
  split at hu
  case isFalse => cases hu
  obtain rfl := Option.some.inj hu
  exact hs

theorem Stands.step {act : Action} (hs : Stands s) (h : step c s act = some t) : Stands t := by
  cases act with
  | others a => exact hs.others h
  | create clientName idx => exact hs.create h
  | writeFrame data msgType lastFlag => exact hs.writeFrame h
  | locateFrame => exact hs.locateFrame h
  | copyData data => exact hs.copyData h
  | passFrame msgType lastFlag => exact hs.passFrame h
  | close => exact hs.close h

/-! ### All runs -/

/-- The writer has a page, with room on it or a next one that would be granted. -/
def CanWrite (c : Setting) (s : Session) : Prop :=
  s.env.journal.expired = false ∧ ∃ p, s.env.journal.curPage = some p ∧ (HasRoom p.frame ∨ NextGranted c s)

/-- What a state of the sessions owes to the writers and the readers, as long as no call has thrown. -/
structure Kept (c : Setting) (s : State) : Prop where
  /-- a reader from the first page is given what the writers have written -/
  readable : s.served.phase ≠ .gone → ∀ fuel, s.written.length < fuel → ∃ t,
    Runs (JournalReader.readFrom c.host.granting timeFromFirst fuel) (JournalReader.start s.env.files) s.written t
  /-- exactly then a frame can be written -/
  writable : ∀ clientName, s.served.phase = .live clientName → s.draft = none →
    ∀ data msgType lastFlag, Party.Admissible data →
    ((∃ nano t, Runs (Served.writeFrame c data msgType lastFlag) s.session nano t) ↔ CanWrite c s.session)
  /-- a frame that has been copied can be passed -/
  passable : ∀ clientName d data, s.served.phase = .live clientName → s.draft = some d → d.data = some data →
    ∀ msgType lastFlag, ∃ t,
      Runs (Served.passFrame c d.frame data.length msgType lastFlag) s.session ⟨⟩ t

theorem Stands.readable (hs : Stands s) (hphase : s.served.phase ≠ .gone) {fuel : ℕ}
    (hfuel : s.written.length < fuel) : ∃ t,
      Runs (JournalReader.readFrom c.host.granting timeFromFirst fuel) (JournalReader.start s.env.files) s.written t := by
  obtain ⟨started, a, hr⟩ := hs hphase
  have hwritten : s.written = allRecords a.pages := hr.written
  rw [hwritten] at hfuel ⊢
  exact JournalReader.readFrom_first_spec c.host.grants_granting hr.rep hfuel

theorem Stands.writable (hs : Stands s) (hlive : s.served.phase = .live clientName) {data : List UInt8}
    (hadm : Party.Admissible data) (msgType : Int16) (lastFlag : UInt8) :
    (∃ nano t, Runs (Served.writeFrame c data msgType lastFlag) s.session nano t) ↔ CanWrite c s.session := by
  cases hexp : s.env.journal.expired with
  | true =>
    constructor
    · rintro ⟨nano, t, hx⟩
      exact nomatch hexp.symm.trans (writeFrame_expired hx)
    · rintro ⟨hexp', -⟩
      exact nomatch hexp.symm.trans hexp'
  | false =>
    obtain ⟨started, a, hr, -⟩ := hs.open hlive hexp
    obtain ⟨l, hl, hw⟩ := hr.writer rfl
    obtain ⟨al, ad⟩ := a
    obtain rfl : al = some l := hl
    have hw' : WriterAt s.session.env l := hw
    rw [writeFrame_runs_iff hw' hr.lt hadm msgType lastFlag]
    obtain ⟨buffer, hcur⟩ := hw'.curPage
    unfold CanWrite
    rw [hcur]
    constructor
    · intro h
      exact ⟨hexp, _, rfl, h⟩
    · rintro ⟨-, p, hp, h⟩
      obtain rfl := Option.some.inj hp
      exact h

theorem Stands.passable (hs : Stands s) {d : Sessions.Draft} {data : List UInt8}
    (hlive : s.served.phase = .live clientName) (hd : s.draft = some d) (hdata : d.data = some data) (msgType : Int16)
    (lastFlag : UInt8) : ∃ t, Runs (Served.passFrame c d.frame data.length msgType lastFlag) s.session ⟨⟩ t := by
  obtain ⟨started, a, hr⟩ := hs.drafted hlive hd
  obtain ⟨l, hl, hw⟩ := hr.writer rfl
  obtain ⟨-, hdr⟩ := hr.drafted d (hr.draft.symm.trans hd)
  obtain ⟨hframe, hdrafted, hadm⟩ := hdr l hl
  rw [hdata] at hdrafted
  obtain ⟨env, hmoves⟩ := JournalWriter.passFrame_spec (h := c.host) hw hdrafted (hadm data hdata) msgType lastFlag
  rw [← hframe] at hmoves
  exact ⟨{ s.session with env := env }, client_runs.mpr ⟨env, hmoves.runs, rfl⟩⟩

/-- **What the writers have written is read**, whatever the page server and its other users do. -/
theorem written_is_read (c : Setting) (setup : Setup) (as : List Action) :
    (servedSessions c setup).Always (Kept c) (servedSessions c setup).init as := by
  refine System.always_of_step (I := Stands) (fun s act t hs ht => hs.step ht) ?_ as (Stands.start c setup)
  intro s hs
  exact {
    readable := fun hphase fuel hfuel => hs.readable hphase hfuel
    writable := fun clientName hlive _ data msgType lastFlag hadm => hs.writable hlive hadm msgType lastFlag
    passable := fun clientName d data hlive hd hdata msgType lastFlag =>
      hs.passable hlive hd hdata msgType lastFlag }

end Yijinjing.ServedSessions
