import Yijinjing.Served.OnlyWriter

/-!
# Invariants of a writer

A property of the session of a writer that its page requests keep, and that does not depend on what the
pages hold, is kept by all its calls (`Kept.call`); if the other users of the engine keep it too, it holds
as long as the writer is there (`Lasting.always`).  `E` is what is left of it when a call throws.
-/

namespace Yijinjing.Served

open Lib Prog PageEngine

variable {c : Setting} {s t : Session} {I E : Session → Prop} {α : Type}

/-! ### Calls of the client alone -/

theorem client_post {p : JournalM α} {Q : α → Env → Prop} {R : Error → Env → Prop} (h : Post p s.env Q R) :
    Post (client p) s (fun a t => ∃ env, Q a env ∧ t = { s with env := env })
      fun e t => ∃ env, R e env ∧ t = { s with env := env } := by
  rcases runs_or_throws p s.env with ⟨a, env, hx⟩ | ⟨e, env, hx⟩
  · have hrun : Runs (client p) s a { s with env := env } := by
      have hexec : p.exec s.env = (.ok a, env) := hx
      show ((p.exec s.env).1, { s with env := (p.exec s.env).2 }) = _
      rw [hexec]
    exact hrun.post ⟨env, h.of_runs hx, rfl⟩
  · have hthrow : Throws (client p) s e { s with env := env } := by
      have hexec : p.exec s.env = (.error e, env) := hx
      show ((p.exec s.env).1, { s with env := (p.exec s.env).2 }) = _
      rw [hexec]
    exact hthrow.post ⟨env, h.of_throws hx, rfl⟩

theorem client_total {p : JournalM α} {Q : α → Env → Prop} (h : Post p s.env Q fun _ _ => False) :
    Post (client p) s (fun a t => ∃ env, Q a env ∧ t = { s with env := env }) fun _ _ => False := by
  refine (client_post h).mono (fun _ _ ht => ht) ?_
  rintro _ _ ⟨_, hf, -⟩
  exact hf

theorem request_runs (n : Int16) (s : Session) : Runs (request c n) s ((after c s.engine s.idx n).comm s.idx).status
    { s with engine := after c s.engine s.idx n } := rfl

/-- A request of the writer, with what the client makes of the answer. -/
theorem request_post (n : Int16) {f : CommStatus → SessionM α}
    {Q : α → Session → Prop} {R : Error → Session → Prop}
    (h : ∀ status, ((after c s.engine s.idx n).comm s.idx).status = status →
      Post (f status) { s with engine := after c s.engine s.idx n } Q R) :
    Post (request c n >>= f) s Q R :=
  .bind ((request_runs n s).post (h _ rfl))

/-- The session with a new journal, before it has a page. -/
def Session.created (s : Session) : Session := { s with env := JournalWriter.created s.env }

/-- The constructor of a writer seeks the end of a new journal. -/
theorem create_post {Q : Unit → Session → Prop} {R : Error → Session → Prop}
    (h : Post (seekEnd c) s.created Q R) : Post (create c) s Q R := by
  have hmodify : Runs (client (modify fun s => { s with journal := Journal.create true })) s ⟨⟩ s.created := rfl
  unfold create
  exact .bind (hmodify.post h)

/-! ### What a page request leads to -/

/-- The page has been granted, and the writer has come to it. -/
structure Came (c : Setting) (n : Int16) (s t : Session) : Prop where
  granted : ((after c s.engine s.idx n).comm s.idx).status = .allocated
  engine : t.engine = after c s.engine s.idx n
  idx : t.idx = s.idx
  arrived : Arrived n s.env t.env

/-- The page has not been granted, and the writer has none. -/
structure Refused (c : Setting) (n : Int16) (s t : Session) : Prop where
  status : ((after c s.engine s.idx n).comm s.idx).status ≠ .allocated
  engine : t.engine = after c s.engine s.idx n
  idx : t.idx = s.idx
  lost : Lost s.env t.env

/-- **The seek of a writer** asks for the last page. -/
theorem seekTime_spec (hw : s.env.journal.isWriting = true) :
    Post (seekTime c timeToLast) s
      (fun _ t => t.turns = s.turns ∧ (Came c (Journal.lastPageNum s.env.files) s t ∨
        Refused c (Journal.lastPageNum s.env.files) s t ∧ t.env.journal.expired = true))
      fun _ t => t.turns = s.turns := by
  unfold seekTime
  refine .bind ((Runs.get s).post ?_)
  rw [Journal.soughtPageNum, if_pos rfl]
  refine request_post _ fun status hst => ?_
  by_cases hgrant : status = .allocated
  · subst hgrant
    refine (client_post (s := { s with engine := after c s.engine s.idx _ }) (seekTime_arrived hw)).mono ?_ ?_
    · rintro _ t ⟨env, henv, rfl⟩
      exact ⟨rfl, .inl ⟨hst, rfl, rfl, henv⟩⟩
    · rintro _ t ⟨env, -, rfl⟩
      rfl
  · refine (client_post (s := { s with engine := after c s.engine s.idx _ }) (seekTime_lost hw hgrant)).mono ?_ ?_
    · rintro _ t ⟨env, ⟨hlost, hexp⟩, rfl⟩
      exact ⟨rfl, .inr ⟨⟨hst ▸ hgrant, rfl, rfl, hlost⟩, hexp⟩⟩
    · rintro _ t ⟨env, -, rfl⟩
      rfl

theorem recordTurn_some {p q : Page} (hcur : s.env.journal.curPage = some q) :
    Runs (recordTurn (some p)) s ⟨⟩
      { s with turns := s.turns ++ [⟨p.pageNum, q.pageNum, s.engine, s.env.files⟩] } := by
  refine (Runs.modify _ s).trans ?_
  rw [hcur]

theorem recordTurn_none (old : Option Page) (hcur : s.env.journal.curPage = none) :
    Runs (recordTurn old) s ⟨⟩ s := by
  refine (Runs.modify _ s).trans ?_
  rw [hcur]
  cases old <;> rfl

/-- **The change of page of a writer** asks for the next one; only then there is a rollover. -/
theorem loadNextPage_spec (hw : s.env.journal.isWriting = true) {p : Page}
    (hcur : s.env.journal.curPage = some p) :
    Post (loadNextPage c) s
      (fun _ t => t = s ∨
        Came c (p.pageNum + 1) s t ∧ t.turns = s.turns ++ [⟨p.pageNum, p.pageNum + 1, t.engine, t.env.files⟩] ∨
        Refused c (p.pageNum + 1) s t ∧ t.turns = s.turns)
      fun _ t => t.turns = s.turns := by
  have hnext : nextPageNum s.env.journal.curPage = p.pageNum + 1 := by rw [hcur, nextPageNum]
  unfold loadNextPage
  refine .bind ((Runs.get s).post ?_)
  split
  · exact (Runs.pure _ s).post (.inl rfl)
  rename_i hexp
  have hexp' := Bool.eq_false_of_not_eq_true hexp
  rw [hnext]
  refine request_post _ fun status hst => ?_
  by_cases hgrant : status = .allocated
  · subst hgrant
    refine .bind ((client_post (s := { s with engine := after c s.engine s.idx _ })
      (loadNextPage_arrived hw hexp')).mono ?_ ?_)
    · rintro _ t ⟨env, henv, rfl⟩
      rw [hnext] at henv
      have hpage := henv.page
      obtain ⟨q, hq, hno⟩ := Option.map_eq_some_iff.mp hpage
      rw [hcur]
      refine (recordTurn_some (s := { s with engine := after c s.engine s.idx _, env := env }) hq).post ?_
      refine .inr (.inl ⟨⟨hst, rfl, rfl, henv⟩, ?_⟩)
      rw [hno]
    · rintro _ t ⟨env, -, rfl⟩
      rfl
  · refine .bind ((client_post (s := { s with engine := after c s.engine s.idx _ })
      (loadNextPage_lost hw hexp' hgrant)).mono ?_ ?_)
    · rintro _ t ⟨env, ⟨hlost, -⟩, rfl⟩
      refine (recordTurn_none (s := { s with engine := after c s.engine s.idx _, env := env }) _ hlost.page).post ?_
      exact .inr (.inr ⟨⟨hst ▸ hgrant, rfl, rfl, hlost⟩, rfl⟩)
    · rintro _ t ⟨env, -, rfl⟩
      rfl

/-! ### Invariants of the calls -/

/-- What the requests of a writer keep. -/
structure Kept (c : Setting) (I E : Session → Prop) : Prop where
  thrown : ∀ s, I s → E s
  onPage : ∀ s env, I s → OnPage s.env env → I { s with env := env }
  seek : ∀ s, I s → Post (seekTime c timeToLast) s (fun _ => I) fun _ => E
  /-- a writer that has lost its page is about to throw -/
  load : ∀ s, I s → s.env.journal.curPage.isSome →
    Post (loadNextPage c) s (fun _ t => I t ∨ t.env.journal.curPage = none ∧ E t) fun _ => E

namespace Kept

variable (hk : Kept c I E)

include hk

theorem client {p : JournalM α} (hp : Keeps OnPage p) (hs : I s) :
    Post (client p) s (fun _ => I) fun _ => E := by
  refine (client_post (hp s.env)).mono ?_ ?_
  · rintro a t ⟨env, henv, rfl⟩
    exact hk.onPage s env hs henv
  · rintro e t ⟨env, henv, rfl⟩
    exact hk.thrown _ (hk.onPage s env hs henv)

theorem locateFrameLoop (fuel : ℕ) (hs : I s ∨ s.env.journal.curPage = none ∧ E s) :
    Post (locateFrameLoop c fuel) s (fun _ => I) fun _ => E := by
  induction fuel generalizing s with
  | zero => exact (Throws.throw _ s).post (hs.elim (hk.thrown s) And.right)
  | succ fuel ih =>
    unfold Served.locateFrameLoop
    refine .bind ?_
    cases hcur : s.env.journal.curPage with
    | none =>
      have hthrow := FailedChange.locateWritableFrame_throws hcur
      refine (client_post (hthrow.post (Q := fun _ _ => False) (E := fun _ env => env = s.env) rfl)).mono ?_ ?_
      · rintro a t ⟨env, hf, -⟩
        exact hf.elim
      · rintro e t ⟨env, rfl, rfl⟩
        exact hs.elim (hk.thrown s) And.right
    | some p =>
      have hi := hs.resolve_right fun h => by
        rw [hcur] at h
        cases h.1
      refine (client_post (onPage_locateWritableFrame s.env)).mono ?_ ?_
      · rintro a t ⟨env, henv, rfl⟩
        have ht := hk.onPage s env hi henv
        cases a with
        | some a => exact (Runs.pure a _).post ht
        | none =>
          refine .bind ((hk.load _ ht ?_).mono (fun _ u hu => ih hu) fun _ _ hu => hu)
          have hpage := congrArg Option.isSome henv.page
          rwa [hcur, Option.isSome_map, Option.isSome_map] at hpage
      · rintro e t ⟨env, henv, rfl⟩
        exact hk.thrown _ (hk.onPage s env hi henv)

theorem journalLocateFrame (hs : I s) : Post (journalLocateFrame c) s (fun _ => I) fun _ => E := by
  unfold Served.journalLocateFrame
  refine .bind ((Runs.get s).post ?_)
  split
  · exact (Runs.pure _ s).post hs
  · exact .bind ((hk.locateFrameLoop _ (.inl hs)).mono (fun _ t ht => (Runs.pure _ t).post ht) fun _ _ ht => ht)

theorem frameAddress (hs : I s) : Post (frameAddress c) s (fun _ => I) fun _ => E := by
  unfold Served.frameAddress
  refine .bind ((hk.journalLocateFrame hs).mono (fun a t ht => ?_) fun _ _ ht => ht)
  cases a with
  | none => exact (Throws.throw _ t).post (hk.thrown t ht)
  | some a => exact (Runs.pure a t).post ht

theorem seekEnd (hs : I s) : Post (seekEnd c) s (fun _ => I) fun _ => E := by
  unfold Served.seekEnd
  refine .bind ((hk.seek s hs).mono (fun _ t ht => ?_) fun _ _ ht => ht)
  exact .bind ((hk.journalLocateFrame ht).mono (fun _ u hu => (Runs.pure _ u).post hu) fun _ _ hu => hu)

theorem writeFrame (hs : I s) (data : List UInt8) (msgType : Int16) (lastFlag : UInt8) :
    Post (writeFrame c data msgType lastFlag) s (fun _ => I) fun _ => E := by
  unfold Served.writeFrame
  refine .bind ((hk.client onPage_getNanoTime hs).mono (fun nano t ht => ?_) fun _ _ ht => ht)
  refine .bind ((hk.frameAddress ht).mono (fun frame u hu => ?_) fun _ _ hu => hu)
  refine .bind ((hk.client (onPage_curPageNum.bind fun n => ?_) hu).mono (fun _ v hv => ?_) fun _ _ hv => hv)
  · exact (onPage_emit fun k => frames_create n k frame _).bind fun _ => onPage_passFrame
  · exact (Runs.pure _ v).post hv

theorem locateFrame (hs : I s) : Post (locateFrame c) s (fun _ => I) fun _ => E := by
  unfold Served.locateFrame
  refine .bind ((hk.client onPage_getNanoTime hs).mono (fun nano t ht => ?_) fun _ _ ht => ht)
  refine .bind ((hk.frameAddress ht).mono (fun frame u hu => ?_) fun _ _ hu => hu)
  refine .bind ((hk.client (onPage_curPageNum.bind fun n => ?_) hu).mono (fun _ v hv => ?_) fun _ _ hv => hv)
  · exact onPage_emit fun k => frames_create n k frame _
  · exact (Runs.pure _ v).post hv

/-- **The calls of a writer keep what its requests keep.** -/
theorem call (hs : I s) (call : Call) : Post (call.prog c) s (fun _ => I) fun _ => E := by
  cases call with
  | seekEnd => exact hk.seekEnd hs
  | writeFrame data msgType lastFlag =>
    exact .bind ((hk.writeFrame hs data msgType lastFlag).mono (fun _ t ht => (Runs.pure _ t).post ht)
      fun _ _ ht => ht)
  | locateFrame =>
    exact .bind ((hk.locateFrame hs).mono (fun _ t ht => (Runs.pure _ t).post ht) fun _ _ ht => ht)
  | copyData frame data => exact hk.client (onPage_copyData frame data) hs
  | passFrame frame length msgType lastFlag =>
    exact hk.client (onPage_writerPassFrame frame length msgType lastFlag) hs

end Kept

/-! ### Whole runs -/

/-- The session of a writer that is about to seek the end of the journal. -/
structure Fresh (c : Setting) (fs : Files) (s : Session) : Prop where
  mine : Mine c s.engine s.idx
  journal : s.env.journal = Journal.create true
  files : s.env.files = fs
  turns : s.turns = []

/-- What holds in the three phases of a writer. -/
def InPhase (fs : Files) (I E : Session → Prop) (s : State) : Prop :=
  match s.phase with
  | .before => Counted s.session.engine ∧ s.session.env.files = fs ∧ s.session.turns = []
  | .live clientName => I s.session ∧ s.session.idx ∈ slotsOf s.session.engine clientName
  | .gone => E s.session

theorem mem_owned_of_slotsOf {e : PageEngine} {name : CStr} {i : ℕ} (hi : i ∈ slotsOf e name) : i ∈ e.owned := by
  unfold slotsOf at hi
  cases hl : e.clientJournals.lookup name with
  | none =>
    rw [hl] at hi
    cases hi
  | some info =>
    rw [hl] at hi
    exact mem_owned.mpr ⟨name, info, hl, hi⟩

/-- The slot that a client has filled in. -/
theorem CanCreate.mine {e : PageEngine} {clientName : CStr} {idx : ℕ} (hc : CanCreate c e clientName idx)
    (hcounted : Counted e) : Mine c e idx := by
  obtain ⟨hslot, hwrites, hhold, honly⟩ := hc
  refine ⟨hcounted, mem_owned_of_slotsOf hslot, hwrites, ?_, honly⟩
  rw [hhold]
  exact CommStatus.noConfusion

/-- The calls of a writer leave the clients of the engine alone. -/
theorem kept_clients (journals : AList fun _ : CStr => PageClientInfo) (idx : ℕ) :
    Kept c (fun s => s.engine.clientJournals = journals ∧ s.idx = idx) fun _ => True := by
  have hclient : ∀ {β : Type} (p : JournalM β) (s : Session), s.engine.clientJournals = journals ∧ s.idx = idx →
      Post (client p) s (fun _ t => t.engine.clientJournals = journals ∧ t.idx = idx) fun _ _ => True := by
    intro β p s hs
    have hp : Post p s.env (fun _ _ => True) fun _ _ => True := by
      rcases runs_or_throws p s.env with ⟨a, t, hx⟩ | ⟨e, t, hx⟩
      · exact hx.post trivial
      · exact hx.post trivial
    refine (client_post hp).mono ?_ fun _ _ _ => trivial
    rintro a t ⟨env, -, rfl⟩
    exact hs
  have hasked : ∀ (s : Session) (n : Int16), s.engine.clientJournals = journals ∧ s.idx = idx →
      (after c s.engine s.idx n).clientJournals = journals ∧ s.idx = idx := fun s n hs =>
    ⟨((keeps_answer (s.engine.ask s.idx n) s.idx (c.addr s.engine)).clientJournals).trans hs.1, hs.2⟩
  refine ⟨fun _ _ => trivial, fun _ _ hs _ => hs, fun s hs => ?_, fun s hs _ => ?_⟩
  · unfold seekTime
    exact .bind ((Runs.get s).post (.bind ((request_runs _ s).post (hclient _ _ (hasked s _ hs)))))
  · unfold loadNextPage
    refine .bind ((Runs.get s).post ?_)
    split
    · exact (Runs.pure _ s).post (.inl hs)
    · refine .bind ((request_runs _ s).post (.bind ((hclient _ _ (hasked s _ hs)).mono (fun _ t ht => ?_) fun _ _ h => h)))
      refine (Runs.modify _ t).post (.inl ?_)
      split <;> exact ht

/-- What the requests of a writer keep from the seek on with which it starts, and the other users of the
engine as long as they leave its slot and its counts alone. -/
structure Lasting (c : Setting) (fs : Files) (I E : Session → Prop) : Prop where
  kept : Kept c I E
  fresh : ∀ s, Fresh c fs s → I s
  mine : ∀ s, I s → Mine c s.engine s.idx
  others : ∀ s e, I s → Mine c e s.idx → Untouched c s.idx s.engine e → I { s with engine := e }
  finished : ∀ s e, E s → E { s with engine := e }

namespace Lasting

variable {fs : Files} {st st' : State} {p : SessionM Unit} {clientName : CStr}

/-- A call of the writer: it is still there, or its call has thrown. -/
theorem execCall (hs : s.idx ∈ slotsOf s.engine clientName)
    (hp : Post p s (fun _ => I) fun _ => E)
    (hclients : Post p s (fun _ t => t.engine.clientJournals = s.engine.clientJournals ∧ t.idx = s.idx)
      fun _ _ => True) {phase : Phase} : InPhase fs I E (execCall ⟨s, phase⟩ clientName p) := by
  unfold Served.execCall
  rcases runs_or_throws p s with ⟨a, t, hx⟩ | ⟨e, t, hx⟩
  · have hexec : p.exec s = (.ok a, t) := hx
    obtain ⟨hjournals, hidx⟩ := hclients.of_runs hx
    dsimp only
    rw [hexec]
    refine ⟨hp.of_runs hx, ?_⟩
    show t.idx ∈ slotsOf t.engine clientName
    unfold slotsOf at hs ⊢
    rwa [hjournals, hidx]
  · have hexec : p.exec s = (.error e, t) := hx
    dsimp only
    rw [hexec]
    exact hp.of_throws hx

/-- **One step**: a call of the writer, or an action of somebody else. -/
theorem step (hl : Lasting c fs I E) (hi : InPhase fs I E st) {a : Action} (h : step c st a = some st') :
    InPhase fs I E st' := by
  obtain ⟨s, phase⟩ := st
  cases a with
  | others a =>
    simp only [Served.step] at h
    split at h
    · cases h
    rename_i e hstep
    split at h
    case isFalse => cases h
    rename_i hleaves
    obtain rfl := Option.some.inj h
    cases phase with
    | before => exact ⟨hi.1.step hstep, hi.2⟩
    | live clientName =>
      obtain ⟨hasks, hslot, honly⟩ := hleaves
      obtain ⟨hm, hu⟩ := (hl.mine s hi.1).others hasks hstep (mem_owned_of_slotsOf hslot) honly
      exact ⟨hl.others s e hi.1 hm hu, hslot⟩
    | gone => exact hl.finished s e hi
  | create clientName idx =>
    simp only [Served.step] at h
    split at h
    case isFalse => cases h
    rename_i hcan
    obtain ⟨rfl, hcan⟩ := hcan
    obtain rfl := Option.some.inj h
    obtain ⟨hcounted, hfiles, hturns⟩ := hi
    have hmine : Mine c s.engine idx := hcan.mine hcounted
    let s₀ : Session := { s with idx := idx }
    have hfresh : I s₀.created := hl.fresh s₀.created ⟨hmine, rfl, hfiles, hturns⟩
    refine execCall (s := s₀) hcan.1 ?_ ?_
    · exact create_post (hl.kept.seekEnd hfresh)
    · exact create_post ((kept_clients s.engine.clientJournals idx).seekEnd ⟨rfl, rfl⟩)
  | call call =>
    simp only [Served.step] at h
    cases phase with
    | before => cases h
    | live clientName =>
      obtain rfl := Option.some.inj h
      exact execCall hi.2 (hl.kept.call hi.1 call)
        ((kept_clients s.engine.clientJournals s.idx).call ⟨rfl, rfl⟩ call)
    | gone => cases h

/-- **A whole run**: the property holds as long as the writer is there, and what is left of it afterwards. -/
theorem always (hl : Lasting c fs I E) (setup : Setup) (as : List Action) {P : State → Prop}
    (hP : ∀ s, InPhase fs I E s → P s) : (served c setup fs).Always P (start setup fs) as :=
  System.always_of_step (fun _ _ _ hi h => hl.step hi h) hP as ⟨.start setup, rfl, rfl⟩

end Lasting

end Yijinjing.Served
