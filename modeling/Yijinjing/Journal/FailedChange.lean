import Yijinjing.Journal.LateFrames

/-!
# A page change of a writer that fails

The runs of one journal in which a request for the next page may be answered
`PAGED_COMM_MORE_THAN_ONE_WRITE`, which `write_frame` reports by an exception; the user may go on with
the writer.  That answer leaves the writer as it was.  Any other answer but a page makes
`PageProvider::getPage` return null, and `Journal::loadNextPage` then closes and releases the page it
has, without a next one: `write_frame` dereferences a null page (`fails_safely_iff`).
-/

namespace Yijinjing.FailedChange

open Lib Prog
open Sessions (State Abs Refines)

/-- The same host, except that its `k`-th page request is answered `status`. -/
def answering (h : Host) (k : ℕ) (status : CommStatus) : Host :=
  { h with refuse := fun i => if i = k then some status else h.refuse i }

/-- An answer to a page request that gives no page. -/
def Failing (status : CommStatus) : Prop := status ≠ .allocated ∧ status ≠ .requesting

/-- An open writer whose current page has no room left. -/
structure Full (s : State) : Prop where
  isOpen : s.isOpen = true
  no_draft : s.draft = none
  no_room : ∃ q, s.env.journal.curPage = some q ∧ ¬ HasRoom q.frame

/-! ### The system -/

inductive Action where
  /-- a call whose page requests are granted -/
  | call (a : Sessions.Action)
  /-- a call of `write_frame` on a full page, answered `PAGED_COMM_MORE_THAN_ONE_WRITE` -/
  | refused (data : List UInt8) (msgType : Int16) (lastFlag : UInt8)

/-- There is room at the cursor of the writer. -/
def hasRoom (s : State) : Bool := s.env.journal.curPage.any fun q => decide (HasRoom q.frame)

def step (h : Host) (s : State) : Action → Option State
  | .call a => Sessions.step h s a
  | .refused data msgType lastFlag =>
    if s.isOpen ∧ s.draft = none ∧ hasRoom s = false ∧ Party.Admissible data then
      match Prog.exec (JournalWriter.writeFrame (answering h s.env.asked .moreThanOneWrite) data msgType lastFlag)
          s.env with
      | (.error .moreThanOneWrite, t) => some { s with env := t }
      | (_, t) => some { s with env := t, isOpen := false, failed := true }
    else none

def refusals (h : Host) : System State Action := ⟨State.empty, step h⟩

/-! ### What a failure may leave -/

/-- `write_frame` has thrown `e`, and the writer is as it was. -/
structure Intact (h : Host) (s : State) (e : Error) (t : Env) : Prop where
  /-- no missing page was dereferenced -/
  reported : e ≠ .nullPage
  curPage : t.journal.curPage = s.env.journal.curPage
  /-- no header and no status has changed -/
  files : t.files = s.env.files
  /-- a retry appends the record -/
  retry : ∀ data msgType lastFlag, Party.Admissible data → ∃ nano u,
    Runs (JournalWriter.writeFrame h data msgType lastFlag) t nano u ∧
      ∀ fuel, s.written.length + 1 < fuel → ∃ r,
        Runs (JournalReader.readFrom h timeFromFirst fuel) (JournalReader.start u.files)
          (s.written ++ [⟨data, nano, msgType, lastFlag⟩]) r

/-- Every call of `write_frame` whose page request is answered so leaves the writer intact. -/
def LeavesIntact (h : Host) (s : State) (status : CommStatus) : Prop :=
  ∀ data msgType lastFlag, Party.Admissible data → ∃ e t,
    Throws (JournalWriter.writeFrame (answering h s.env.asked status) data msgType lastFlag) s.env e t ∧
      Intact h s e t

/-- A failed page change leaves the writer intact. -/
def FailsSafely (h : Host) (s : State) : Prop :=
  Full s → ∀ status, Failing status → LeavesIntact h s status

/-- It does for one answer and for no other. -/
def FailsSafelyIff (h : Host) (s : State) : Prop :=
  Full s → ∀ status, Failing status → (LeavesIntact h s status ↔ status = .moreThanOneWrite)

variable {h : Host} {s : Env} {l : Ledger} {status : CommStatus}

/-! ### The page change -/

/-- A refusal is thrown before anything has changed. -/
theorem loadNextPage_throws (hw : WriterAt s l) (hk : h.refuse s.asked = some .moreThanOneWrite) :
    Throws (Journal.loadNextPage h) s .moreThanOneWrite { s with asked := s.asked + 1 } := by
  obtain ⟨buffer, hcur⟩ := hw.curPage
  unfold Journal.loadNextPage
  refine (Runs.get s).bind_throws ?_
  rw [hw.expired, hcur]
  exact Throws.bind (getPage_throws hk _) _

/-- A null page is found out too late: the page before is closed, and there is none. -/
theorem loadNextPage_loses (hw : WriterAt s l) (hk : h.refuse s.asked = some status)
    (ha : status ≠ .allocated) (hm : status ≠ .moreThanOneWrite) :
    ∃ t, Runs (Journal.loadNextPage h) s ⟨⟩ t ∧ t.journal.curPage = none := by
  obtain ⟨buffer, hcur⟩ := hw.curPage
  have hget := getPage_runs_none (n := l.curNo + 1) hk ha hm true
  obtain ⟨u, hfin⟩ : ∃ u, Runs ((Page.after buffer l.curNo l.cur.records).finishPage h)
      { s with asked := s.asked + 1 } ⟨⟩ u := ⟨_, finishPage_runs _ _⟩
  refine ⟨{ u with released := u.released ++ [buffer] }.setCurPage none, ?_, rfl⟩
  unfold Journal.loadNextPage
  refine (Runs.get s).bind ?_
  rw [hw.expired, hcur]
  simp only [hw.isWriting, Bool.false_eq_true, if_false, if_true]
  exact hget.bind (hfin.bind ((releasePage_runs _ _).bind (setCurPage_runs none _)))

theorem locateWritableFrame_throws (hcur : s.journal.curPage = none) :
    Throws Journal.locateWritableFrame s .nullPage s := by
  unfold Journal.locateWritableFrame
  refine (Runs.get s).bind_throws ?_
  rw [hcur]
  exact Throws.throw _ _

/-! ### `write_frame` on a full page -/

/-- The first turn of the loop finds no room, and what the page change throws is thrown. -/
theorem locateFrame_throws {e : Error} {t : Env} (hw : WriterAt s l) (hroom : ¬ HasRoom l.cur.endPos)
    (hloop : Throws (Journal.loadNextPage h >>= fun _ => Journal.locateFrameLoop h 65535) s e t) :
    Throws (Journal.locateFrame h) s e t := by
  have hfuel : Journal.pageFuel = 65535 + 1 := rfl
  have hfirst := (Journal.locateWritableFrame_spec (ρ := none) hw).runs
  rw [if_neg hroom] at hfirst
  have hthrows : Throws (Journal.locateFrameLoop h Journal.pageFuel) s e t := by
    rw [hfuel]
    unfold Journal.locateFrameLoop
    exact hfirst.bind_throws hloop
  unfold Journal.locateFrame
  refine (Runs.get s).bind_throws ?_
  simp only [hw.expired, hw.isWriting, Bool.false_eq_true, if_false, if_true]
  exact hthrows.bind _

/-- `write_frame` takes its clock reading before it makes room. -/
theorem writeFrame_throws {e : Error} {t : Env} (data : List UInt8) (msgType : Int16) (lastFlag : UInt8)
    (hloc : Throws (Journal.locateFrame h) { s with tick := s.tick + 1 } e t) :
    Throws (JournalWriter.writeFrame h data msgType lastFlag) s e t := by
  unfold JournalWriter.writeFrame
  refine (getNanoTime_runs s).bind_throws ?_
  unfold JournalWriter.frameAddress
  exact (hloc.bind _).bind _

variable {st : State} {data : List UInt8} {msgType : Int16} {lastFlag : UInt8}

theorem writeFrame_refused (hw : WriterAt s l) (hroom : ¬ HasRoom l.cur.endPos)
    (hk : h.refuse s.asked = some .moreThanOneWrite) :
    Throws (JournalWriter.writeFrame h data msgType lastFlag) s .moreThanOneWrite
      { s with tick := s.tick + 1, asked := s.asked + 1 } := by
  have hw' := (getNanoTime_spec (h := h) (ρ := none) hw).2
  exact writeFrame_throws _ _ _ (locateFrame_throws hw' hroom ((loadNextPage_throws hw' hk).bind _))

theorem writeFrame_loses (hw : WriterAt s l) (hroom : ¬ HasRoom l.cur.endPos)
    (hk : h.refuse s.asked = some status) (ha : status ≠ .allocated) (hm : status ≠ .moreThanOneWrite)
    (data : List UInt8) (msgType : Int16) (lastFlag : UInt8) :
    ∃ t, Throws (JournalWriter.writeFrame h data msgType lastFlag) s .nullPage t ∧
      t.journal.curPage = none := by
  have hw' := (getNanoTime_spec (h := h) (ρ := none) hw).2
  obtain ⟨t, hload, hcur⟩ := loadNextPage_loses hw' hk ha hm
  refine ⟨t, writeFrame_throws _ _ _ (locateFrame_throws hw' hroom (hload.bind_throws ?_)), hcur⟩
  unfold Journal.locateFrameLoop
  exact (locateWritableFrame_throws hcur).bind _

/-! ### The sessions -/

/-- A full page, as the ledger has it. -/
theorem Full.ledger {a : Abs} (hf : Full st) (hs : Refines st a) :
    ∃ l, a.ledger = some l ∧ WriterAt st.env l ∧ ¬ HasRoom l.cur.endPos := by
  obtain ⟨l, hl, hw⟩ := hs.writer hf.isOpen
  obtain ⟨q, hq, hroom⟩ := hf.no_room
  obtain ⟨buffer, hcur⟩ := hw.curPage
  obtain rfl := Option.some.inj (hq.symm.trans hcur)
  exact ⟨l, hl, hw, hroom⟩

theorem Full.of_ledger (ho : st.isOpen = true) (hs : Refines st ⟨some l, none⟩)
    (hroom : ¬ HasRoom l.cur.endPos) : Full st := by
  obtain ⟨l', hl, hw⟩ := hs.writer ho
  obtain rfl := Option.some.inj hl
  obtain ⟨buffer, hcur⟩ := hw.curPage
  exact ⟨ho, hs.draft, _, hcur, hroom⟩

theorem answering_self (h : Host) (k : ℕ) (status : CommStatus) :
    (answering h k status).refuse k = some status := if_pos rfl

/-- A retry appends the record. -/
theorem retry_appends (hg : h.Grants) {rs : List Record} (hw : WriterAt s l) (hlt : l.pages.length < maxPages)
    (hrs : rs = allRecords l.pages) (hadm : Party.Admissible data) :
    ∃ nano u, Runs (JournalWriter.writeFrame h data msgType lastFlag) s nano u ∧
      ∀ fuel, rs.length + 1 < fuel → ∃ r,
        Runs (JournalReader.readFrom h timeFromFirst fuel) (JournalReader.start u.files)
          (rs ++ [⟨data, nano, msgType, lastFlag⟩]) r := by
  obtain ⟨u, hmoves⟩ := JournalWriter.writeFrame_spec hg hw hlt hadm msgType lastFlag
  refine ⟨_, u, hmoves.runs, fun fuel hfuel => ?_⟩
  have hall := l.allRecords_write h data msgType lastFlag
  rw [← hrs] at hall
  obtain ⟨r, hread⟩ := JournalReader.readFrom_first_spec hg hmoves.2.rep (by
    show (allRecords (l.write h data msgType lastFlag).pages).length < fuel
    rw [hall, List.length_append]
    exact hfuel)
  exact ⟨r, hall ▸ hread⟩

/-- The writer after a refusal, which nobody else notices. -/
theorem Refines.refused {a : Abs} (hs : Refines st a) (hf : Full st) :
    ∃ a', Refines { st with env := { st.env with tick := st.env.tick + 1, asked := st.env.asked + 1 } } a' ∧
      Sessions.Carries st { st with env := { st.env with tick := st.env.tick + 1, asked := st.env.asked + 1 } }
        a a' := by
  obtain ⟨l, hl, hw, -⟩ := hf.ledger hs
  obtain ⟨al, ad⟩ := a
  obtain rfl : al = some l := hl
  obtain rfl : ad = none := hs.draft.symm.trans hf.no_draft
  have hw' := (getNanoTime_spec (h := hostWith fun _ => 5) (ρ := none) hw).2
  refine ⟨⟨some l.readClock, none⟩, ?_, ⟨⟨none, [], .done hs.rep⟩, rfl, rfl, rfl⟩⟩
  exact Refines.of_writer (hw'.congr rfl rfl rfl) hs.lt hs.started hf.no_draft (fun d hd => by cases hd)
    hs.written hs.failed

/-- **At every full page**: the answer decides whether the writer is left intact. -/
theorem Refines.failsSafelyIff (hg : h.Grants) {a : Abs} (hs : Refines st a) : FailsSafelyIff h st := by
  intro hf status hfail
  obtain ⟨l, hl, hw, hroom⟩ := hf.ledger hs
  have hk := answering_self h st.env.asked status
  constructor
  · intro hleaves
    by_contra hm
    obtain ⟨e, t, hthrows, hintact⟩ := hleaves [] 0 0 (by unfold Party.Admissible; decide)
    obtain ⟨u, hloses, -⟩ := writeFrame_loses hw hroom hk hfail.1 hm [] 0 0
    exact hintact.reported (hthrows.det hloses).1
  · rintro rfl data msgType lastFlag -
    refine ⟨_, _, writeFrame_refused hw hroom hk, Error.noConfusion, rfl, rfl, ?_⟩
    intro data' msgType' lastFlag' hadm
    obtain ⟨al, ad⟩ := a
    obtain rfl : al = some l := hl
    have hw' := (getNanoTime_spec (h := h) (ρ := none) hw).2
    exact retry_appends hg (hw'.congr rfl rfl rfl) hs.lt hs.written hadm

theorem Full.of_guard (ho : st.isOpen = true) (hd : st.draft = none) (hroom : hasRoom st = false) {a : Abs}
    (hs : Refines st a) : Full st := by
  obtain ⟨l, -, hw⟩ := hs.writer ho
  obtain ⟨buffer, hcur⟩ := hw.curPage
  refine ⟨ho, hd, _, hcur, ?_⟩
  unfold hasRoom at hroom
  rw [hcur, Option.any_some] at hroom
  exact of_decide_eq_false hroom

/-- **One step**: what holds of every state of the sessions goes on to hold. -/
theorem reached_step (hg : h.Grants) {act : Action} {t : State} (hs : Sessions.Reached st)
    (ht : FailedChange.step h st act = some t) : Sessions.Reached t := by
  cases act with
  | call act => exact hs.step hg ht
  | refused data msgType lastFlag =>
    obtain ⟨a, hs, hr⟩ := hs
    simp only [FailedChange.step] at ht
    split at ht
    · rename_i hguard
      obtain ⟨ho, hd, hroom, -⟩ := hguard
      have hf := Full.of_guard ho hd hroom hs
      obtain ⟨l, -, hw, hroom'⟩ := hf.ledger hs
      have hexec : Prog.exec (JournalWriter.writeFrame (answering h st.env.asked .moreThanOneWrite)
          data msgType lastFlag) st.env = (.error .moreThanOneWrite, _) :=
        writeFrame_refused hw hroom' (answering_self h st.env.asked .moreThanOneWrite)
      rw [hexec] at ht
      obtain rfl := Option.some.inj ht
      obtain ⟨a', hs', hc⟩ := Refines.refused hs hf
      exact ⟨a', hs', hr.carries hs hs' hc⟩
    · cases ht

/-- **A failed page change leaves the writer intact** if and only if the answer was
`PAGED_COMM_MORE_THAN_ONE_WRITE`. -/
theorem fails_safely_iff (h : Host) (as : List Action) :
    (refusals h.granting).Always (FailsSafelyIff h.granting) (refusals h.granting).init as := by
  have hg := h.grants_granting
  refine System.always_of_step (I := Sessions.Reached) (fun s act t hs ht => reached_step hg hs ht) ?_ as
    (Sessions.Reached.init h.granting)
  rintro s ⟨a, hs, -⟩
  exact Refines.failsSafelyIff hg hs

/-! ### A writer that is lost -/

theorem run_calls {as : List Sessions.Action} {s t : State} (hrun : (Sessions.sessions h).run s as = some t) :
    (refusals h).run s (as.map .call) = some t := by
  induction as generalizing s with
  | nil => exact hrun
  | cons a as ih =>
    obtain ⟨u, hu, hrest⟩ := System.run_cons_some hrun
    exact ((refusals h).run_cons_of_step (a := .call a) hu _).trans (ih hrest)

/-- **A writer is lost**: its page is full, and the service cannot rename a file. -/
theorem writer_lost : ∃ as, ¬ (refusals (hostWith fun _ => 5).granting).Always
    (FailsSafely (hostWith fun _ => 5).granting) (refusals (hostWith fun _ => 5).granting).init as := by
  have hg := (hostWith fun _ => 5).grants_granting
  obtain ⟨s, hrun, ho, hs⟩ := Sessions.run_full hg
  refine ⟨_, System.not_always_of_run (run_calls hrun) fun hsafe => ?_⟩
  have hroom : ¬ HasRoom (Ledger.filling (hostWith fun _ => 5).granting 63).cur.endPos :=
    fun hr => absurd ((Ledger.filling_hasRoom_iff _ 63).mp hr) (by decide)
  have hfull := Full.of_ledger ho hs hroom
  have hfail : Failing .cannotRenameFromTemp := ⟨by decide, by decide⟩
  have hiff := Refines.failsSafelyIff hg hs hfull _ hfail
  exact absurd (hiff.mp (hsafe hfull _ hfail)) (by decide)

end Yijinjing.FailedChange
