import Yijinjing.Journal.Crash
import Yijinjing.Journal.Sessions

/-!
# A writer that dies inside a write

The runs of one journal in which the writer uses both write paths and may die between any two of its
stores, and in which a new writer takes over afterwards.  A payload that is copied only in part is the
copy of a shorter payload.  A reader comes and reads at any moment.

Whatever a dead writer leaves behind the last WRITTEN frame, the status there is RAW, and the next
writer stores over the rest before it stores WRITTEN.  So outside of a page change a new writer goes on
exactly where the written frames end, and readers never see the leftovers (`crash_recovered`).
-/

namespace Yijinjing.Recovery

open Lib Prog
open Sessions (Draft)

structure State where
  party : Party
  /-- the frame that has been located and not yet passed -/
  draft : Option Draft
  reader : Env
  /-- what the reader has been given since it sought the first page -/
  received : Option (List Record)
  /-- a call has thrown -/
  failed : Bool

inductive Action where
  /-- a call of the writer begins -/
  | create
  | writeFrame (data : List UInt8) (msgType : Int16) (lastFlag : UInt8)
  | locateFrame
  | copyData (data : List UInt8)
  | passFrame (msgType : Int16) (lastFlag : UInt8)
  /-- the next store of the call takes place -/
  | store
  /-- the writer process dies -/
  | die
  /-- a reader seeks the first page, or calls `getNextFrame` -/
  | seekFirst
  | getNextFrame

namespace State

def empty : State where
  party := Party.empty
  draft := none
  reader := JournalReader.start ∅
  received := none
  failed := false

/-- A call of the writer begins; `draft` is what it locates. -/
def call {α : Type} (s : State) (x : JournalM α) (ρ : α → Option Record) (draft : α → Option Draft) :
    Option State :=
  match Prog.exec x s.party.start with
  | (.ok a, t) =>
    if Party.PagesLeft t.files then some { s with party := s.party.call x ρ, draft := draft a } else none
  | (.error _, _) => some { s with party := s.party.call x ρ, draft := none, failed := true }

/-- The reader looks at the page files as they are. -/
def readerEnv (s : State) : Env := { s.reader with files := s.party.files }

end State

def step (h : Host) (s : State) : Action → Option State
  | .create =>
    if s.party.alive then none else s.call (JournalWriter.create h) (fun _ => none) fun _ => none
  | .writeFrame data msgType lastFlag =>
    if s.party.alive ∧ s.party.todo = [] ∧ Party.Admissible data then
      s.call (JournalWriter.writeFrame h data msgType lastFlag)
        (fun nano => some ⟨data, nano, msgType, lastFlag⟩) fun _ => none
    else none
  | .locateFrame =>
    if s.party.alive ∧ s.party.todo = [] then
      s.call (JournalWriter.locateFrame h) (fun _ => none) fun frame =>
        some ⟨frame, h.clock s.party.env.tick, none⟩
    else none
  | .copyData data =>
    match s.draft with
    | some d =>
      if s.party.todo = [] ∧ Party.Admissible data then
        s.call (JournalWriter.copyData d.frame data) (fun _ => none) fun _ => some { d with data := some data }
      else none
    | none => none
  | .passFrame msgType lastFlag =>
    match s.draft with
    | some ⟨frame, nano, some data⟩ =>
      if s.party.todo = [] then
        s.call (JournalWriter.passFrame h frame data.length msgType lastFlag)
          (fun _ => some ⟨data, nano, msgType, lastFlag⟩) fun _ => none
      else none
    | _ => none
  | .store => s.party.perform.map fun party => { s with party := party }
  | .die => if s.party.alive then some { s with party := s.party.die, draft := none } else none
  | .seekFirst =>
    match Prog.exec (Journal.seekTime h timeFromFirst) (JournalReader.start s.party.files) with
    | (.ok true, t) => some { s with reader := t, received := some [] }
    | (.ok false, t) => some { s with reader := t, received := none }
    | (.error _, t) => some { s with reader := t, received := none, failed := true }
  | .getNextFrame =>
    match s.received with
    | some rs =>
      match Prog.exec (JournalReader.getNextFrame h) s.readerEnv with
      | (.ok r, t) => some { s with reader := t, received := some (rs ++ r.toList) }
      | (.error _, t) => some { s with reader := t, failed := true }
    | none => none

def recovery (h : Host) : System State Action := ⟨State.empty, step h⟩

/-! ### What recovery is -/

/-- The cursor of a writer stands exactly behind the last frame whose WRITTEN was stored. -/
structure AtEnd (p : Party) (q : Page) : Prop where
  last_page : q.pageNum = Journal.lastPageNum p.files
  scanned : (Page.new q.buffer q.pageNum).passWrittenFrame (p.files.buffer q.pageNum) = some q
  raw : Frame.getStatus (p.files.buffer q.pageNum) q.frame = journalFrameStatusRaw
  /-- what it has passed are the last of the published records -/
  records : ∃ rs, Chain (p.files.buffer q.pageNum) pageInitPosition rs ∧ q.frameNum = rs.length ∧
    rs <:+ p.published
  /-- the pages before lead there -/
  closed : ∀ n, 0 < n → n < q.pageNum → Crash.EndsInPageEnd p.files n

structure Recovered (h : Host) (s : State) : Prop where
  not_failed : s.failed = false
  /-- a writer between two calls, a new one too, stands behind the last written frame -/
  positioned : s.party.alive = true → s.party.todo = [] →
    ∃ q, s.party.env.journal.curPage = some q ∧ AtEnd s.party q
  /-- a reader from the first page is given every frame whose WRITTEN was stored -/
  delivered : ∀ fuel, s.party.published.length < fuel → ∃ t,
    Runs (JournalReader.readFrom h timeFromFirst fuel) (JournalReader.start s.party.files)
      s.party.published t
  /-- a reader that has been given some of them is given the others -/
  followed : ∀ rs, s.received = some rs → ∀ fuel, s.party.published.length < fuel →
    ∃ rest t, Runs (JournalReader.drain h fuel) s.readerEnv rest t ∧ rs ++ rest = s.party.published

/-- The writer does not die in the middle of a page change. -/
def Orderly (s : State) : Action → Prop
  | .die => ¬ Crash.MidRollover s.party
  | _ => True

/-! ### The invariant -/

/-- The located frame is the one at the cursor, with its time and the payload copied so far. -/
structure DraftAt (e : Env) (d : Draft) : Prop where
  drafted : ∃ q, e.journal.curPage = some q ∧ d.frame = q.frame ∧ HasRoom q.frame ∧
    Frame.getNano (e.files.buffer q.pageNum) q.frame = d.nano ∧
    (e.files.buffer q.pageNum).load (q.frame + basicFrameHeaderLength) (d.data.getD []).length =
      d.data.getD []
  admissible : ∀ data, d.data = some data → Party.Admissible data

structure Inv (s : State) (v : View) : Prop where
  party : PartyRep s.party v
  dead : s.party.alive = false →
    s.party.todo = [] ∧ v.pages.length < maxPages ∧ (v.opening = true → v.pages = [])
  draft : ∀ d, s.draft = some d → s.party.alive = true ∧ DraftAt s.party.env d
  reader : ∀ rs, s.received = some rs →
    ∃ i j, ReaderAt s.reader v i j ∧ rs = taken (recordRows v.pages) i j
  not_failed : s.failed = false

variable {h : Host} {s t : State} {v w : View} {l l' : Ledger} {e : Env} {d : Draft}

theorem Inv.empty : Inv State.empty ⟨[], false⟩ where
  party := PartyRep.empty
  dead _ := ⟨rfl, by decide, fun ho => Bool.noConfusion ho⟩
  draft d hd := by cases hd
  reader rs hrs := by cases hrs
  not_failed := rfl

theorem DraftAt.of_drafted (hw : WriterAt e l) (hd : JournalWriter.Drafted e l d.nano (d.data.getD []))
    (hframe : d.frame = l.cur.endPos) (hadm : ∀ data, d.data = some data → Party.Admissible data) :
    DraftAt e d := by
  obtain ⟨buffer, hcur⟩ := hw.curPage
  exact ⟨⟨_, hcur, hframe, hd.hasRoom, hd.nano, hd.data⟩, hadm⟩

theorem DraftAt.drafted_of (hw : WriterAt e l) (hd : DraftAt e d) :
    d.frame = l.cur.endPos ∧ JournalWriter.Drafted e l d.nano (d.data.getD []) := by
  obtain ⟨buffer, hcur⟩ := hw.curPage
  obtain ⟨q, hq, hframe, hroom, hnano, hdata⟩ := hd.drafted
  obtain rfl : q = Page.after buffer l.curNo l.cur.records := Option.some.inj (hq.symm.trans hcur)
  exact ⟨hframe, hroom, hnano, hdata⟩

/-- A party at rest has the files that its last call has left. -/
theorem PartyRep.files_at_rest {p : Party} (hp : PartyRep p v) (htodo : p.todo = []) :
    p.files = p.env.files := by
  obtain ⟨w, hs, -⟩ := hp.script
  rw [htodo] at hs
  exact hs.nil_inv.1

/-- The draft of a party at rest. -/
theorem DraftAt.at_rest {p : Party} (hd : DraftAt p.env d) (hp : PartyRep p v) (htodo : p.todo = []) :
    DraftAt p.start d := by
  obtain ⟨⟨q, hq, hframe, hroom, hnano, hdata⟩, hadm⟩ := hd
  rw [← PartyRep.files_at_rest hp htodo] at hnano hdata
  exact ⟨⟨q, hq, hframe, hroom, hnano, hdata⟩, hadm⟩

/-! ### The calls of the writer -/

/-- A call that succeeds. -/
theorem Inv.call {α : Type} {x : JournalM α} {ρ : α → Option Record} {draft : α → Option Draft} {a : α}
    (hs : Inv s v) (hx : Calls (ρ a) x s.party.start v a e ⟨l.pages, false⟩) (hw : WriterAt e l)
    (hd : ∀ d, draft a = some d → DraftAt e d) (ht : s.call x ρ draft = some t) :
    Inv t v ∧ t.party.files = s.party.files := by
  have hruns : Prog.exec x s.party.start = (.ok a, e) := hx.runs
  unfold State.call at ht
  rw [hruns] at ht
  dsimp only at ht
  split at ht
  · rename_i hleft
    obtain rfl := Option.some.inj ht
    have hlt := hw.rep.pagesLeft_iff.mp hleft
    obtain ⟨hp, hlive, hfiles, henv⟩ := hs.party.call (ρ := ρ) hx hw (by simpa [View.numFiles] using hlt)
    refine ⟨⟨hp, fun hdead => ?_, fun d hd' => ⟨hlive, ?_⟩, hs.reader, hs.not_failed⟩, hfiles⟩
    · rw [hlive] at hdead
      cases hdead
    · show DraftAt (s.party.call x ρ).env d
      rw [henv]
      exact hd d hd'
  · cases ht

theorem Inv.create (hg : h.Grants) (hs : Inv s v) (ht : step h s .create = some t) :
    Inv t v ∧ t.party.files = s.party.files := by
  simp only [step] at ht
  split at ht
  · cases ht
  · rename_i hlive
    obtain ⟨-, hlt, hopen⟩ := hs.dead (by simpa using hlive)
    obtain ⟨e, hcalls, hw⟩ :=
      JournalWriter.create_spec (ρ := none) (s := s.party.start) hg ⟨hs.party.rep, hopen⟩ hlt
    exact hs.call (ρ := fun _ => none) hcalls hw (fun d hd => by cases hd) ht

theorem Inv.writeFrame (hg : h.Grants) (hs : Inv s v) {data : List UInt8} {msgType : Int16}
    {lastFlag : UInt8} (ht : step h s (.writeFrame data msgType lastFlag) = some t) :
    Inv t v ∧ t.party.files = s.party.files := by
  simp only [step] at ht
  split at ht
  · rename_i hguard
    obtain ⟨hlive, htodo, hadm⟩ := hguard
    obtain ⟨l, hw, rfl, hlt⟩ := hs.party.at_rest hlive htodo
    obtain ⟨e, hmoves⟩ := JournalWriter.writeFrame_spec hg hw hlt hadm msgType lastFlag
    exact hs.call (ρ := fun nano => some ⟨data, nano, msgType, lastFlag⟩) hmoves.1 hmoves.2
      (fun d hd => by cases hd) ht
  · cases ht

theorem Inv.locateFrame (hg : h.Grants) (hs : Inv s v) (ht : step h s .locateFrame = some t) :
    Inv t v ∧ t.party.files = s.party.files := by
  simp only [step] at ht
  split at ht
  · rename_i hguard
    obtain ⟨hlive, htodo⟩ := hguard
    obtain ⟨l, hw, rfl, hlt⟩ := hs.party.at_rest hlive htodo
    obtain ⟨e, hmoves, hdr⟩ := JournalWriter.locateFrame_spec (ρ := none) hg hw hlt
    refine hs.call (ρ := fun _ => none) hmoves.1 hmoves.2 (fun d hd => ?_) ht
    obtain rfl := Option.some.inj hd
    have htick : s.party.env.tick = l.tick := hw.tick
    rw [← htick] at hdr
    exact .of_drafted hmoves.2 hdr rfl fun data hdata => by cases hdata
  · cases ht

theorem Inv.copyData (hs : Inv s v) {data : List UInt8} (ht : step h s (.copyData data) = some t) :
    Inv t v ∧ t.party.files = s.party.files := by
  simp only [step] at ht
  split at ht
  · rename_i d hdraft
    split at ht
    · rename_i hguard
      obtain ⟨htodo, hadm⟩ := hguard
      obtain ⟨hlive, hd⟩ := hs.draft d hdraft
      obtain ⟨l, hw, rfl, hlt⟩ := hs.party.at_rest hlive htodo
      obtain ⟨hframe, hdr⟩ := (hd.at_rest hs.party htodo).drafted_of hw
      obtain ⟨e, hmoves, hdr'⟩ := JournalWriter.copyData_spec (ρ := none) hw hdr data
      rw [← hframe] at hmoves
      refine hs.call (ρ := fun _ => none) hmoves.1 hmoves.2 (fun d' hd' => ?_) ht
      obtain rfl := Option.some.inj hd'
      refine .of_drafted hmoves.2 hdr' hframe fun data' hdata => ?_
      obtain rfl := Option.some.inj hdata
      exact hadm
    · cases ht
  · cases ht

theorem Inv.passFrame (hs : Inv s v) {msgType : Int16} {lastFlag : UInt8}
    (ht : step h s (.passFrame msgType lastFlag) = some t) : Inv t v ∧ t.party.files = s.party.files := by
  simp only [step] at ht
  split at ht
  · rename_i frame nano data hdraft
    split at ht
    · rename_i htodo
      obtain ⟨hlive, hd⟩ := hs.draft _ hdraft
      obtain ⟨l, hw, rfl, hlt⟩ := hs.party.at_rest hlive htodo
      obtain ⟨hframe, hdr⟩ := (hd.at_rest hs.party htodo).drafted_of hw
      obtain ⟨e, hmoves⟩ :=
        JournalWriter.passFrame_spec (h := h) hw hdr (hd.admissible data rfl) msgType lastFlag
      obtain rfl : frame = l.cur.endPos := hframe
      exact hs.call (ρ := fun _ => some ⟨data, nano, msgType, lastFlag⟩) hmoves.1 hmoves.2
        (fun d hd => by cases hd) ht
    · cases ht
  · cases ht

/-! ### The other steps -/

/-- A store: the view moves, and a reader stays where it is. -/
theorem Inv.store (hs : Inv s v) (ht : step h s .store = some t) :
    ∃ w f, Next s.party.current s.party.files v f w ∧ t.party.files = f.exec s.party.files ∧ Inv t w := by
  obtain ⟨p, hp, rfl⟩ := Option.map_eq_some_iff.mp ht
  obtain ⟨w, f, hn, hfiles, henv, hlive, htodo, hrep⟩ := hs.party.perform hp
  refine ⟨w, f, hn, hfiles, hrep, fun hd => ?_, fun d hd => ?_, fun rs hrs => ?_, hs.not_failed⟩
  · -- the dead have nothing to do
    exact absurd (hs.dead (hlive.symm.trans hd)).1 htodo
  · obtain ⟨hd1, hd2⟩ := hs.draft d hd
    exact ⟨hlive.trans hd1, by rw [henv]; exact hd2⟩
  · obtain ⟨i, j, hat, rfl⟩ := hs.reader rs hrs
    exact ⟨i, j, hat.next hn, (hn.grows.taken_eq hat.place).symm⟩

theorem Inv.die (hs : Inv s v) (hord : Orderly s .die) (ht : step h s .die = some t) :
    Inv t v ∧ t.party.files = s.party.files := by
  simp only [step] at ht
  split at ht
  · rename_i hlive
    obtain rfl := Option.some.inj ht
    have hopen := Crash.PartyRep.not_opening hs.party hlive hord
    exact ⟨⟨hs.party.die, fun _ => ⟨rfl, hs.party.length_lt hlive, hopen⟩, fun d hd => (by cases hd),
      hs.reader, hs.not_failed⟩, rfl⟩
  · cases ht

theorem Inv.seekFirst (hg : h.Grants) (hs : Inv s v) (ht : step h s .seekFirst = some t) :
    Inv t v ∧ t.party.files = s.party.files := by
  have hr : Rep (JournalReader.start s.party.files).files v := hs.party.rep
  simp only [step] at ht
  by_cases hnil : v.pages = []
  · obtain ⟨e, hseek, -⟩ := JournalReader.seekTime_nil hg hr hnil rfl timeFromFirst
    have hexec : Prog.exec (Journal.seekTime h timeFromFirst) (JournalReader.start s.party.files) =
        (.ok false, e) := hseek
    rw [hexec] at ht
    obtain rfl := Option.some.inj ht
    exact ⟨⟨hs.party, hs.dead, hs.draft, fun rs hrs => (by cases hrs), hs.not_failed⟩, rfl⟩
  · obtain ⟨e, hseek, -, hat⟩ := Journal.seekTime_fromFirst_spec hg hr hnil rfl
    have hexec : Prog.exec (Journal.seekTime h timeFromFirst) (JournalReader.start s.party.files) =
        (.ok true, e) := hseek
    rw [hexec] at ht
    obtain rfl := Option.some.inj ht
    refine ⟨⟨hs.party, hs.dead, hs.draft, fun rs hrs => ?_, hs.not_failed⟩, rfl⟩
    obtain rfl := Option.some.inj hrs
    exact ⟨0, 0, hat, taken_zero.symm⟩

theorem Inv.getNextFrame (hg : h.Grants) (hs : Inv s v) (ht : step h s .getNextFrame = some t) :
    Inv t v ∧ t.party.files = s.party.files := by
  simp only [step] at ht
  split at ht
  · rename_i rs hrs
    obtain ⟨i, j, hat, rfl⟩ := hs.reader rs hrs
    have hat' : ReaderAt s.readerEnv v i j := ⟨hat.place, hat.isWriting, hat.expired, hat.curPage⟩
    have hr : Rep s.readerEnv.files v := hs.party.rep
    obtain ⟨e, i', j', hnext, -, hat'', hahead⟩ := JournalReader.getNextFrame_spec hg hr hat'
    have hexec : Prog.exec (JournalReader.getNextFrame h) s.readerEnv =
        (.ok (v.ahead i j).head?, e) := hnext
    rw [hexec] at ht
    obtain rfl := Option.some.inj ht
    refine ⟨⟨hs.party, hs.dead, hs.draft, fun rs hrs => ?_, hs.not_failed⟩, rfl⟩
    obtain rfl := Option.some.inj hrs
    exact ⟨i', j', hat'', (taken_of_left_tail hat.place hat''.place hahead).symm⟩
  · cases ht

/-- What a step does to the files and the view. -/
inductive Moved (ρ : Option Record) (fs : Files) (v : View) : Files → View → Prop
  | same : Moved ρ fs v fs v
  | store {f : Effect} {w : View} : Next ρ fs v f w → Moved ρ fs v (f.exec fs) w

theorem Moved.grown {ρ : Option Record} {fs fs' : Files} (hm : Moved ρ fs v fs' w) :
    Grown (recordRows v.pages) (recordRows w.pages) := by
  cases hm with
  | same => exact .refl
  | store hn => exact hn.grows.grown

theorem Moved.of_eq {ρ : Option Record} {fs fs' : Files} (h : fs' = fs) : Moved ρ fs v fs' v := h ▸ .same

/-- **One step.** -/
theorem Inv.step (hg : h.Grants) (a : Action) (hs : Inv s v) (hord : Orderly s a)
    (ht : step h s a = some t) :
    ∃ w, Moved s.party.current s.party.files v t.party.files w ∧ Inv t w := by
  have same : Inv t v ∧ t.party.files = s.party.files →
      ∃ w, Moved s.party.current s.party.files v t.party.files w ∧ Inv t w :=
    fun ⟨hi, hf⟩ => ⟨v, .of_eq hf, hi⟩
  cases a with
  | create => exact same (hs.create hg ht)
  | writeFrame => exact same (hs.writeFrame hg ht)
  | locateFrame => exact same (hs.locateFrame hg ht)
  | copyData => exact same (hs.copyData ht)
  | passFrame => exact same (hs.passFrame ht)
  | store =>
    obtain ⟨w, f, hn, hfiles, hi⟩ := hs.store ht
    exact ⟨w, hfiles ▸ .store hn, hi⟩
  | die => exact same (hs.die hord ht)
  | seekFirst => exact same (hs.seekFirst hg ht)
  | getNextFrame => exact same (hs.getNextFrame hg ht)

/-! ### Recovery -/

/-- The cursor of a writer at rest. -/
theorem AtEnd.of_writer {p : Party} (hp : PartyRep p v) (hlive : p.alive = true) (htodo : p.todo = []) :
    ∃ q, p.env.journal.curPage = some q ∧ AtEnd p q := by
  obtain ⟨l, hw, rfl, -⟩ := hp.at_rest hlive htodo
  obtain ⟨buffer, hcur⟩ := hw.curPage
  obtain ⟨b, hb, hpage⟩ := hw.last
  have hbuf : p.files.buffer l.curNo = b := Files.buffer_of_lookup hb
  have hno : (Page.after buffer l.curNo l.cur.records).pageNum = l.curNo := rfl
  refine ⟨_, hcur, ?_, ?_, ?_, ⟨l.cur.records, ?_, rfl, ?_⟩, fun n hn hlt => ?_⟩
  · exact (hp.rep.lastPageNum_eq).symm
  · rw [hno, hbuf]
    exact passWrittenFrame_end hpage hw.roomy (by decide) (q := []) rfl
  · rw [hno, hbuf]
    exact hpage.status
  · rw [hno, hbuf]
    exact hpage.chain
  · rw [hp.published]
    show _ <:+ allRecords (l.closed ++ [l.cur])
    rw [allRecords_append]
    exact ⟨allRecords l.closed, by simp⟩
  · obtain ⟨i, hi, rfl⟩ := exists_pageNo hn
    have hle := hw.rep.ok.length_le
    rw [l.length_pages] at hle
    have := (pageNo_lt hi (by omega)).mp hlt
    refine Crash.endsInPageEnd_of_rep hp.rep ?_
    rw [l.length_pages]
    omega

theorem Inv.recovered (hg : h.Grants) (hs : Inv s v) : Recovered h s := by
  refine ⟨hs.not_failed, fun hlive htodo => AtEnd.of_writer hs.party hlive htodo, fun fuel hfuel => ?_,
    fun rs hrs fuel hfuel => ?_⟩
  · rw [hs.party.published] at hfuel ⊢
    exact JournalReader.readFrom_first_spec hg hs.party.rep hfuel
  · obtain ⟨i, j, hat, rfl⟩ := hs.reader rs hrs
    have hat' : ReaderAt s.readerEnv v i j := ⟨hat.place, hat.isWriting, hat.expired, hat.curPage⟩
    have hr : Rep s.readerEnv.files v := hs.party.rep
    have hall := taken_append_left j hat.place.1
    rw [hs.party.published] at hfuel ⊢
    have hlen : (v.ahead i j).length < fuel := by
      have hsum := congrArg List.length hall
      rw [List.length_append] at hsum
      exact Nat.lt_of_le_of_lt (Nat.le.intro ((Nat.add_comm _ _).trans hsum)) hfuel
    obtain ⟨e, i', j', hdrain, -⟩ := JournalReader.drain_spec hg hr hat' hlen
    exact ⟨_, e, hdrain, hall⟩

/-! ### Runs of a writer that `write_frame` is enough for -/

/-- The writer that `Crash` has. -/
def lift : Crash.Action → Action
  | .create => .create
  | .write data msgType lastFlag => .writeFrame data msgType lastFlag
  | .store => .store
  | .die => .die

/-- A call that leaves the writer alive. -/
theorem State.call_of_alive {α : Type} {x : JournalM α} {ρ : α → Option Record} (hdraft : s.draft = none)
    (hlive : (s.party.call x ρ).alive = true) (hleft : Party.PagesLeft (s.party.call x ρ).env.files) :
    s.call x ρ (fun _ => none) = some { s with party := s.party.call x ρ } := by
  unfold State.call
  have hcall : s.party.call x ρ = match Prog.exec x s.party.start with
    | (.ok a, t) => { s.party with env := t, alive := true, todo := t.trace, current := ρ a }
    | (.error _, t) => { s.party with env := t, alive := false, todo := t.trace, current := none } := rfl
  cases hx : Prog.exec x s.party.start with
  | mk r t =>
    cases r with
    | ok a =>
      rw [hx] at hcall
      dsimp only at hcall ⊢
      rw [hcall] at hleft
      rw [if_pos hleft]
      congr 1
      rw [← hdraft]
    | error e =>
      rw [hx] at hcall
      rw [hcall] at hlive
      cases hlive

/-- The writer does what it does in `Crash`. -/
theorem step_lift {p : Party} {a : Crash.Action} (hg : h.Grants) (hp : Crash.Inv s.party) (hdraft : s.draft = none)
    (ha : Crash.step h s.party a = some p) : step h s (lift a) = some { s with party := p } := by
  obtain ⟨v, hp, hdead⟩ := hp
  cases a with
  | create =>
    simp only [Crash.step] at ha
    split at ha
    · rename_i hguard
      obtain ⟨hlive, htodo, hleft⟩ := hguard
      obtain rfl := Option.some.inj ha
      obtain ⟨-, hlt, hopen⟩ := hdead hlive
      obtain ⟨-, hlive', -⟩ := hp.create hg hopen hlt hleft
      have hnot : ¬ s.party.alive = true := by rw [hlive]; simp
      exact (if_neg hnot).trans (State.call_of_alive hdraft hlive' hleft)
    · cases ha
  | write data msgType lastFlag =>
    simp only [Crash.step] at ha
    split at ha
    · rename_i hguard
      obtain ⟨hlive, htodo, hadm, hleft⟩ := hguard
      obtain rfl := Option.some.inj ha
      obtain ⟨-, hlive', -⟩ := hp.write hg hlive htodo hadm msgType lastFlag hleft
      exact (if_pos ⟨hlive, htodo, hadm⟩).trans (State.call_of_alive hdraft hlive' hleft)
    · cases ha
  | store =>
    have hperform : s.party.perform = some p := ha
    show s.party.perform.map _ = _
    rw [hperform]
    rfl
  | die =>
    simp only [Crash.step] at ha
    split at ha
    · rename_i hlive
      obtain rfl := Option.some.inj ha
      show (if s.party.alive = true then some { s with party := s.party.die, draft := none } else none) = _
      rw [if_pos hlive, ← hdraft]
    · cases ha

theorem run_lift {as : List Crash.Action} {p : Party} (hg : h.Grants) (hp : Crash.Inv s.party)
    (hdraft : s.draft = none) (hord : (Crash.crashes h).EachStep Crash.Orderly s.party as)
    (hrun : (Crash.crashes h).run s.party as = some p) :
    (recovery h).run s (as.map lift) = some { s with party := p } ∧
      (recovery h).EachStep Orderly s (as.map lift) := by
  induction as generalizing s with
  | nil =>
    obtain rfl := Option.some.inj hrun
    exact ⟨rfl, trivial⟩
  | cons a as ih =>
    obtain ⟨q, hq, hrest⟩ := System.run_cons_some hrun
    have hstep : (recovery h).step s (lift a) = some { s with party := q } := step_lift hg hp hdraft hq
    obtain ⟨hrun', hord'⟩ := ih (s := { s with party := q }) (hp.step hg hord.1 hq) hdraft (hord.2 q hq) hrest
    refine ⟨((recovery h).run_cons_of_step hstep _).trans hrun', ?_, fun t ht => ?_⟩
    · cases a with
      | die => exact hord.1
      | _ => trivial
    · obtain rfl := Option.some.inj (hstep.symm.trans ht)
      exact hord'

/-- A reader is given the first frame. -/
theorem run_reader (hg : h.Grants) (hp : PartyRep s.party v) (hne : s.party.published ≠ []) :
    ∃ r t, (recovery h).run s [.seekFirst, .getNextFrame] = some t ∧ t.party = s.party ∧
      t.received = some [r] := by
  have hnil : v.pages ≠ [] := by
    intro hnil
    rw [hp.published, hnil] at hne
    exact hne rfl
  have hpos : 0 < (recordRows v.pages).length := by
    rw [length_recordRows]
    exact List.length_pos_iff.mpr hnil
  have hall : taken (recordRows v.pages) 0 0 ++ v.ahead 0 0 = allRecords v.pages := taken_append_left 0 hpos
  rw [taken_zero, List.nil_append, ← hp.published] at hall
  obtain ⟨r, rest, hr⟩ := List.exists_cons_of_ne_nil hne
  obtain ⟨e, hseek, -, hat⟩ :=
    Journal.seekTime_fromFirst_spec (s := JournalReader.start s.party.files) hg hp.rep hnil rfl
  let u : State := { s with reader := e, received := some [] }
  have hexec : Prog.exec (Journal.seekTime h timeFromFirst) (JournalReader.start s.party.files) =
      (.ok true, e) := hseek
  have hfirst : (recovery h).step s .seekFirst = some u := by
    show step h s .seekFirst = some u
    simp only [step, hexec]
    rfl
  have hat' : ReaderAt u.readerEnv v 0 0 := ⟨hat.place, hat.isWriting, hat.expired, hat.curPage⟩
  obtain ⟨e', i, j, hnext, -⟩ := JournalReader.getNextFrame_spec (s := u.readerEnv) hg hp.rep hat'
  have hexec' : Prog.exec (JournalReader.getNextFrame h) u.readerEnv = (.ok (some r), e') := by
    have hhead : (v.ahead 0 0).head? = some r := by rw [hall, hr]; rfl
    exact hhead ▸ hnext
  have hsecond : (recovery h).step u .getNextFrame = some { u with reader := e', received := some [r] } := by
    show step h u .getNextFrame = _
    simp only [step, u]
    rw [hexec']
    rfl
  refine ⟨r, _, ((recovery h).run_cons_of_step hfirst _).trans ((recovery h).run_cons_of_step hsecond []), rfl, rfl⟩

/-- A run in which a writer goes on to the second page and dies inside of a frame, another one writes a
frame, and then a reader comes. -/
theorem exists_torn (hg : h.Grants) : ∃ as bs s t, (recovery h).run (recovery h).init as = some s ∧
    s.party.todo ≠ [] ∧ (recovery h).EachStep Orderly (recovery h).init (as ++ .die :: bs) ∧
    (recovery h).run (recovery h).init (as ++ .die :: bs) = some t ∧ t.party.published.length = 65 ∧
    getPageNums t.party.files = [1, 2] ∧ ∃ r, t.received = some [r] := by
  obtain ⟨as, bs, q, p, hq, htodo, hord, hp, hlen, hnums⟩ := Crash.exists_torn hg
  have hbefore := (System.eachStep_append.mp hord).1
  obtain ⟨hrun, -⟩ := run_lift (s := State.empty) hg Crash.Inv.empty rfl hbefore hq
  obtain ⟨hrun', hord'⟩ := run_lift (s := State.empty) hg Crash.Inv.empty rfl hord hp
  obtain ⟨v, hv, -⟩ := (System.always_of_eachStep (fun _ _ _ hs ha ht => hs.step hg ha ht)
    (fun _ hs => hs) _ Crash.Inv.empty hord : (Crash.crashes h).Always Crash.Inv _ _).at_end hp
  have hne : p.published ≠ [] := by
    rintro hnil
    rw [hnil] at hlen
    cases hlen
  obtain ⟨r, t, hread, hparty, hreceived⟩ := run_reader (s := { State.empty with party := p }) hg hv hne
  have hsplit : as.map lift ++ .die :: (bs.map lift ++ [.seekFirst, .getNextFrame]) =
      (as ++ .die :: bs).map lift ++ [.seekFirst, .getNextFrame] := by
    simp [lift]
  refine ⟨as.map lift, bs.map lift ++ [.seekFirst, .getNextFrame], _, t, hrun, htodo, ?_, ?_, ?_, ?_, r,
    hreceived⟩
  · rw [hsplit]
    exact System.eachStep_append.mpr ⟨hord', fun _ _ => ⟨trivial, fun _ _ => ⟨trivial, fun _ _ => trivial⟩⟩⟩
  · rw [hsplit]
    exact ((recovery h).run_append_of_run hrun' _).trans hread
  · rw [hparty]
    exact hlen
  · rw [hparty]
    exact hnums

/-- **A crash inside a write is recoverable**: if no writer dies in the middle of a page change, a new
writer goes on behind the last written frame, and readers are given the frames written before and after
and nothing else. -/
theorem crash_recovered (h : Host) (as : List Action)
    (hord : (recovery h.granting).EachStep Orderly (recovery h.granting).init as) :
    (recovery h.granting).Always (Recovered h.granting) (recovery h.granting).init as := by
  have hg := h.grants_granting
  refine System.always_of_eachStep (I := fun s => ∃ v, Inv s v) ?_ ?_ as ⟨_, Inv.empty⟩ hord
  · rintro s a t ⟨v, hs⟩ ha ht
    obtain ⟨w, -, hw⟩ := hs.step hg a ha ht
    exact ⟨w, hw⟩
  · rintro s ⟨v, hs⟩
    exact hs.recovered hg

theorem crash_recovered_torn : ∃ as bs s t,
    (recovery (hostWith fun _ => 5).granting).run (recovery (hostWith fun _ => 5).granting).init as = some s ∧
    s.party.todo ≠ [] ∧
    (recovery (hostWith fun _ => 5).granting).run (recovery (hostWith fun _ => 5).granting).init
      (as ++ .die :: bs) = some t ∧
    t.party.published.length = 65 ∧ getPageNums t.party.files = [1, 2] ∧ (∃ r, t.received = some [r]) ∧
    (recovery (hostWith fun _ => 5).granting).Always (Recovered (hostWith fun _ => 5).granting)
      (recovery (hostWith fun _ => 5).granting).init (as ++ .die :: bs) := by
  obtain ⟨as, bs, s, t, hrun, htodo, hord, hrun', hlen, hnums, hread⟩ :=
    exists_torn (hostWith fun _ => 5).grants_granting
  exact ⟨as, bs, s, t, hrun, htodo, hrun', hlen, hnums, hread, crash_recovered (hostWith fun _ => 5) _ hord⟩

end Yijinjing.Recovery
