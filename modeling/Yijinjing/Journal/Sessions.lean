import Yijinjing.Lib.Transition
import Yijinjing.Journal.Party
import Yijinjing.Journal.ReaderSeek

/-!
# Writer sessions and a reader, one call at a time

The system of the sessions of the writers of one journal and of a reader, whose steps are whole calls.
A session makes a `JournalWriter`, writes frames by either write path and destroys it; the reader seeks
`TIME_TO_LAST` and calls `getNextFrame`, between any two calls of the writers.

`Abs` is what the journal is for: a ledger and perhaps a frame being drafted.  `Refines` ties the page
files and the program states to it, and `Refines.step` is the simulation: whatever a call does, the
abstract journal does the same.
-/

namespace Yijinjing.Sessions

open Lib Prog

/-- A frame that has been located and not yet passed. -/
structure Draft where
  frame : ℕ
  nano : Int64
  /-- the payload, when it has been copied -/
  data : Option (List UInt8)
  deriving DecidableEq

structure State where
  /-- the page files and the writer -/
  env : Env
  isOpen : Bool
  started : Bool
  draft : Option Draft
  /-- the records completed so far -/
  written : List Record
  reader : Env
  /-- how many records were complete when the reader sought the end -/
  mark : Option ℕ
  /-- what the reader has been given since -/
  received : List Record
  /-- a call has thrown -/
  failed : Bool

inductive Action where
  | create
  | writeFrame (data : List UInt8) (msgType : Int16) (lastFlag : UInt8)
  | locateFrame
  | copyData (data : List UInt8)
  | passFrame (msgType : Int16) (lastFlag : UInt8)
  | close
  | seekLast
  | getNextFrame

namespace State

/-- No page files, and nobody has done anything. -/
def empty : State where
  env := Party.empty.env
  isOpen := false
  started := false
  draft := none
  written := []
  reader := JournalReader.start ∅
  mark := none
  received := []
  failed := false

/-- A call of the writer, which ends in the state `next` if it succeeds. -/
def call {α : Type} (s : State) (x : JournalM α) (next : α → State → State) : Option State :=
  match Prog.exec x s.env with
  | (.ok a, t) => if Party.PagesLeft t.files then some (next a { s with env := t }) else none
  | (.error _, t) => some { s with env := t, isOpen := false, draft := none, failed := true }

/-- The reader looks at the page files as they are. -/
def readerEnv (s : State) : Env := { s.reader with files := s.env.files }

def readerCall {α : Type} (s : State) (x : JournalM α) (next : α → State → State) : State :=
  match Prog.exec x s.readerEnv with
  | (.ok a, t) => next a { s with reader := t }
  | (.error _, t) => { s with reader := t, failed := true }

end State

def step (h : Host) (s : State) : Action → Option State
  | .create =>
    if s.isOpen then none
    else s.call (JournalWriter.create h) fun _ s => { s with isOpen := true, started := true }
  | .writeFrame data msgType lastFlag =>
    if s.isOpen ∧ s.draft = none ∧ Party.Admissible data then
      s.call (JournalWriter.writeFrame h data msgType lastFlag) fun nano s =>
        { s with written := s.written ++ [⟨data, nano, msgType, lastFlag⟩] }
    else none
  | .locateFrame =>
    if s.isOpen ∧ s.draft = none then
      let nano := h.clock s.env.tick
      s.call (JournalWriter.locateFrame h) fun frame s => { s with draft := some ⟨frame, nano, none⟩ }
    else none
  | .copyData data =>
    match s.draft with
    | some d =>
      if Party.Admissible data then
        s.call (JournalWriter.copyData d.frame data) fun _ s =>
          { s with draft := some { d with data := some data } }
      else none
    | none => none
  | .passFrame msgType lastFlag =>
    match s.draft with
    | some ⟨frame, nano, some data⟩ =>
      s.call (JournalWriter.passFrame h frame data.length msgType lastFlag) fun _ s =>
        { s with draft := none, written := s.written ++ [⟨data, nano, msgType, lastFlag⟩] }
    | _ => none
  | .close => if s.isOpen then some { s with isOpen := false, draft := none } else none
  | .seekLast =>
    if s.started then
      some (s.readerCall (Journal.seekTime h timeToLast) fun _ s =>
        { s with mark := some s.written.length, received := [] })
    else none
  | .getNextFrame =>
    if s.mark.isSome then
      some (s.readerCall (JournalReader.getNextFrame h) fun r s =>
        { s with received := s.received ++ r.toList })
    else none

def sessions (h : Host) : System State Action := ⟨State.empty, step h⟩

/-! ### The abstract journal -/

structure Abs where
  /-- nothing before the first session -/
  ledger : Option Ledger
  draft : Option Draft

namespace Abs

def empty : Abs := ⟨none, none⟩

def pages (a : Abs) : List PageLog := a.ledger.elim [] Ledger.pages

def tick (a : Abs) : ℕ := a.ledger.elim 0 Ledger.tick

@[simp] theorem pages_some (l : Ledger) (d : Option Draft) : (mk (some l) d).pages = l.pages := rfl
@[simp] theorem pages_none (d : Option Draft) : (mk none d).pages = [] := rfl
@[simp] theorem tick_some (l : Ledger) (d : Option Draft) : (mk (some l) d).tick = l.tick := rfl

def step (h : Host) (a : Abs) : Action → Abs
  | .create => ⟨some (Ledger.reopen h a.pages a.tick), none⟩
  | .writeFrame data msgType lastFlag =>
    { a with ledger := a.ledger.map fun l => l.write h data msgType lastFlag }
  | .locateFrame =>
    { ledger := a.ledger.map fun l => l.readClock.makeRoom h
      draft := a.ledger.map fun l => ⟨(l.readClock.makeRoom h).cur.endPos, h.clock l.tick, none⟩ }
  | .copyData data => { a with draft := a.draft.map fun d => { d with data := some data } }
  | .passFrame msgType lastFlag =>
    match a.draft with
    | some ⟨_, nano, some data⟩ =>
      { ledger := a.ledger.map fun l => l.append ⟨data, nano, msgType, lastFlag⟩, draft := none }
    | _ => a
  | .close => { a with draft := none }
  | .seekLast => a
  | .getNextFrame => a

end Abs

/-- The state of the sessions stands for the abstract journal. -/
structure Refines (s : State) (a : Abs) : Prop where
  rep : Settled s.env.files a.pages
  tick : s.env.tick = a.tick
  lt : a.pages.length < maxPages
  started : s.started = a.ledger.isSome
  writer : s.isOpen = true → ∃ l, a.ledger = some l ∧ WriterAt s.env l
  draft : s.draft = a.draft
  drafted : ∀ d, a.draft = some d → s.isOpen = true ∧ ∀ l, a.ledger = some l →
    d.frame = l.cur.endPos ∧ JournalWriter.Drafted s.env l d.nano (d.data.getD []) ∧
    ∀ data, d.data = some data → Party.Admissible data
  written : s.written = allRecords a.pages
  failed : s.failed = false

variable {h : Host} {s t : State} {a : Abs} {l l' : Ledger} {k m : ℕ}

theorem Refines.empty : Refines State.empty Abs.empty where
  rep := Rep.empty
  tick := rfl
  lt := by decide
  started := rfl
  writer ho := Bool.noConfusion ho
  draft := rfl
  drafted d hd := by cases hd
  written := rfl
  failed := rfl

/-- A call that runs to its end. -/
theorem State.call_of_runs {α : Type} {x : JournalM α} {next : α → State → State} {c : α} {e : Env}
    (hx : Runs x s.env c e) (ht : s.call x next = some t) :
    t = next c { s with env := e } ∧ Party.PagesLeft e.files := by
  unfold State.call at ht
  rw [hx] at ht
  dsimp only at ht
  split at ht
  · rename_i hleft
    exact ⟨(Option.some.inj ht).symm, hleft⟩
  · cases ht

theorem State.readerCall_of_runs {α : Type} {x : JournalM α} {next : α → State → State} {c : α} {e : Env}
    (hx : Runs x s.readerEnv c e) : s.readerCall x next = next c { s with reader := e } := by
  unfold State.readerCall
  rw [hx]

/-- The writer at rest at a ledger, with a draft of it or none. -/
theorem Refines.of_writer {draft : Option Draft} (hw : WriterAt t.env l)
    (hlt : l.pages.length < maxPages) (hstarted : t.started = true) (hdraft : t.draft = draft)
    (hd : ∀ d, draft = some d → t.isOpen = true ∧ d.frame = l.cur.endPos ∧
      JournalWriter.Drafted t.env l d.nano (d.data.getD []) ∧
      ∀ data, d.data = some data → Party.Admissible data)
    (hwritten : t.written = allRecords l.pages) (hfailed : t.failed = false) :
    Refines t ⟨some l, draft⟩ where
  rep := hw.rep
  tick := hw.tick
  lt := hlt
  started := hstarted
  writer _ := ⟨l, rfl, hw⟩
  draft := hdraft
  drafted d hd' := by
    obtain ⟨ho, h1, h2, h3⟩ := hd d hd'
    refine ⟨ho, fun l' hl' => ?_⟩
    obtain rfl := Option.some.inj hl'
    exact ⟨h1, h2, h3⟩
  written := hwritten
  failed := hfailed

/-- What a call of the writer leaves alone, and how the page files change. -/
structure Carries (s t : State) (a a' : Abs) : Prop where
  publishes : ∃ ρ es, Publishes ρ s.env.files ⟨a.pages, false⟩ es t.env.files ⟨a'.pages, false⟩
  reader : t.reader = s.reader
  mark : t.mark = s.mark
  received : t.received = s.received

theorem Carries.of_calls {α : Type} {ρ : Option Record} {x : JournalM α} {c : α} {e : Env} {a' : Abs}
    (hx : Calls ρ x s.env ⟨a.pages, false⟩ c e ⟨a'.pages, false⟩) (henv : t.env = e)
    (hreader : t.reader = s.reader) (hmark : t.mark = s.mark) (hreceived : t.received = s.received) :
    Carries s t a a' := by
  obtain ⟨-, es, -, hes⟩ := hx
  exact ⟨⟨ρ, es, henv ▸ hes⟩, hreader, hmark, hreceived⟩

theorem Carries.of_moves {α : Type} {ρ : Option Record} {x : JournalM α} {c : α} {e : Env}
    {d d' : Option Draft} (hx : Moves ρ x s.env l c e l') (henv : t.env = e)
    (hreader : t.reader = s.reader) (hmark : t.mark = s.mark) (hreceived : t.received = s.received) :
    Carries s t ⟨some l, d⟩ ⟨some l', d'⟩ :=
  .of_calls hx.1 henv hreader hmark hreceived

/-! ### The calls of the writer -/

theorem Refines.create (hg : h.Grants) (hs : Refines s a) (ht : step h s .create = some t) :
    Refines t (a.step h .create) ∧ Carries s t a (a.step h .create) := by
  simp only [step] at ht
  split at ht
  · cases ht
  · rename_i hclosed
    obtain ⟨e, hcalls, hw⟩ := JournalWriter.create_spec (ρ := none) (s := s.env) hg
      (.settled hs.rep) hs.lt
    obtain ⟨rfl, hleft⟩ := State.call_of_runs hcalls.runs ht
    have hdraft : s.draft = none := by
      cases hd : s.draft with
      | none => rfl
      | some d => exact absurd (hs.drafted d (hs.draft ▸ hd)).1 hclosed
    have hlt := hw.rep.pagesLeft_iff.mp hleft
    rw [hs.tick] at hcalls hw hlt
    refine ⟨?_, .of_calls hcalls rfl rfl rfl rfl⟩
    refine Refines.of_writer hw (by simpa [View.numFiles] using hlt) rfl hdraft (fun d hd => by cases hd) ?_
      hs.failed
    rw [Ledger.allRecords_reopen]
    exact hs.written

theorem Refines.writeFrame (hg : h.Grants) (hs : Refines s a) {data : List UInt8} {msgType : Int16}
    {lastFlag : UInt8} (ht : step h s (.writeFrame data msgType lastFlag) = some t) :
    Refines t (a.step h (.writeFrame data msgType lastFlag)) ∧
      Carries s t a (a.step h (.writeFrame data msgType lastFlag)) := by
  simp only [step] at ht
  split at ht
  · rename_i hguard
    obtain ⟨hopen, hdraft, hadm⟩ := hguard
    obtain ⟨l, hl, hw⟩ := hs.writer hopen
    obtain ⟨al, ad⟩ := a
    obtain rfl : al = some l := hl
    obtain rfl : ad = none := hs.draft.symm.trans hdraft
    have hlt := hs.lt
    rw [Abs.pages_some] at hlt
    obtain ⟨e, hmoves⟩ := JournalWriter.writeFrame_spec hg hw hlt hadm msgType lastFlag
    obtain ⟨rfl, hleft⟩ := State.call_of_runs hmoves.runs ht
    have hstep : Abs.step h ⟨some l, none⟩ (.writeFrame data msgType lastFlag) =
        ⟨some (l.write h data msgType lastFlag), none⟩ := rfl
    rw [hstep]
    refine ⟨?_, .of_moves hmoves rfl rfl rfl rfl⟩
    refine Refines.of_writer hmoves.2 (hmoves.pagesLeft hleft) hs.started hdraft (fun d hd => by cases hd)
      ?_ hs.failed
    rw [Ledger.allRecords_write]
    exact congrArg (· ++ _) hs.written
  · cases ht

theorem Refines.locateFrame (hg : h.Grants) (hs : Refines s a) (ht : step h s .locateFrame = some t) :
    Refines t (a.step h .locateFrame) ∧ Carries s t a (a.step h .locateFrame) := by
  simp only [step] at ht
  split at ht
  · rename_i hguard
    obtain ⟨hopen, hdraft⟩ := hguard
    obtain ⟨l, hl, hw⟩ := hs.writer hopen
    obtain ⟨al, ad⟩ := a
    obtain rfl : al = some l := hl
    have hlt := hs.lt
    rw [Abs.pages_some] at hlt
    obtain ⟨e, hmoves, hdr⟩ := JournalWriter.locateFrame_spec (ρ := none) hg hw hlt
    obtain ⟨rfl, hleft⟩ := State.call_of_runs hmoves.runs ht
    have hstep : Abs.step h ⟨some l, ad⟩ .locateFrame = ⟨some (l.readClock.makeRoom h),
        some ⟨(l.readClock.makeRoom h).cur.endPos, h.clock l.tick, none⟩⟩ := rfl
    rw [hstep]
    refine ⟨?_, .of_moves hmoves rfl rfl rfl rfl⟩
    refine Refines.of_writer hmoves.2 (hmoves.pagesLeft hleft) hs.started (by rw [hw.tick]) ?_ ?_
      hs.failed
    · intro d hd
      obtain rfl := Option.some.inj hd
      exact ⟨hopen, rfl, hdr, fun data hdata => by cases hdata⟩
    · rw [Ledger.allRecords_makeRoom]
      exact hs.written
  · cases ht

theorem Refines.copyData (hs : Refines s a) {data : List UInt8}
    (ht : step h s (.copyData data) = some t) :
    Refines t (a.step h (.copyData data)) ∧ Carries s t a (a.step h (.copyData data)) := by
  simp only [step] at ht
  split at ht
  · rename_i d hdraft
    split at ht
    · rename_i hadm
      obtain ⟨al, ad⟩ := a
      obtain rfl : ad = some d := hs.draft.symm.trans hdraft
      obtain ⟨hopen, hd⟩ := hs.drafted d rfl
      obtain ⟨l, hl, hw⟩ := hs.writer hopen
      obtain rfl : al = some l := hl
      obtain ⟨hframe, hdr, -⟩ := hd l rfl
      obtain ⟨e, hmoves, hdr'⟩ := JournalWriter.copyData_spec (ρ := none) hw hdr data
      rw [← hframe] at hmoves
      obtain ⟨rfl, hleft⟩ := State.call_of_runs hmoves.runs ht
      have hstep : Abs.step h ⟨some l, some d⟩ (.copyData data) =
          ⟨some l, some { d with data := some data }⟩ := rfl
      rw [hstep]
      refine ⟨?_, .of_moves hmoves rfl rfl rfl rfl⟩
      have hlt := hs.lt
      rw [Abs.pages_some] at hlt
      refine Refines.of_writer hmoves.2 hlt hs.started rfl ?_ hs.written hs.failed
      intro d' hd'
      obtain rfl := Option.some.inj hd'
      refine ⟨hopen, hframe, hdr', fun data' hdata => ?_⟩
      obtain rfl := Option.some.inj hdata
      exact hadm
    · cases ht
  · cases ht

theorem Refines.passFrame (hs : Refines s a) {msgType : Int16} {lastFlag : UInt8}
    (ht : step h s (.passFrame msgType lastFlag) = some t) :
    Refines t (a.step h (.passFrame msgType lastFlag)) ∧
      Carries s t a (a.step h (.passFrame msgType lastFlag)) := by
  simp only [step] at ht
  split at ht
  · rename_i frame nano data hdraft
    obtain ⟨al, ad⟩ := a
    obtain rfl : ad = some ⟨frame, nano, some data⟩ := hs.draft.symm.trans hdraft
    obtain ⟨hopen, hd⟩ := hs.drafted _ rfl
    obtain ⟨l, hl, hw⟩ := hs.writer hopen
    obtain rfl : al = some l := hl
    obtain ⟨hframe, hdr, hadm⟩ := hd l rfl
    obtain rfl : frame = l.cur.endPos := hframe
    obtain ⟨e, hmoves⟩ := JournalWriter.passFrame_spec (h := h) hw hdr (hadm data rfl) msgType lastFlag
    obtain ⟨rfl, hleft⟩ := State.call_of_runs hmoves.runs ht
    refine ⟨?_, .of_moves hmoves rfl rfl rfl rfl⟩
    refine Refines.of_writer hmoves.2 (hmoves.pagesLeft hleft) hs.started rfl (fun d hd => by cases hd) ?_
      hs.failed
    rw [Ledger.allRecords_append]
    exact congrArg (· ++ _) hs.written
  · cases ht

theorem Refines.close (hs : Refines s a) (ht : step h s .close = some t) :
    Refines t (a.step h .close) ∧ Carries s t a (a.step h .close) := by
  simp only [step] at ht
  split at ht
  · obtain rfl := Option.some.inj ht
    refine ⟨⟨hs.rep, hs.tick, hs.lt, hs.started, fun ho => Bool.noConfusion ho, rfl, fun d hd => ?_,
      hs.written, hs.failed⟩, ⟨⟨none, [], .done hs.rep⟩, rfl, rfl, rfl⟩⟩
    cases hd
  · cases ht

/-- A call of the writer. -/
def Action.IsWriters : Action → Prop
  | .seekLast | .getNextFrame => False
  | _ => True

/-- **The simulation**: the abstract journal does what the call does. -/
theorem Refines.step_writer (hg : h.Grants) (hs : Refines s a) {act : Action} (hact : act.IsWriters)
    (ht : step h s act = some t) : Refines t (a.step h act) ∧ Carries s t a (a.step h act) := by
  cases act with
  | create => exact hs.create hg ht
  | writeFrame data msgType lastFlag => exact hs.writeFrame hg ht
  | locateFrame => exact hs.locateFrame hg ht
  | copyData data => exact hs.copyData ht
  | passFrame msgType lastFlag => exact hs.passFrame ht
  | close => exact hs.close ht
  | seekLast => exact hact.elim
  | getNextFrame => exact hact.elim

/-! ### The calls of the reader -/

/-- The reader has been given what came after its mark, up to where it stands. -/
structure ReaderOk (s : State) (a : Abs) : Prop where
  isWriting : s.reader.journal.isWriting = false
  stands : ∀ m, s.mark = some m → m ≤ s.written.length ∧ ∃ i j,
    ReaderAt s.reader ⟨a.pages, false⟩ i j ∧
    taken (recordRows a.pages) i j = s.written.take m ++ s.received

/-- The writers do not disturb the reader. -/
theorem ReaderOk.carries {a' : Abs} (hr : ReaderOk s a) (hs : Refines s a) (ht : Refines t a')
    (hc : Carries s t a a') : ReaderOk t a' := by
  obtain ⟨⟨ρ, es, hes⟩, hreader, hmark, hreceived⟩ := hc
  refine ⟨by rw [hreader]; exact hr.isWriting, fun m hm => ?_⟩
  obtain ⟨hle, i, j, hat, htaken⟩ := hr.stands m (hmark ▸ hm)
  have hgrown : t.written = s.written ++ es.flatMap (writtenBy ρ) := by
    rw [ht.written, hs.written]
    exact hes.records
  refine ⟨?_, i, j, hreader ▸ hat.grown hes.grown, ?_⟩
  · rw [hgrown, List.length_append]
    omega
  · rw [hes.grown.taken_eq hat.place, htaken, hreceived, hgrown, List.take_append_of_le_length hle]

/-- The reader changes nothing that the journal stands for. -/
theorem Refines.reader_changes (hs : Refines s a) {reader : Env} {mark : Option ℕ} {received : List Record} :
    Refines { s with reader := reader, mark := mark, received := received } a :=
  ⟨hs.rep, hs.tick, hs.lt, hs.started, hs.writer, hs.draft, hs.drafted, hs.written, hs.failed⟩

/-- All records are before or ahead of a place. -/
theorem Refines.taken_ahead (hs : Refines s a) {i j : ℕ} {r : Env}
    (hat : ReaderAt r ⟨a.pages, false⟩ i j) :
    taken (recordRows a.pages) i j ++ (View.mk a.pages false).ahead i j = s.written := by
  rw [hs.written]
  exact taken_append_left _ hat.place.1

theorem Refines.seekLast (hg : h.Grants) (hs : Refines s a) (hr : ReaderOk s a)
    (ht : step h s .seekLast = some t) : Refines t a ∧ ReaderOk t a := by
  simp only [step] at ht
  split at ht
  · rename_i hstarted
    have hne : a.pages ≠ [] := by
      obtain ⟨al, ad⟩ := a
      have hsome := hs.started
      rw [hstarted] at hsome
      obtain ⟨l, rfl⟩ := Option.isSome_iff_exists.mp hsome.symm
      simp [Ledger.pages]
    have hrep : Settled s.readerEnv.files a.pages := hs.rep
    obtain ⟨e, i, j, hseek, -, hat, hahead⟩ := Journal.seekTime_toLast_spec hg hrep hne hr.isWriting
    have hall := hs.taken_ahead hat
    rw [State.readerCall_of_runs hseek] at ht
    obtain rfl := Option.some.inj ht
    refine ⟨hs.reader_changes, hat.isWriting, fun m hm => ?_⟩
    obtain rfl := Option.some.inj hm
    refine ⟨Nat.le_refl _, i, j, hat, ?_⟩
    rw [hahead, List.append_nil] at hall
    rw [hall, List.append_nil]
    exact List.take_length.symm
  · cases ht

theorem Refines.getNextFrame (hg : h.Grants) (hs : Refines s a) (hr : ReaderOk s a)
    (ht : step h s .getNextFrame = some t) : Refines t a ∧ ReaderOk t a := by
  simp only [step] at ht
  split at ht
  · rename_i hmark
    obtain ⟨m, hm⟩ := Option.isSome_iff_exists.mp hmark
    obtain ⟨hle, i, j, hat, htaken⟩ := hr.stands m hm
    have hrep : Settled s.readerEnv.files a.pages := hs.rep
    have hat' : ReaderAt s.readerEnv ⟨a.pages, false⟩ i j :=
      ⟨hat.place, hat.isWriting, hat.expired, hat.curPage⟩
    obtain ⟨e, i', j', hnext, -, hat'', hahead⟩ := JournalReader.getNextFrame_spec hg hrep hat'
    rw [State.readerCall_of_runs hnext] at ht
    obtain rfl := Option.some.inj ht
    refine ⟨hs.reader_changes, hat''.isWriting, fun m' hm' => ?_⟩
    obtain rfl : m = m' := Option.some.inj (hm.symm.trans hm')
    refine ⟨hle, i', j', hat'', ?_⟩
    have hmove := taken_of_left_tail hat'.place hat''.place hahead
    rw [hmove, htaken, List.append_assoc]
  · cases ht

/-! ### Round trip -/

/-- What the reader is owed in every state. -/
structure RoundTrip (h : Host) (s : State) : Prop where
  not_failed : s.failed = false
  /-- a reader from the first page is given all records in order -/
  from_first : ∀ fuel, s.written.length < fuel → ∃ t,
    Runs (JournalReader.readFrom h timeFromFirst fuel) (JournalReader.start s.env.files) s.written t
  /-- the reader that sought the end is given what came since -/
  from_mark : ∀ m, s.mark = some m → ∀ fuel, s.written.length < fuel → ∃ rest t,
    Runs (JournalReader.drain h fuel) s.readerEnv rest t ∧ s.received ++ rest = s.written.drop m

theorem Refines.roundTrip (hg : h.Grants) (hs : Refines s a) (hr : ReaderOk s a) : RoundTrip h s := by
  refine ⟨hs.failed, fun fuel hfuel => ?_, fun m hm fuel hfuel => ?_⟩
  · rw [hs.written] at hfuel ⊢
    exact JournalReader.readFrom_first_spec hg hs.rep hfuel
  · obtain ⟨hle, i, j, hat, htaken⟩ := hr.stands m hm
    have hrep : Settled s.readerEnv.files a.pages := hs.rep
    have hat' : ReaderAt s.readerEnv ⟨a.pages, false⟩ i j :=
      ⟨hat.place, hat.isWriting, hat.expired, hat.curPage⟩
    have hall := hs.taken_ahead hat
    rw [htaken, List.append_assoc] at hall
    have hlen : ((View.mk a.pages false).ahead i j).length < fuel := by
      have := congrArg List.length hall
      simp only [List.length_append] at this
      omega
    obtain ⟨e, i', j', hdrain, -⟩ := JournalReader.drain_spec hg hrep hat' hlen
    refine ⟨_, e, hdrain, @List.append_cancel_left _ (s.written.take m) _ _ ?_⟩
    rw [hall, List.take_append_drop]

/-! ### Calls that can be made -/

theorem State.call_enabled {α : Type} {x : JournalM α} (next : α → State → State) {c : α} {e : Env}
    (hx : Runs x s.env c e) (hleft : Party.PagesLeft e.files) :
    s.call x next = some (next c { s with env := e }) := by
  unfold State.call
  rw [hx]
  exact if_pos hleft

theorem Ledger.pagesLeft {e : Env} (hw : WriterAt e l) (hlt : l.pages.length < maxPages) :
    Party.PagesLeft e.files := by
  rw [hw.rep.pagesLeft_iff]
  simpa [View.numFiles] using hlt

/-- An open writer without a draft can write. -/
theorem Refines.can_write (hg : h.Grants) (hs : Refines s ⟨some l, none⟩) (ho : s.isOpen = true)
    {data : List UInt8} (hadm : Party.Admissible data) (msgType : Int16) (lastFlag : UInt8)
    (hlt : (l.write h data msgType lastFlag).pages.length < maxPages) :
    ∃ t, (sessions h).step s (.writeFrame data msgType lastFlag) = some t ∧ t.isOpen = true ∧
      Refines t ⟨some (l.write h data msgType lastFlag), none⟩ := by
  obtain ⟨l', hl, hw⟩ := hs.writer ho
  obtain rfl := Option.some.inj hl
  obtain ⟨e, hmoves⟩ := JournalWriter.writeFrame_spec hg hw hs.lt hadm msgType lastFlag
  have hcall := State.call_enabled (s := s) (fun nano s =>
    { s with written := s.written ++ [⟨data, nano, msgType, lastFlag⟩] }) hmoves.runs
    (Ledger.pagesLeft hmoves.2 hlt)
  have ht : step h s (.writeFrame data msgType lastFlag) = _ :=
    (if_pos ⟨ho, hs.draft, hadm⟩).trans hcall
  exact ⟨_, ht, ho, (hs.writeFrame hg ht).1⟩

/-- A session can start when no other one is open. -/
theorem Refines.can_create (hg : h.Grants) (hs : Refines s a) (hclosed : ¬ s.isOpen = true)
    (hlt : (Ledger.reopen h a.pages a.tick).pages.length < maxPages) :
    ∃ t, (sessions h).step s .create = some t ∧ t.isOpen = true ∧
      Refines t ⟨some (Ledger.reopen h a.pages a.tick), none⟩ := by
  obtain ⟨e, hcalls, hw⟩ := JournalWriter.create_spec (ρ := none) (s := s.env) hg
    (.settled hs.rep) hs.lt
  rw [hs.tick] at hw
  have hcall := State.call_enabled (s := s) (fun _ s =>
    { s with isOpen := true, started := true }) hcalls.runs (Ledger.pagesLeft hw hlt)
  have ht : step h s .create = _ := (if_neg hclosed).trans hcall
  exact ⟨_, ht, rfl, (hs.create hg ht).1⟩

/-! ### Filling a page -/

/-- Writing a frame of the greatest length. -/
def writeGreatest : Action := .writeFrame Ledger.greatest 0 0

theorem admissible_greatest : Party.Admissible Ledger.greatest :=
  Nat.le_of_eq Ledger.size_greatest

/-- Filling the first page. -/
theorem Refines.run_filling (hg : h.Grants) (hs : Refines s ⟨some (Ledger.filling h k), none⟩)
    (ho : s.isOpen = true) (hk : k + m ≤ 63) :
    ∃ t, (sessions h).run s (List.replicate m writeGreatest) = some t ∧ t.isOpen = true ∧
      Refines t ⟨some (Ledger.filling h (k + m)), none⟩ := by
  induction m generalizing s k with
  | zero => exact ⟨s, rfl, ho, hs⟩
  | succ m ih =>
    have hwrite := Ledger.filling_write h (k := k) (by omega)
    have hlt : ((Ledger.filling h k).write h Ledger.greatest 0 0).pages.length < maxPages := by
      rw [hwrite]
      show 1 < maxPages
      decide
    obtain ⟨t, ht, ho', hs'⟩ := hs.can_write hg ho admissible_greatest 0 0 hlt
    rw [hwrite] at hs'
    obtain ⟨u, hu, ho'', hs''⟩ := ih hs' ho' (by omega)
    have hk' : k + 1 + m = k + (m + 1) := by omega
    rw [hk'] at hs''
    refine ⟨u, ?_, ho'', hs''⟩
    rw [List.replicate_succ]
    exact ((sessions h).run_cons_of_step (a := writeGreatest) ht _).trans hu

/-- Sixty-four frames of the greatest length. -/
def overfill : List Action := .create :: (List.replicate 63 writeGreatest ++ [writeGreatest])

/-- The first page can be filled. -/
theorem run_full (hg : h.Grants) :
    ∃ t, (sessions h).run (sessions h).init (.create :: List.replicate 63 writeGreatest) = some t ∧
      t.isOpen = true ∧ Refines t ⟨some (Ledger.filling h 63), none⟩ := by
  obtain ⟨s, hs, ho, hrs⟩ := Refines.empty.can_create hg Bool.noConfusion (by
    show 1 < maxPages
    decide)
  have hfirst : Refines s ⟨some (Ledger.filling h 0), none⟩ := hrs
  obtain ⟨t, ht, ho', hrt⟩ := hfirst.run_filling (m := 63) hg ho (by omega)
  exact ⟨t, ((sessions h).run_cons_of_step (a := .create) hs _).trans ht, ho', hrt⟩

/-- The page change that overfilling a page leads to. -/
theorem run_overfill (hg : h.Grants) :
    ∃ t, (sessions h).run (sessions h).init overfill = some t ∧
      Refines t ⟨some ((Ledger.filling h 63).write h Ledger.greatest 0 0), none⟩ := by
  obtain ⟨t, ht, ho, hrt⟩ := run_full hg
  have hlt : ((Ledger.filling h 63).write h Ledger.greatest 0 0).pages.length < maxPages := by
    rw [Ledger.filling_full]
    show 2 < maxPages
    decide
  obtain ⟨u, hu, -, hru⟩ := hrt.can_write hg ho admissible_greatest 0 0 hlt
  refine ⟨u, ?_, hru⟩
  rw [overfill, ← List.cons_append, (sessions h).run_append_of_run ht]
  exact (sessions h).run_cons_of_step (a := writeGreatest) hu []

/-- There are two pages then. -/
theorem overfill_reached (hg : h.Grants) : ∃ t, (sessions h).run (sessions h).init overfill = some t ∧
    t.written.length = 64 ∧ getPageNums t.env.files = [1, 2] := by
  obtain ⟨t, hrun, hrt⟩ := run_overfill hg
  refine ⟨t, hrun, ?_, ?_⟩
  · rw [hrt.written, Abs.pages_some, Ledger.allRecords_write]
    simp [Ledger.filling, Ledger.pages]
  · rw [hrt.rep.getPageNums, Ledger.filling_full]
    rfl

/-! ### All runs -/

/-- What holds of every state of the sessions. -/
def Reached (s : State) : Prop := ∃ a, Refines s a ∧ ReaderOk s a

theorem Reached.init (h : Host) : Reached (sessions h).init :=
  ⟨Abs.empty, Refines.empty, rfl, fun m hm => by cases hm⟩

theorem Reached.step (hg : h.Grants) {act : Action} (hs : Reached s) (ht : step h s act = some t) :
    Reached t := by
  obtain ⟨a, hs, hr⟩ := hs
  cases act with
  | seekLast => exact ⟨a, hs.seekLast hg hr ht⟩
  | getNextFrame => exact ⟨a, hs.getNextFrame hg hr ht⟩
  | _ =>
    obtain ⟨ht', hc⟩ := hs.step_writer hg (by exact trivial) ht
    exact ⟨_, ht', hr.carries hs ht' hc⟩

/-- **Round trip over sessions and pages.** -/
theorem round_trip (h : Host) (as : List Action) :
    (sessions h.granting).Always (RoundTrip h.granting) (sessions h.granting).init as := by
  have hg := h.grants_granting
  refine System.always_of_step (I := Reached) (fun s act t hs ht => hs.step hg ht) ?_ as (Reached.init _)
  rintro s ⟨a, hs, hr⟩
  exact hs.roundTrip hg hr

end Yijinjing.Sessions
