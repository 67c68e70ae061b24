import Yijinjing.Journal.Seek

/-!
# A writer whose stores take effect one at a time

A `Party` is a writer process together with the page files.  A call of the writer is run ahead on the
files as they stand, which is sound because nobody else changes them; its effects are then performed
one by one (`Party.perform`), and anyone may look at the files in between.  `published` collects the
records at their stores of WRITTEN.

`PartyRep p v`: the page files represent `v`, and the effects still to do are a script from there to
the state the writer will be in.
-/

namespace Yijinjing

open Lib Prog

structure Party where
  files : Files
  /-- the writer when its call has finished -/
  env : Env
  alive : Bool
  /-- the effects of the call that are still to come -/
  todo : List Effect
  /-- the record of the call -/
  current : Option Record
  published : List Record

namespace Party

/-- Before the first session. -/
def empty : Party where
  files := ∅
  env := { files := ∅, tick := 0, asked := 0, mapped := 0, released := [], trace := [],
           journal := Journal.create true }
  alive := false
  todo := []
  current := none
  published := []

/-- The program state in which a call starts. -/
def start (p : Party) : Env := { p.env with files := p.files, trace := [] }

/-- Start a call; `ρ` is the record it writes.  A call that throws is the end of the writer. -/
def call {α : Type} (p : Party) (x : JournalM α) (ρ : α → Option Record) : Party :=
  match Prog.exec x p.start with
  | (.ok a, t) => { p with env := t, alive := true, todo := t.trace, current := ρ a }
  | (.error _, t) => { p with env := t, alive := false, todo := t.trace, current := none }

theorem call_of_runs {α : Type} {p : Party} {x : JournalM α} {ρ : α → Option Record} {a : α} {t : Env}
    (hx : Runs x p.start a t) : p.call x ρ = { p with env := t, alive := true, todo := t.trace, current := ρ a } := by
  unfold call
  rw [hx]

/-- The next effect takes place. -/
def perform (p : Party) : Option Party :=
  match p.todo with
  | [] => none
  | e :: es =>
    some { p with
      files := e.exec p.files
      todo := es
      published := p.published ++ writtenBy p.current e }

/-- A call of `write_frame`. -/
def write (h : Host) (p : Party) (data : List UInt8) (msgType : Int16) (lastFlag : UInt8) : Party :=
  p.call (JournalWriter.writeFrame h data msgType lastFlag) fun nano => some ⟨data, nano, msgType, lastFlag⟩

/-- A new writer. -/
def create (h : Host) (p : Party) : Party := p.call (JournalWriter.create h) fun _ => none

/-- The writer process ends, and what it has not stored is not stored. -/
def die (p : Party) : Party := { p with env := p.start, alive := false, todo := [], current := none }

/-- All effects of the call take place. -/
def finish (p : Party) : Party :=
  { p with
    files := execAll p.files p.todo
    todo := []
    published := p.published ++ p.todo.flatMap (writtenBy p.current) }

/-- A payload that `write_frame` may be called with. -/
def Admissible (data : List UInt8) : Prop := basicFrameHeaderLength + data.length ≤ pageMinHeadroom

@[irreducible] instance (data : List UInt8) : Decidable (Admissible data) := by
  unfold Admissible; infer_instance

/-- There are fewer pages than a page number can count. -/
def PagesLeft (fs : Files) : Prop := (getPageNums fs).length < maxPages

instance (fs : Files) : Decidable (PagesLeft fs) := by unfold PagesLeft; infer_instance

end Party

theorem Rep.pagesLeft_iff {fs : Files} {v : View} (hr : Rep fs v) :
    Party.PagesLeft fs ↔ v.numFiles < maxPages := by
  unfold Party.PagesLeft
  rw [hr.getPageNums, List.length_map, List.length_range]

/-! ### What the party represents -/

/-- The page files represent `v`; a live writer will be at rest at a ledger. -/
structure PartyRep (p : Party) (v : View) : Prop where
  script : ∃ w, Publishes p.current p.files v p.todo p.env.files w ∧
    (p.alive = true → ∃ l, WriterAt p.env l ∧ w = ⟨l.pages, false⟩ ∧ l.pages.length < maxPages)
  published : p.published = allRecords v.pages

variable {h : Host} {p q : Party} {v w : View} {l : Ledger}

theorem PartyRep.rep (hp : PartyRep p v) : Rep p.files v := by
  obtain ⟨w, hs, -⟩ := hp.script
  exact hs.rep

/-- A party with effects to do performs the first of them. -/
theorem Party.perform_some (hq : p.perform = some q) : ∃ e es, p.todo = e :: es ∧
    q = { p with
      files := e.exec p.files
      todo := es
      published := p.published ++ writtenBy p.current e } := by
  unfold Party.perform at hq
  cases htodo : p.todo with
  | nil => rw [htodo] at hq; cases hq
  | cons e es =>
    rw [htodo] at hq
    exact ⟨e, es, rfl, (Option.some.inj hq).symm⟩

/-- **One effect**: the view moves as the effect says, and so does the list of published records. -/
theorem PartyRep.perform (hp : PartyRep p v) (hq : p.perform = some q) :
    ∃ w e, Next p.current p.files v e w ∧ q.files = e.exec p.files ∧ q.env = p.env ∧ q.alive = p.alive ∧
      p.todo ≠ [] ∧ PartyRep q w := by
  obtain ⟨u, hs, halive⟩ := hp.script
  obtain ⟨e, es, htodo, rfl⟩ := Party.perform_some hq
  rw [htodo] at hs
  obtain ⟨w, hn, hs'⟩ := hs.step_inv
  refine ⟨w, e, hn, rfl, rfl, rfl, by rw [htodo]; exact List.cons_ne_nil e es, ⟨u, hs', halive⟩, ?_⟩
  have hflat := hn.grows.flatten
  show p.published ++ _ = _
  rw [hp.published]
  exact hflat.symm

/-- A writer at rest. -/
theorem PartyRep.at_rest (hp : PartyRep p v) (hlive : p.alive = true) (htodo : p.todo = []) :
    ∃ l, WriterAt p.start l ∧ v = ⟨l.pages, false⟩ ∧ l.pages.length < maxPages := by
  obtain ⟨w, hs, halive⟩ := hp.script
  obtain ⟨l, hw, rfl, hlt⟩ := halive hlive
  rw [htodo] at hs
  obtain ⟨hfiles, rfl⟩ := hs.nil_inv
  exact ⟨l, hw.congr hfiles rfl rfl, rfl, hlt⟩

/-- A call that succeeds leaves the files, and its effects are still to do. -/
theorem PartyRep.call {α : Type} {x : JournalM α} {ρ : α → Option Record} {a : α} {t : Env}
    (hp : PartyRep p v) (hx : Calls (ρ a) x p.start v a t ⟨l.pages, false⟩) (hw : WriterAt t l)
    (hlt : l.pages.length < maxPages) : PartyRep (p.call x ρ) v ∧ (p.call x ρ).alive = true ∧
      (p.call x ρ).files = p.files ∧ (p.call x ρ).env = t := by
  obtain ⟨hruns, es, htr, hes⟩ := hx
  have e := Party.call_of_runs (ρ := ρ) hruns
  have htr' : t.trace = es := htr
  rw [e]
  refine ⟨⟨⟨_, ?_, fun _ => ⟨l, hw, rfl, hlt⟩⟩, hp.published⟩, rfl, rfl, rfl⟩
  rw [← htr'] at hes
  exact hes

/-- What the pages are when the writer has written the record. -/
theorem Moves.pagesLeft {α : Type} {ρ : Option Record} {x : JournalM α} {s t : Env} {a : α}
    {l l' : Ledger} (hx : Moves ρ x s l a t l') (hleft : Party.PagesLeft t.files) :
    l'.pages.length < maxPages := by
  have := hx.2.rep.pagesLeft_iff.mp hleft
  simpa [View.numFiles] using this

/-- A call of `write_frame` by a writer at rest. -/
theorem PartyRep.write (hg : h.Grants) (hp : PartyRep p v) (hlive : p.alive = true)
    (htodo : p.todo = []) {data : List UInt8} (hfit : Party.Admissible data) (msgType : Int16)
    (lastFlag : UInt8) (hleft : Party.PagesLeft (p.write h data msgType lastFlag).env.files) :
    PartyRep (p.write h data msgType lastFlag) v ∧ (p.write h data msgType lastFlag).alive = true ∧
      (p.write h data msgType lastFlag).files = p.files := by
  obtain ⟨l, hw, rfl, hlt⟩ := hp.at_rest hlive htodo
  obtain ⟨t, hmoves⟩ := JournalWriter.writeFrame_spec hg hw hlt hfit msgType lastFlag
  have henv : (p.write h data msgType lastFlag).env = t := congrArg Party.env (Party.call_of_runs hmoves.runs)
  rw [henv] at hleft
  obtain ⟨h1, h2, h3, -⟩ := hp.call (ρ := fun nano => some ⟨data, nano, msgType, lastFlag⟩) hmoves.1
    hmoves.2 (hmoves.pagesLeft hleft)
  exact ⟨h1, h2, h3⟩

/-- A new writer, when no page change was left unfinished. -/
theorem PartyRep.create (hg : h.Grants) (hp : PartyRep p v) (hopen : v.opening = true → v.pages = [])
    (hlt : v.pages.length < maxPages) (hleft : Party.PagesLeft (p.create h).env.files) :
    PartyRep (p.create h) v ∧ (p.create h).alive = true ∧ (p.create h).files = p.files := by
  obtain ⟨t, hcalls, hw⟩ := JournalWriter.create_spec (ρ := none) (s := p.start) hg ⟨hp.rep, hopen⟩ hlt
  have henv : (p.create h).env = t := congrArg Party.env (Party.call_of_runs hcalls.runs)
  rw [henv] at hleft
  have hlt' := hw.rep.pagesLeft_iff.mp hleft
  obtain ⟨h1, h2, h3, -⟩ := hp.call (ρ := fun _ => none) hcalls hw (by simpa [View.numFiles] using hlt')
  exact ⟨h1, h2, h3⟩

theorem Publishes.records {ρ : Option Record} {fs fs' : Files} {es : List Effect}
    (hs : Publishes ρ fs v es fs' w) : allRecords w.pages = allRecords v.pages ++ es.flatMap (writtenBy ρ) := by
  induction hs with
  | done => simp
  | step _ hn _ ih =>
    have hflat := hn.grows.flatten
    rw [List.flatMap_cons, ← List.append_assoc, ih]
    exact congrArg (· ++ _) hflat

theorem Publishes.length_le {ρ : Option Record} {fs fs' : Files} {es : List Effect}
    (hs : Publishes ρ fs v es fs' w) : v.pages.length ≤ w.pages.length := by
  induction hs with
  | done => exact Nat.le_refl _
  | step _ hn _ ih =>
    have hle := hn.grows.length_le
    rw [length_recordRows, length_recordRows] at hle
    exact Nat.le_trans hle ih

theorem PartyRep.length_lt (hp : PartyRep p v) (hlive : p.alive = true) : v.pages.length < maxPages := by
  obtain ⟨w, hs, halive⟩ := hp.script
  obtain ⟨l, -, rfl, hlt⟩ := halive hlive
  exact Nat.lt_of_le_of_lt hs.length_le hlt

/-- When the call has run to its end, a live writer is at rest at a ledger. -/
theorem PartyRep.finish (hp : PartyRep p v) (hlive : p.alive = true) :
    ∃ l, WriterAt p.env l ∧ PartyRep p.finish ⟨l.pages, false⟩ := by
  obtain ⟨w, hs, halive⟩ := hp.script
  obtain ⟨l, hw, rfl, hlt⟩ := halive hlive
  have hfiles : execAll p.files p.todo = p.env.files := hs.exec_end
  refine ⟨l, hw, ⟨⟨⟨l.pages, false⟩, ?_, fun _ => ⟨l, hw, rfl, hlt⟩⟩, ?_⟩⟩
  · show Publishes p.current (execAll p.files p.todo) _ [] p.env.files _
    rw [hfiles]
    exact .done hw.rep
  · show p.published ++ _ = _
    rw [hp.published]
    exact hs.records.symm

theorem PartyRep.empty : PartyRep Party.empty ⟨[], false⟩ :=
  ⟨⟨_, .done Rep.empty, fun hlive => Bool.noConfusion hlive⟩, rfl⟩

/-- The files stay as they are when the writer dies. -/
theorem PartyRep.die (hp : PartyRep p v) : PartyRep p.die v :=
  ⟨⟨v, .done hp.rep, fun hlive => Bool.noConfusion hlive⟩, hp.published⟩

end Yijinjing
