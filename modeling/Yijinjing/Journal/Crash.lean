import Yijinjing.Lib.Transition
import Yijinjing.Journal.Party
import Yijinjing.Journal.ReaderSeek

/-!
# Writers that die

The runs of one journal in which the writer process may die between any two of its stores and a new
writer may be made afterwards.  The page behind a full one is made and initialized before the full one
is closed, and `JournalWriter::seekEnd` goes to the page with the highest number: a writer that dies in
between (`MidRollover`) leaves a page open for good (`open_page_left`).  As long as no writer dies there,
every page below the current one is closed and a reader from the first page is given everything
(`chain_readable`).
-/

namespace Yijinjing.Crash

open Lib Prog

inductive Action where
  /-- a call of `JournalWriter::create` begins -/
  | create
  /-- a call of `write_frame` begins -/
  | write (data : List UInt8) (msgType : Int16) (lastFlag : UInt8)
  /-- the next store of the call takes place -/
  | store
  /-- the writer process dies -/
  | die

variable (h : Host)

def step (p : Party) : Action → Option Party
  | .create =>
    if p.alive = false ∧ p.todo = [] ∧ Party.PagesLeft (p.create h).env.files then some (p.create h) else none
  | .write data msgType lastFlag =>
    if p.alive = true ∧ p.todo = [] ∧ Party.Admissible data ∧
        Party.PagesLeft (p.write h data msgType lastFlag).env.files then
      some (p.write h data msgType lastFlag)
    else none
  | .store => p.perform
  | .die => if p.alive then some p.die else none

def crashes : System Party Action := ⟨Party.empty, step h⟩

/-- The written frames of the page lead to a PAGE_END. -/
def EndsInPageEnd (fs : Files) (n : Int16) : Prop :=
  ∃ q, (Page.new 0 n).passWrittenFrame (fs.buffer n) = some q ∧ q.isAtPageEnd (fs.buffer n) = true

/-- The page chain of the journal is readable. -/
structure Readable (p : Party) : Prop where
  /-- every page below the current one of a writer between two calls ends in PAGE_END -/
  closed : p.alive = true → p.todo = [] → ∃ q, p.env.journal.curPage = some q ∧
    ∀ n, 0 < n → n < q.pageNum → EndsInPageEnd p.files n
  /-- a reader from the first page is given every frame that any writer has written -/
  delivered : ∀ fuel, p.published.length < fuel → ∃ t,
    Runs (JournalReader.readFrom h timeFromFirst fuel) (JournalReader.start p.files) p.published t

/-- The file of the next page is there and PAGE_END is still to be stored on this one. -/
def MidRollover (p : Party) : Prop :=
  ∃ n a, .frame n a (.status journalFrameStatusPageEnd) ∈ p.todo ∧ (p.files.lookup (n + 1)).isSome

/-- The writer does not die in the middle of a page change. -/
def Orderly (p : Party) : Action → Prop
  | .die => ¬ MidRollover p
  | _ => True

/-- What orderly steps keep. -/
def Inv (p : Party) : Prop :=
  ∃ v, PartyRep p v ∧
    (p.alive = false → p.todo = [] ∧ v.pages.length < maxPages ∧ (v.opening = true → v.pages = []))

variable {h} {p q : Party} {v w : View} {ps : List PageLog} {a : Action}

theorem endsInPageEnd_of_rep {fs : Files} (hr : Rep fs v) {i : ℕ} (hi : i + 1 < v.pages.length) :
    EndsInPageEnd fs (pageNo i) := by
  obtain ⟨b, hb, hp⟩ := hr.page i (by omega)
  have hst : v.endStatus i = journalFrameStatusPageEnd := if_pos hi
  rw [hst] at hp
  have hscan := passWrittenFrame_end (m := 0) (n := pageNo i) (q := []) hp
    (hr.ok.roomy _ (List.getElem_mem _)) (by decide) (List.nil_append _).symm
  rw [EndsInPageEnd, Files.buffer_of_lookup hb]
  refine ⟨_, hscan, ?_⟩
  have hend : Frame.getStatus b v.pages[i].endPos = journalFrameStatusPageEnd := hp.status
  exact beq_iff_eq.mpr hend

theorem Inv.empty : Inv Party.empty :=
  ⟨_, PartyRep.empty, fun _ => ⟨rfl, by decide, fun ho => Bool.noConfusion ho⟩⟩

/-- Outside of a page change no page is opening, unless it is the first one. -/
theorem PartyRep.not_opening (hp : PartyRep p v) (hlive : p.alive = true) (hmid : ¬ MidRollover p)
    (ho : v.opening = true) : v.pages = [] := by
  by_contra hne
  obtain ⟨w, hs, halive⟩ := hp.script
  obtain ⟨l, -, rfl, -⟩ := halive hlive
  obtain ⟨e, he, a, rfl⟩ := hs.closes_mem ho hne rfl
  have hpos := List.length_pos_iff.mpr hne
  refine hmid ⟨_, a, he, ?_⟩
  have hle := hp.rep.numFiles_le
  have hn : v.pages.length < v.numFiles := by
    unfold View.numFiles
    rw [ho]
    exact Nat.lt_succ_self _
  rw [pageNo_succ, Nat.sub_add_cancel hpos]
  exact (hp.rep.lookup_isSome (by omega)).mpr hn

/-- So a death leaves none. -/
theorem Inv.die (hp : Inv p) (hlive : p.alive = true) (hmid : ¬ MidRollover p) : Inv p.die := by
  obtain ⟨v, hp, -⟩ := hp
  exact ⟨v, hp.die, fun _ => ⟨rfl, hp.length_lt hlive, PartyRep.not_opening hp hlive hmid⟩⟩

theorem Inv.step (hg : h.Grants) (hp : Inv p) (ha : Orderly p a) (hq : Crash.step h p a = some q) :
    Inv q := by
  obtain ⟨v, hp, hdead⟩ := hp
  cases a with
  | create =>
    simp only [Crash.step] at hq
    split at hq
    · rename_i hguard
      obtain ⟨hlive, -, hleft⟩ := hguard
      obtain rfl := Option.some.inj hq
      obtain ⟨-, hlt, hopen⟩ := hdead hlive
      obtain ⟨hp', hlive', -⟩ := hp.create hg hopen hlt hleft
      exact ⟨v, hp', fun hd => by rw [hlive'] at hd; cases hd⟩
    · cases hq
  | write data msgType lastFlag =>
    simp only [Crash.step] at hq
    split at hq
    · rename_i hguard
      obtain ⟨hlive, htodo, hadm, hleft⟩ := hguard
      obtain rfl := Option.some.inj hq
      obtain ⟨hp', hlive', -⟩ := hp.write hg hlive htodo hadm msgType lastFlag hleft
      exact ⟨v, hp', fun hd => by rw [hlive'] at hd; cases hd⟩
    · cases hq
  | store =>
    obtain ⟨w, e, -, -, -, halive, htodo, hw⟩ := hp.perform hq
    -- the dead have nothing to do
    exact ⟨w, hw, fun hd => absurd (hdead (halive.symm.trans hd)).1 htodo⟩
  | die =>
    simp only [Crash.step] at hq
    split at hq
    · rename_i hlive
      obtain rfl := Option.some.inj hq
      exact Inv.die ⟨v, hp, hdead⟩ hlive ha
    · cases hq

theorem Inv.readable (hg : h.Grants) (hp : Inv p) : Readable h p := by
  obtain ⟨v, hp, -⟩ := hp
  refine ⟨fun hlive htodo => ?_, fun fuel hfuel => ?_⟩
  · obtain ⟨l, hw, rfl, -⟩ := hp.at_rest hlive htodo
    obtain ⟨buffer, hcur⟩ := hw.curPage
    refine ⟨_, hcur, fun n hn hlt => ?_⟩
    obtain ⟨i, hi, rfl⟩ := exists_pageNo hn
    have hle := hw.rep.ok.length_le
    rw [l.length_pages] at hle
    refine endsInPageEnd_of_rep hp.rep ?_
    rw [l.length_pages]
    have := (pageNo_lt hi (by omega)).mp hlt
    omega
  · rw [hp.published] at hfuel ⊢
    exact JournalReader.readFrom_first_spec hg hp.rep hfuel

/-! ### Runs -/

section Runs

variable {l : Ledger}

/-- The first `k` stores of the call have taken place. -/
def stored (p : Party) (k : ℕ) : Party :=
  { p with
    files := execAll p.files (p.todo.take k)
    todo := p.todo.drop k
    published := p.published ++ (p.todo.take k).flatMap (writtenBy p.current) }

theorem run_stores (k : ℕ) (hk : k ≤ p.todo.length) :
    (crashes h).run p (List.replicate k .store) = some (stored p k) := by
  induction k generalizing p with
  | zero => simp [stored, execAll]
  | succ k ih =>
    obtain ⟨files, env, alive, todo, current, published⟩ := p
    cases todo with
    | nil => exact absurd hk (by simp)
    | cons e es =>
      rw [List.replicate_succ]
      refine ((crashes h).run_cons_of_step (a := .store) rfl _).trans ?_
      rw [ih (Nat.le_of_succ_le_succ hk)]
      simp [stored, execAll]

/-- The writer can come from `p` to `q` without dying. -/
def Leads (h : Host) (p q : Party) : Prop :=
  ∃ as, (∀ a ∈ as, a ≠ .die) ∧ (crashes h).run p as = some q

theorem Leads.trans {r : Party} (hpq : Leads h p q) (hqr : Leads h q r) : Leads h p r := by
  obtain ⟨as, has, hrun⟩ := hpq
  obtain ⟨bs, hbs, hrun'⟩ := hqr
  refine ⟨as ++ bs, fun a ha => ?_, ((crashes h).run_append_of_run hrun bs).trans hrun'⟩
  rcases List.mem_append.mp ha with ha | ha
  · exact has a ha
  · exact hbs a ha

theorem Leads.step (hstep : (crashes h).step p a = some q) (ha : a ≠ .die) : Leads h p q := by
  refine ⟨[a], fun b hb => ?_, (crashes h).run_cons_of_step hstep []⟩
  rw [List.mem_singleton.mp hb]
  exact ha

theorem Leads.stores {k : ℕ} (hk : k ≤ p.todo.length) : Leads h p (stored p k) := by
  refine ⟨List.replicate k .store, fun a ha => ?_, run_stores k hk⟩
  rw [List.eq_of_mem_replicate ha]
  exact fun hne => by cases hne

/-- A call that begins, and runs to its end. -/
theorem Leads.call (hstep : (crashes h).step p a = some q) (ha : a ≠ .die) : Leads h p q.finish := by
  have hstores := Leads.stores (h := h) (Nat.le_refl q.todo.length)
  rw [stored, List.take_length, List.drop_length] at hstores
  exact (Leads.step hstep ha).trans hstores

/-- A writer between two calls. -/
structure Rests (p : Party) (l : Ledger) : Prop where
  writer : WriterAt p.start l
  alive : p.alive = true
  todo : p.todo = []
  published : p.published = allRecords l.pages

theorem Rests.of_calls {α : Type} {x : JournalM α} {ρ : α → Option Record} {c : α} {t : Env}
    (hx : Calls (ρ c) x p.start v c t ⟨l.pages, false⟩) (hw : WriterAt t l)
    (hpub : p.published = allRecords v.pages) : Rests (p.call x ρ).finish l := by
  obtain ⟨hruns, es, htr, hes⟩ := hx
  have e := Party.call_of_runs (ρ := ρ) hruns
  have htr' : t.trace = es := htr
  have hfiles : execAll p.files t.trace = t.files := by
    rw [htr']
    exact hes.exec_end
  rw [e]
  refine ⟨hw.congr hfiles rfl rfl, rfl, rfl, ?_⟩
  show p.published ++ t.trace.flatMap (writtenBy (ρ c)) = _
  rw [hpub, htr']
  exact hes.records.symm

/-- A call of `write_frame` begins. -/
theorem Rests.can_write (hg : h.Grants) (hp : Rests p l) (hlt : l.pages.length < maxPages) {data : List UInt8}
    (hfit : Party.Admissible data) (msgType : Int16) (lastFlag : UInt8)
    (hleft : (l.write h data msgType lastFlag).pages.length < maxPages) :
    ∃ t ρ, Calls (some ρ) (JournalWriter.writeFrame h data msgType lastFlag) p.start ⟨l.pages, false⟩ ρ.nano t
        ⟨(l.write h data msgType lastFlag).pages, false⟩ ∧
      (crashes h).step p (.write data msgType lastFlag) = some (p.write h data msgType lastFlag) ∧
      p.write h data msgType lastFlag =
        { p with env := t, alive := true, todo := t.trace, current := some ρ } ∧
      WriterAt t (l.write h data msgType lastFlag) := by
  obtain ⟨t, hmoves⟩ := JournalWriter.writeFrame_spec hg hp.writer hlt hfit msgType lastFlag
  have e : p.write h data msgType lastFlag = { p with
      env := t, alive := true, todo := t.trace, current := some ⟨data, h.clock l.tick, msgType, lastFlag⟩ } :=
    Party.call_of_runs hmoves.runs
  have hpages : Party.PagesLeft (p.write h data msgType lastFlag).env.files := by
    rw [e, hmoves.2.rep.pagesLeft_iff]
    simpa [View.numFiles] using hleft
  exact ⟨t, _, hmoves.1, if_pos ⟨hp.alive, hp.todo, hfit, hpages⟩, e, hmoves.2⟩

/-- A call of `write_frame` that runs to its end. -/
theorem Rests.run_write (hg : h.Grants) (hp : Rests p l) (hlt : l.pages.length < maxPages) {data : List UInt8}
    (hfit : Party.Admissible data) (msgType : Int16) (lastFlag : UInt8)
    (hleft : (l.write h data msgType lastFlag).pages.length < maxPages) :
    ∃ q, Leads h p q ∧ Rests q (l.write h data msgType lastFlag) := by
  obtain ⟨t, ρ, hcalls, hstep, e, hw⟩ := hp.can_write hg hlt hfit msgType lastFlag hleft
  have hfin : p.write h data msgType lastFlag =
      p.call (JournalWriter.writeFrame h data msgType lastFlag) fun _ => some ρ := by
    rw [e, Party.call_of_runs hcalls.runs]
  refine ⟨_, .call hstep (by simp), ?_⟩
  rw [hfin]
  exact Rests.of_calls (ρ := fun _ => some ρ) hcalls hw hp.published

/-- A writer is made, where the last one has left no page change unfinished. -/
theorem run_create (hg : h.Grants) (hr : Rep p.files ⟨ps, false⟩) (hdead : p.alive = false) (htodo : p.todo = [])
    (hpub : p.published = allRecords ps) (hlt : ps.length < maxPages)
    (hleft : (Ledger.reopen h ps p.env.tick).pages.length < maxPages) :
    ∃ q, Leads h p q ∧ Rests q (Ledger.reopen h ps p.env.tick) := by
  obtain ⟨t, hcalls, hw⟩ := JournalWriter.create_spec (ρ := none) (s := p.start) hg (.settled hr) hlt
  have hpages : Party.PagesLeft (p.create h).env.files := by
    have e : (p.create h).env = t := congrArg Party.env (Party.call_of_runs hcalls.runs)
    rw [e, hw.rep.pagesLeft_iff]
    exact hleft
  have hstep : (crashes h).step p .create = some (p.create h) := if_pos ⟨hdead, htodo, hpages⟩
  exact ⟨_, .call hstep (by simp), Rests.of_calls (ρ := fun _ => none) hcalls hw hpub⟩

/-- Filling the first page. -/
theorem run_filling (hg : h.Grants) {k : ℕ} (hk : k ≤ 63) :
    ∃ p, Leads h (crashes h).init p ∧ Rests p (Ledger.filling h k) := by
  induction k with
  | zero =>
    refine run_create (p := Party.empty) hg Rep.empty rfl rfl rfl (by decide) ?_
    show 1 < maxPages
    decide
  | succ k ih =>
    obtain ⟨p, hrun, hp⟩ := ih (by omega)
    have hwrite := Ledger.filling_write h (k := k) (by omega)
    have hone : ∀ m, (Ledger.filling h m).pages.length < maxPages := fun m => by
      show 1 < maxPages
      decide
    have hfit : Party.Admissible Ledger.greatest := Nat.le_of_eq Ledger.size_greatest
    obtain ⟨q, hrun', hq⟩ := hp.run_write hg (hone k) hfit 0 0 (by rw [hwrite]; exact hone _)
    rw [hwrite] at hq
    exact ⟨q, hrun.trans hrun', hq⟩

/-- A call of `write_frame` that stops before the stores of the status. -/
theorem Rests.run_torn (hp : Rests p l) (hroom : HasRoom l.cur.endPos) (hlt : l.pages.length < maxPages)
    {data : List UInt8} (hfit : Party.Admissible data) (msgType : Int16) (lastFlag : UInt8) :
    ∃ q, Leads h p q ∧ q.alive = true ∧ q.todo ≠ [] ∧ ¬ MidRollover q ∧ Rep q.files ⟨l.pages, false⟩ ∧
      q.published = allRecords l.pages := by
  obtain ⟨t, ss, hmoves, hss, htrace⟩ :=
    JournalWriter.writeFrame_hasRoom (h := h) hp.writer hroom hfit msgType lastFlag
  have e : p.write h data msgType lastFlag = { p with
      env := t, alive := true, todo := t.trace, current := some ⟨data, h.clock l.tick, msgType, lastFlag⟩ } :=
    Party.call_of_runs hmoves.runs
  have hpages : Party.PagesLeft (p.write h data msgType lastFlag).env.files := by
    rw [e, hmoves.2.rep.pagesLeft_iff]
    simpa [View.numFiles, Ledger.length_pages_write h l hroom] using hlt
  have hstep : (crashes h).step p (.write data msgType lastFlag) = some (p.write h data msgType lastFlag) :=
    if_pos ⟨hp.alive, hp.todo, hfit, hpages⟩
  have htodo : (p.write h data msgType lastFlag).todo = ss.map (.frame l.curNo l.cur.endPos) ++
      Frame.setStatusWritten.map (.frame l.curNo l.cur.endPos) := by
    rw [e, ← List.map_append]
    exact htrace
  have hfields := publishes_fields (ρ := some ⟨data, h.clock l.tick, msgType, lastFlag⟩) hp.writer.rep hss
  have hnothing := hfields.records
  have hlen : (ss.map (Effect.frame l.curNo l.cur.endPos)).length = ss.length := List.length_map ..
  have hk : ss.length ≤ (p.write h data msgType lastFlag).todo.length := by
    rw [htodo, List.length_append, hlen]
    exact Nat.le_add_right ..
  have htake : (p.write h data msgType lastFlag).todo.take ss.length =
      ss.map (.frame l.curNo l.cur.endPos) := by
    rw [htodo, List.take_append_of_le_length (Nat.le_of_eq hlen.symm)]
    exact List.take_of_length_le (Nat.le_of_eq hlen)
  have hdrop : (p.write h data msgType lastFlag).todo.drop ss.length =
      Frame.setStatusWritten.map (.frame l.curNo l.cur.endPos) := by
    rw [htodo, ← hlen]
    exact List.drop_left ..
  have hmid : ¬ MidRollover (stored (p.write h data msgType lastFlag) ss.length) := by
    rintro ⟨n, a, hmem, -⟩
    have hmem' : .frame n a (.status journalFrameStatusPageEnd) ∈
        Frame.setStatusWritten.map (Effect.frame l.curNo l.cur.endPos) := hdrop ▸ hmem
    simp [Frame.setStatusWritten] at hmem'
    exact absurd hmem'.2.2 (by decide)
  refine ⟨_, (Leads.step hstep (by simp)).trans (.stores hk), by rw [e]; rfl, ?_, hmid, ?_, ?_⟩
  · show (p.write h data msgType lastFlag).todo.drop ss.length ≠ []
    rw [hdrop]
    exact List.cons_ne_nil _ _
  · show Rep (execAll (p.write h data msgType lastFlag).files
      ((p.write h data msgType lastFlag).todo.take ss.length)) _
    rw [htake, e]
    exact hfields.rep_end
  · show (p.write h data msgType lastFlag).published ++ ((p.write h data msgType lastFlag).todo.take
      ss.length).flatMap (writtenBy (p.write h data msgType lastFlag).current) = _
    rw [htake, e]
    dsimp only
    rw [hp.published]
    exact hnothing.symm

theorem eachStep_live {as : List Action} (has : ∀ a ∈ as, a ≠ .die) (p : Party) :
    (crashes h).EachStep Orderly p as := by
  refine System.eachStep_of_forall as (fun a ha q => ?_) p
  cases a with
  | die => exact absurd rfl (has _ ha)
  | _ => trivial

/-- Outside of a page change a writer may die, and the run goes on. -/
theorem eachStep_die {as bs : List Action} (has : ∀ a ∈ as, a ≠ .die) (hrun : (crashes h).run p as = some q)
    (hmid : ¬ MidRollover q) (hbs : ∀ b ∈ bs, b ≠ .die) :
    (crashes h).EachStep Orderly p (as ++ .die :: bs) := by
  refine System.eachStep_append.mpr ⟨eachStep_live has p, fun r hr => ⟨?_, fun _ _ => eachStep_live hbs _⟩⟩
  obtain rfl := Option.some.inj (hrun.symm.trans hr)
  exact hmid

/-- The page that the sixty-fourth frame is on has room. -/
theorem hasRoom_full : HasRoom ((Ledger.filling h 63).write h Ledger.greatest 0 0).cur.endPos := by
  have hend : ((Ledger.filling h 63).write h Ledger.greatest 0 0).cur.endPos = (Ledger.filling h 1).cur.endPos := by
    rw [Ledger.filling_full, Ledger.filling_endPos]
    unfold PageLog.endPos
    rw [framesSize_cons, framesSize_nil, Nat.add_zero, Nat.one_mul]
    exact congrArg (pageInitPosition + ·) Ledger.size_greatest
  rw [hend]
  exact (Ledger.filling_hasRoom_iff h 1).mpr (by decide)

/-- A writer dies when a frame lacks nothing but its status, and another one writes a frame. -/
theorem Rests.run_die (hg : h.Grants) (hp : Rests p l) (hroom : HasRoom l.cur.endPos)
    (hlt : l.pages.length < maxPages) {data : List UInt8} (hfit : Party.Admissible data) (msgType : Int16)
    (lastFlag : UInt8) :
    ∃ q r, Leads h p q ∧ q.alive = true ∧ q.todo ≠ [] ∧ ¬ MidRollover q ∧ Leads h q.die r ∧
      r.published.length = (allRecords l.pages).length + 1 ∧
      getPageNums r.files = (List.range l.pages.length).map pageNo := by
  obtain ⟨q, hlead, hlive, htodo, hmid, hrep, hpub⟩ := hp.run_torn (h := h) hroom hlt hfit msgType lastFlag
  -- the next writer goes on where the frames end
  have hreopen : Ledger.reopen h l.pages q.die.env.tick = ⟨l.closed, l.cur, q.die.env.tick⟩ := by
    unfold Ledger.pages
    rw [Ledger.reopen_concat]
    exact Ledger.makeRoom_of_hasRoom h _ hroom
  have hlt' : (Ledger.reopen h l.pages q.die.env.tick).pages.length < maxPages := by
    rw [hreopen]
    exact hlt
  obtain ⟨r₀, hlead₀, hr₀⟩ := run_create (p := q.die) hg hrep rfl rfl hpub hlt hlt'
  rw [hreopen] at hr₀
  have hpages := Ledger.length_pages_write h ⟨l.closed, l.cur, q.die.env.tick⟩ hroom data msgType lastFlag
  obtain ⟨r, hlead₁, hr⟩ := hr₀.run_write hg hlt hfit msgType lastFlag (hpages.trans_lt hlt)
  refine ⟨q, r, hlead, hlive, htodo, hmid, hlead₀.trans hlead₁, ?_, ?_⟩
  · rw [hr.published, Ledger.allRecords_write, List.length_append]
    rfl
  · have hnums := hr.writer.rep.getPageNums
    rw [View.numFiles, hpages] at hnums
    exact hnums

/-- A writer that has gone on to the second page. -/
theorem run_second (hg : h.Grants) : ∃ p l, Leads h (crashes h).init p ∧ Rests p l ∧ HasRoom l.cur.endPos ∧
    l.pages.length = 2 ∧ (allRecords l.pages).length = 64 := by
  have hpages : ((Ledger.filling h 63).write h Ledger.greatest 0 0).pages.length = 2 := by
    rw [Ledger.filling_full]
    rfl
  have hrecords : (allRecords ((Ledger.filling h 63).write h Ledger.greatest 0 0).pages).length = 64 := by
    rw [Ledger.allRecords_write]
    simp [Ledger.filling, Ledger.pages]
  have hone : (Ledger.filling h 63).pages.length < maxPages := by
    show 1 < maxPages
    decide
  have hmax : ((Ledger.filling h 63).write h Ledger.greatest 0 0).pages.length < maxPages := by
    rw [hpages]
    decide
  obtain ⟨p₀, hlead₀, hp₀⟩ := run_filling (h := h) hg (Nat.le_refl 63)
  obtain ⟨p, hlead, hp⟩ := hp₀.run_write hg hone (Nat.le_of_eq Ledger.size_greatest) 0 0 hmax
  exact ⟨p, _, hlead₀.trans hlead, hp, hasRoom_full, hpages, hrecords⟩

/-- A run in which a writer goes on to the second page and dies when a frame lacks nothing but its status,
and another writer writes a frame. -/
theorem exists_torn (hg : h.Grants) : ∃ as bs q p, (crashes h).run (crashes h).init as = some q ∧ q.todo ≠ [] ∧
    (crashes h).EachStep Orderly (crashes h).init (as ++ .die :: bs) ∧
    (crashes h).run (crashes h).init (as ++ .die :: bs) = some p ∧ p.published.length = 65 ∧
    getPageNums p.files = [1, 2] := by
  obtain ⟨p₁, l, hlead₁, hp₁, hroom, hpages, hrecords⟩ := run_second hg
  have hmax : l.pages.length < maxPages := by
    rw [hpages]
    decide
  have hfit : Party.Admissible Ledger.greatest := Nat.le_of_eq Ledger.size_greatest
  obtain ⟨q, p, hlead, hlive, htodo, hmid, hlead', hlen, hnums⟩ := hp₁.run_die hg hroom hmax hfit 7 1
  obtain ⟨as, has, hrun⟩ := hlead₁.trans hlead
  obtain ⟨bs, hbs, hrun'⟩ := hlead'
  have hdie : (crashes h).step q .die = some q.die := if_pos hlive
  refine ⟨as, bs, q, p, hrun, htodo, eachStep_die has hrun hmid hbs, ?_, ?_, ?_⟩
  · rw [(crashes h).run_append_of_run hrun]
    exact ((crashes h).run_cons_of_step hdie bs).trans hrun'
  · rw [hlen, hrecords]
  · rw [hnums, hpages]
    rfl

end Runs

section OpenPage

variable {s : Env} {b : Mem} {l : Ledger}

/-- Only the making of a page file adds a page file. -/
theorem eq_create_of_lookup {fs : Files} {n : Int16} {e : Effect} (hnone : fs.lookup n = none)
    (hsome : ((e.exec fs).lookup n).isSome) : e = .create n := by
  by_contra he
  have hmem : n ∈ fs := (Files.mem_exec he).mp (AList.lookup_isSome.mp hsome)
  exact AList.lookup_eq_none.mp hnone hmem

/-- If a page file is there after a script and was not before, there is the moment it is made. -/
theorem split_create {ρ : Option Record} {fs fs' : Files} {es : List Effect} {n : Int16}
    (hs : Publishes ρ fs v es fs' w) (hnone : fs.lookup n = none) (hsome : (fs'.lookup n).isSome) :
    ∃ es₁ es₂ u, es = es₁ ++ .create n :: es₂ ∧ Publishes ρ fs v es₁ (execAll fs es₁) u ∧
      (execAll fs es₁).lookup n = none := by
  induction hs with
  | done _ => rw [hnone] at hsome; cases hsome
  | step hr hn hs ih =>
    rename_i m m' r r₁ r' e es
    by_cases he : ((e.exec m).lookup n).isSome
    · obtain rfl := eq_create_of_lookup hnone he
      exact ⟨[], es, r, rfl, .done hr, hnone⟩
    · obtain ⟨es₁, es₂, u, rfl, hs₁, hnone'⟩ := ih (Option.not_isSome_iff_eq_none.mp he) hsome
      exact ⟨e :: es₁, es₂, u, rfl, .step hr hn hs₁, hnone'⟩

/-- A writer whose next page has just been made. -/
theorem run_opening (hg : h.Grants) : ∃ p ps, Leads h (crashes h).init p ∧
    p.alive = true ∧ Rep p.files ⟨ps, true⟩ ∧ ps.length = 1 ∧
    p.files.lookup (pageNo ps.length) = some zeroPage := by
  obtain ⟨p, hrun, hp⟩ := run_filling (h := h) hg (Nat.le_refl 63)
  have hlt : (Ledger.filling h 63).pages.length < maxPages := by
    show 1 < maxPages
    decide
  have hleft : ((Ledger.filling h 63).write h Ledger.greatest 0 0).pages.length < maxPages := by
    rw [Ledger.filling_full]
    show 2 < maxPages
    decide
  have hfit : Party.Admissible Ledger.greatest := Nat.le_of_eq Ledger.size_greatest
  obtain ⟨t, ρ, ⟨-, es, htr, hes⟩, hstep, e, hw⟩ := hp.can_write hg hlt hfit 0 0 hleft
  have htr' : t.trace = es := htr
  have hnone : p.start.files.lookup (pageNo 1) = none := by
    rw [← Option.not_isSome_iff_eq_none, hes.rep.lookup_isSome (by decide)]
    show ¬ 1 < 1
    decide
  have hsome : (t.files.lookup (pageNo 1)).isSome := by
    rw [hes.rep_end.lookup_isSome (by decide), Ledger.filling_full]
    show 1 < 2
    decide
  obtain ⟨es₁, es₂, ⟨ps, o⟩, rfl, hs₁, hnone'⟩ := split_create hes hnone hsome
  -- before the file is made, the first page is the only one
  have hlen := hs₁.length_le
  have hfew := hs₁.rep_end.lookup_isSome (i := 1) (by decide)
  rw [hnone'] at hfew
  have hone : ps.length = 1 ∧ o = false := by
    have h1 : 1 ≤ ps.length := hlen
    have h2 : ¬ 1 < ps.length + o.toNat := fun hlt' => by simpa using hfew.mpr hlt'
    cases o with
    | false => exact ⟨by simp at h2; omega, rfl⟩
    | true =>
      rw [Bool.toNat_true] at h2
      omega
  obtain ⟨hps, rfl⟩ := hone
  have hrep := hs₁.rep_end.create (by rw [hps]; decide)
  rw [← hps] at hnone'
  have hzero := Files.lookup_create hnone' (pageNo ps.length)
  rw [if_pos rfl] at hzero
  let q := p.write h Ledger.greatest 0 0
  have htodo : q.todo = es₁ ++ .create (pageNo 1) :: es₂ := by
    show (p.write h Ledger.greatest 0 0).todo = _
    rw [e]
    exact htr'
  have htake : q.todo.take (es₁.length + 1) = es₁ ++ [.create (pageNo 1)] := by
    rw [htodo, List.take_length_add_append]
    rfl
  have hfiles : execAll q.files (q.todo.take (es₁.length + 1)) =
      Effect.exec (execAll p.start.files es₁) (.create (pageNo ps.length)) := by
    have hq : q.files = p.start.files := by
      show (p.write h Ledger.greatest 0 0).files = _
      rw [e]
      rfl
    rw [htake, hq, execAll_append, hps]
    rfl
  have hk : es₁.length + 1 ≤ q.todo.length := by
    rw [htodo, List.length_append, List.length_cons]
    omega
  refine ⟨stored q (es₁.length + 1), ps,
    (hrun.trans (.step hstep (by simp))).trans (.stores hk), ?_, ?_, hps, ?_⟩
  · show (p.write h Ledger.greatest 0 0).alive = true
    rw [e]
  · show Rep (execAll q.files (q.todo.take (es₁.length + 1))) _
    rw [hfiles]
    exact hrep
  · show (execAll q.files (q.todo.take (es₁.length + 1))).lookup _ = _
    rw [hfiles]
    exact hzero

end OpenPage

end Yijinjing.Crash
