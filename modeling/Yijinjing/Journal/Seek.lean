import Yijinjing.Journal.WriterCalls

/-!
# Seeking

`Journal::seekTime` for its three kinds of times, given the page it is answered with, and
`JournalWriter::create`, which is a seek to the last page: `create_spec` says that a new writer takes
up the ledger where the last one left it (`Ledger.reopen`).
-/

namespace Yijinjing

open Lib Prog

variable {h : Host} {s t : Env} {l : Ledger} {ρ : Option Record} {q q' : Page} {time : Int64}

/-- The state after `releaseCurPage`. -/
def Env.releaseCur (s : Env) : Env :=
  match s.journal.curPage with
  | some p => { s with released := s.released ++ [p.buffer] }
  | none => s

theorem releaseCurPage_runs (s : Env) : Runs Journal.releaseCurPage s ⟨⟩ s.releaseCur := by
  unfold Journal.releaseCurPage Env.releaseCur
  refine (Runs.get s).bind ?_
  cases s.journal.curPage with
  | none => exact Runs.pure _ _
  | some p => exact releasePage_runs p s

theorem Env.releaseCur_eq (s : Env) : s.releaseCur.files = s.files ∧ s.releaseCur.tick = s.tick ∧
    s.releaseCur.journal = s.journal ∧ s.releaseCur.trace = s.trace := by
  unfold Env.releaseCur
  cases s.journal.curPage <;> exact ⟨rfl, rfl, rfl, rfl⟩

/-- The state after `seekTime`, when it has got a page. -/
def Env.positioned (s : Env) (q : Page) : Env := (s.setCurPage (some q)).setExpired false

theorem scanCurPage_runs {f : Mem → Page → Option Page} (hcur : s.journal.curPage = some q)
    (hscan : f (s.files.buffer q.pageNum) q = some q') :
    Runs (scanCurPage f) s ⟨⟩ (s.setCurPage (some q')) := by
  unfold scanCurPage
  refine (Runs.get s).bind ?_
  rw [hcur]
  simp only [hscan]
  exact setCurPage_runs _ _

theorem seekTime_runs (hseek : Runs (Journal.seekPage h time) s.releaseCur ⟨⟩ (t.setCurPage (some q))) :
    Runs (Journal.seekTime h time) s true (t.positioned q) := by
  unfold Journal.seekTime
  exact (releaseCurPage_runs s).bind (hseek.bind ((Runs.get _).bind ((Runs.set _ _).bind (Runs.pure _ _))))

theorem seekPage_toLast_runs
    (hget : Runs (getPage h s.journal.isWriting (Journal.lastPageNum s.files)) s (some q) t)
    (hscan : q.passWrittenFrame (t.files.buffer q.pageNum) = some q') :
    Runs (Journal.seekPage h timeToLast) s ⟨⟩ (t.setCurPage (some q')) := by
  unfold Journal.seekPage
  refine (Runs.get s).bind ?_
  rw [if_pos rfl]
  exact hget.bind ((setCurPage_runs _ t).bind
    (scanCurPage_runs (s := t.setCurPage (some q)) rfl hscan))

theorem seekPage_fromFirst_runs
    (hget : Runs (getPage h s.journal.isWriting (Journal.firstPageNum s.files)) s (some q) t) :
    Runs (Journal.seekPage h timeFromFirst) s ⟨⟩ (t.setCurPage (some q)) := by
  unfold Journal.seekPage
  refine (Runs.get s).bind ?_
  rw [if_neg (by decide), if_pos rfl]
  exact hget.bind (setCurPage_runs _ t)

theorem seekPage_toTime_runs (hfirst : time ≠ timeFromFirst) (hlast : time ≠ timeToLast)
    (hget : Runs (getPage h s.journal.isWriting (getPageNumWithTime s.files time)) s (some q) t)
    (hscan : q.passToTime (t.files.buffer q.pageNum) time = some q') :
    Runs (Journal.seekPage h time) s ⟨⟩ (t.setCurPage (some q')) := by
  unfold Journal.seekPage
  refine (Runs.get s).bind ?_
  rw [if_neg hlast, if_neg hfirst]
  exact hget.bind ((setCurPage_runs _ t).bind
    (scanCurPage_runs (s := t.setCurPage (some q)) (f := fun b p => p.passToTime b time) rfl hscan))

/-! ### The page a seek asks for -/

/-- The page number in the request of `seekTime`. -/
def Journal.soughtPageNum (fs : Files) (time : Int64) : Int16 :=
  if time = timeToLast then Journal.lastPageNum fs
  else if time = timeFromFirst then Journal.firstPageNum fs
  else getPageNumWithTime fs time

/-- A seek that is given no page leaves the journal expired. -/
theorem seekTime_runs_none
    (hget : Runs (getPage h s.journal.isWriting (Journal.soughtPageNum s.files time)) s.releaseCur none t) :
    Runs (Journal.seekTime h time) s false ((t.setCurPage none).setExpired true) := by
  obtain ⟨hfiles, -, hjournal, -⟩ := s.releaseCur_eq
  have hscan : ∀ f, Runs (scanCurPage f) (t.setCurPage none) ⟨⟩ (t.setCurPage none) := by
    intro f
    unfold scanCurPage
    exact (Runs.get _).bind (Runs.pure _ _)
  have hseek : Runs (Journal.seekPage h time) s.releaseCur ⟨⟩ (t.setCurPage none) := by
    unfold Journal.soughtPageNum at hget
    unfold Journal.seekPage
    refine (Runs.get _).bind ?_
    rw [hfiles, hjournal]
    split
    · rename_i hlast
      rw [if_pos hlast] at hget
      exact hget.bind ((setCurPage_runs _ t).bind (hscan _))
    · rename_i hlast
      rw [if_neg hlast] at hget
      split
      · rename_i hfirst
        rw [if_pos hfirst] at hget
        exact hget.bind (setCurPage_runs _ t)
      · rename_i hfirst
        rw [if_neg hfirst] at hget
        exact hget.bind ((setCurPage_runs _ t).bind (hscan _))
  unfold Journal.seekTime
  exact (releaseCurPage_runs _).bind (hseek.bind ((Runs.get _).bind ((Runs.set _ _).bind (Runs.pure _ _))))

/-- A seek that is given a page, whose frames are then passed. -/
theorem seekTime_runs_some
    (hget : Runs (getPage h s.journal.isWriting (Journal.soughtPageNum s.files time)) s.releaseCur (some q) t)
    (hlast : ∃ q', q.passWrittenFrame (t.files.buffer q.pageNum) = some q')
    (htime : ∃ q', q.passToTime (t.files.buffer q.pageNum) time = some q') :
    ∃ q', Runs (Journal.seekTime h time) s true (t.positioned q') ∧
      (q' = q ∨ q.passWrittenFrame (t.files.buffer q.pageNum) = some q' ∨
        q.passToTime (t.files.buffer q.pageNum) time = some q') := by
  obtain ⟨hfiles, -, hjournal, -⟩ := s.releaseCur_eq
  obtain ⟨q₁, hq₁⟩ := hlast
  obtain ⟨q₂, hq₂⟩ := htime
  unfold Journal.soughtPageNum at hget
  rw [← hfiles, ← hjournal] at hget
  by_cases htl : time = timeToLast
  · rw [if_pos htl] at hget
    subst htl
    exact ⟨q₁, seekTime_runs (seekPage_toLast_runs hget hq₁), .inr (.inl hq₁)⟩
  · rw [if_neg htl] at hget
    by_cases hff : time = timeFromFirst
    · rw [if_pos hff] at hget
      subst hff
      exact ⟨q, seekTime_runs (seekPage_fromFirst_runs hget), .inl rfl⟩
    · rw [if_neg hff] at hget
      exact ⟨q₂, seekTime_runs (seekPage_toTime_runs hff htl hget hq₂), .inr (.inr hq₂)⟩

theorem Rep.lastPageNum_eq {fs : Files} {ps : List PageLog} {p : PageLog}
    (hr : Settled fs (ps ++ [p])) : Journal.lastPageNum fs = pageNo ps.length := by
  unfold Journal.lastPageNum
  rw [hr.getPageNums]
  simp [View.numFiles, List.range_succ]

theorem Rep.lastPageNum_nil {fs : Files} {o : Bool} (hr : Rep fs ⟨[], o⟩) :
    Journal.lastPageNum fs = pageNo 0 := by
  unfold Journal.lastPageNum
  rw [hr.getPageNums]
  cases o <;> rfl

theorem Rep.firstPageNum_eq {fs : Files} {v : View} (hr : Rep fs v) :
    Journal.firstPageNum fs = pageNo 0 := by
  unfold Journal.firstPageNum
  rw [hr.getPageNums]
  cases v.numFiles with
  | zero => rfl
  | succ n => simp [List.range_succ_eq_map]

/-! ### `JournalWriter::create` -/

namespace JournalWriter

/-- A program that ends where `x` ends, but for the journal object. -/
theorem calls_of_runs {α β : Type} {x : JournalM α} {y : JournalM β} {v w : View} {a : α} {c : β}
    {s₀ t' : Env} (hx : Calls ρ x s v a t w) (hy : Runs y s₀ c t') (hs : s.files = s₀.files)
    (hstr : s.trace = s₀.trace) (ht : t'.files = t.files) (httr : t'.trace = t.trace) :
    Calls ρ y s₀ v c t' w := by
  obtain ⟨-, es, htr, hes⟩ := hx
  refine ⟨hy, es, ?_, ?_⟩
  · rw [httr, htr, hstr]
  · rw [ht, ← hs]
    exact hes

/-- `seekTime` of a new writer on an empty journal makes its first page. -/
theorem seekTime_spec_nil (hg : h.Grants) {o : Bool} (hr : Rep s.files ⟨[], o⟩)
    (hw : s.journal.isWriting = true) :
    ∃ t, Calls ρ (Journal.seekTime h timeToLast) s ⟨[], o⟩ true t ⟨[.fresh (h.clock s.tick)], false⟩ ∧
      WriterAt t ⟨[], .fresh (h.clock s.tick), s.tick + 1⟩ := by
  obtain ⟨hfiles, htick, hjournal, htrace⟩ := s.releaseCur_eq
  obtain ⟨t, buffer, hget, htick', hjournal'⟩ :=
    getPage_first (ρ := ρ) (s := s.releaseCur) hg (hfiles ▸ hr)
  rw [htick] at hget htick'
  rw [hjournal] at hjournal'
  have hrep := hget.rep_end
  obtain ⟨b, hb, hp⟩ := Rep.last (show Rep _ ⟨[] ++ [_], _⟩ from hrep)
  have hscan := passWrittenFrame_end hp trivial (by decide) (m := buffer) (n := pageNo 0)
    (List.append_nil _).symm
  have hseek := seekTime_runs (seekPage_toLast_runs (s := s.releaseCur)
    (by rw [hjournal, hfiles, hr.lastPageNum_nil, hw]; exact hget.runs)
    (by rw [← hscan, ← Files.buffer_of_lookup hb]; rfl))
  refine ⟨_, calls_of_runs hget hseek hfiles htrace rfl rfl, hrep, htick', ?_, rfl, buffer, rfl⟩
  show t.journal.isWriting = true
  rw [hjournal', hw]

/-- `seekTime` of a writer on a journal with pages goes to the end of the last one. -/
theorem seekTime_spec_concat (hg : h.Grants) {ps : List PageLog} {p : PageLog}
    (hr : Settled s.files (ps ++ [p])) (hw : s.journal.isWriting = true) :
    ∃ t, Moves ρ (Journal.seekTime h timeToLast) s ⟨ps, p, s.tick⟩ true t ⟨ps, p, s.tick⟩ := by
  obtain ⟨hfiles, htick, hjournal, htrace⟩ := s.releaseCur_eq
  obtain ⟨t, buffer, hget, htick', hjournal'⟩ :=
    getPage_last (ρ := ρ) (s := s.releaseCur) hg (hfiles ▸ hr)
  rw [htick] at htick'
  rw [hjournal] at hjournal'
  have hrep := hget.rep_end
  obtain ⟨b, hb, hp⟩ := hrep.last
  have hscan := passWrittenFrame_end hp (hrep.ok.roomy p (by simp)) (by decide) (m := buffer)
    (n := pageNo ps.length) (q := []) rfl
  have hseek := seekTime_runs (seekPage_toLast_runs (s := s.releaseCur)
    (by rw [hjournal, hfiles, hr.lastPageNum_eq, hw]; exact hget.runs)
    (by rw [← hscan, ← Files.buffer_of_lookup hb]; rfl))
  refine ⟨_, calls_of_runs hget hseek hfiles htrace rfl rfl, hrep, htick', ?_, rfl, buffer, rfl⟩
  show t.journal.isWriting = true
  rw [hjournal', hw]

/-- The files a new writer may find: a settled journal, or one whose first page was never finished. -/
def Openable (fs : Files) (v : View) : Prop := Rep fs v ∧ (v.opening = true → v.pages = [])

theorem Openable.settled {fs : Files} {ps : List PageLog} (hr : Settled fs ps) : Openable fs ⟨ps, false⟩ :=
  ⟨hr, fun ho => Bool.noConfusion ho⟩

/-- The state in which `create` starts to seek. -/
def created (s : Env) : Env := { s with journal := Journal.create true }

theorem new_runs (s : Env) :
    Runs (modify fun s => { s with journal := Journal.create true } : JournalM Unit) s ⟨⟩ (created s) := rfl

theorem create_runs {t u : Env} {a : Bool} {c : Option ℕ}
    (hseek : Runs (Journal.seekTime h timeToLast) (created s) a t)
    (hloc : Runs (Journal.locateFrame h) t c u) : Runs (create h) s ⟨⟩ u := by
  unfold create seekEnd
  exact (new_runs s).bind (hseek.bind (hloc.bind (Runs.pure _ _)))

/-- **A new writer takes up the journal where the last one left it.** -/
theorem create_spec (hg : h.Grants) {v : View} (hopen : Openable s.files v)
    (hlt : v.pages.length < maxPages) :
    ∃ t, Calls ρ (create h) s v ⟨⟩ t ⟨(Ledger.reopen h v.pages s.tick).pages, false⟩ ∧
      WriterAt t (Ledger.reopen h v.pages s.tick) := by
  obtain ⟨hr, ho⟩ := hopen
  obtain ⟨ps, o⟩ := v
  have hr' : Rep (created s).files ⟨ps, o⟩ := hr
  rcases List.eq_nil_or_concat ps with rfl | ⟨qs, p, rfl⟩
  · obtain ⟨t, hseek, hwt⟩ := seekTime_spec_nil (ρ := ρ) hg hr' rfl
    have hone : (Ledger.mk [] (.fresh (h.clock s.tick)) (s.tick + 1)).pages.length < maxPages := by
      simp [maxPages]
    obtain ⟨u, hloc⟩ := Journal.locateFrame_spec (ρ := ρ) hg hwt hone
    have hroom : HasRoom (Ledger.mk [] (.fresh (h.clock s.tick)) (s.tick + 1)).cur.endPos :=
      hasRoom_pageInitPosition
    have e : (created s).tick = s.tick := rfl
    rw [e, Ledger.makeRoom_of_hasRoom _ _ hroom] at hloc
    exact ⟨u, calls_of_runs (hseek.bind (f := fun _ => Journal.locateFrame h) hloc.1)
      (create_runs hseek.runs hloc.runs) rfl rfl rfl rfl, hloc.2⟩
  · rw [List.concat_eq_append] at hr' ho hlt ⊢
    obtain rfl : o = false := by
      cases o with
      | false => rfl
      | true => exact absurd (ho rfl) (by simp)
    obtain ⟨t, hseek⟩ := seekTime_spec_concat (ρ := ρ) hg hr' rfl
    obtain ⟨u, hloc⟩ := Journal.locateFrame_spec (ρ := ρ) hg hseek.2 hlt
    rw [Ledger.reopen_concat]
    exact ⟨u, calls_of_runs (hseek.1.bind (f := fun _ => Journal.locateFrame h) hloc.1)
      (create_runs hseek.runs hloc.runs) rfl rfl rfl rfl, hloc.2⟩

end JournalWriter

end Yijinjing
