import Yijinjing.Served.Invariants

/-!
# `seekEnd` on a live writer

The server does not release the page of a slot that asks for it again, and then finds it counted: a live
writer is refused its own page.  In no reachable state does `seekEnd` keep the writer where it is
(`never_idempotent`).
-/

namespace Yijinjing.Served

open Lib Prog PageEngine

variable {c : Setting} {s t : Session} {fs fs' : Files} {n k : Int16}

/-! ### The largest page number -/

/-- Below the largest number of a short there is no wrap. -/
theorem toInt_add_one (hn : n ≠ Int16.maxValue) : (n + 1).toInt = n.toInt + 1 := by
  have hle := n.toInt_le
  have hge := n.le_toInt
  have hmax : Int16.maxValue.toInt = 32767 := rfl
  have hmin : Int16.minValue.toInt = -32768 := rfl
  have hne : n.toInt ≠ 32767 := fun h => hn (Int16.toInt_inj.mp (h.trans hmax.symm))
  have hone : (1 : Int16).toInt = 1 := rfl
  rw [Int16.toInt_add, hone, Int.bmod_def]
  omega

/-- A listed page that is asked for again is still the last one. -/
theorem lastPageNum_gains (h : ∀ k, k ∈ fs' ↔ k ∈ fs ∨ k = Journal.lastPageNum fs) :
    Journal.lastPageNum fs' = Journal.lastPageNum fs := by
  refine lastPageNum_eq ((h _).mpr (.inr rfl)) (lastPageNum_nonneg fs) fun k hk => ?_
  rcases (h k).mp hk with hk | rfl
  · by_cases h0 : 0 ≤ k
    · exact le_lastPageNum hk h0
    · exact Int16.le_trans (Int16.le_of_lt (Int16.not_le.mp h0)) (lastPageNum_nonneg fs)
  · exact Int16.le_refl _

/-- The page behind the last one. -/
theorem lastPageNum_next (hmax : Journal.lastPageNum fs ≠ Int16.maxValue)
    (h : ∀ k, k ∈ fs' ↔ k ∈ fs ∨ k = Journal.lastPageNum fs + 1) :
    Journal.lastPageNum fs' = Journal.lastPageNum fs + 1 := by
  have h0 := lastPageNum_nonneg fs
  have hlt : Journal.lastPageNum fs < Journal.lastPageNum fs + 1 := by
    rw [Int16.lt_iff_toInt_lt, toInt_add_one hmax]
    omega
  refine lastPageNum_eq ((h _).mpr (.inr rfl)) (Int16.le_trans h0 (Int16.le_of_lt hlt)) fun k hk => ?_
  rcases (h k).mp hk with hk | rfl
  · by_cases hk0 : 0 ≤ k
    · exact Int16.le_trans (le_lastPageNum hk hk0) (Int16.le_of_lt hlt)
    · exact Int16.le_trans (Int16.le_of_lt (Int16.not_le.mp hk0)) (Int16.le_trans h0 (Int16.le_of_lt hlt))
  · exact Int16.le_refl _

/-- No page comes behind the largest number of a short. -/
theorem lastPageNum_max (hmax : Journal.lastPageNum fs = Int16.maxValue) (h : ∀ k, k ∈ fs → k ∈ fs') :
    Journal.lastPageNum fs' = Int16.maxValue := by
  have hmem : Int16.maxValue ∈ fs := by
    by_cases hex : ∃ k ∈ fs, 0 ≤ k
    · obtain ⟨k, hk, h0⟩ := hex
      exact hmax ▸ (lastPageNum_mem hk h0).1
    · rw [lastPageNum_of_none fun k hk h0 => hex ⟨k, hk, h0⟩] at hmax
      exact absurd hmax (by decide)
  exact lastPageNum_eq (h _ hmem) (by decide) fun k _ => Int16.le_iff_toInt_le.mpr k.toInt_le

/-! ### Where a writer is -/

/-- The writer is on the page `n`, which it has asked for last and is counted for, and which is the last
one, or page numbers have wrapped: the page `minValue` is never released. -/
structure On (c : Setting) (s : Session) (n : Int16) : Prop where
  asked : (s.engine.comm s.idx).lastPageNum = n
  counted : writers c s.engine n = 1
  last : n = Journal.lastPageNum s.env.files ∨
    Journal.lastPageNum s.env.files = Int16.maxValue ∧ writers c s.engine Int16.minValue = 1

structure Placed (c : Setting) (s : Session) : Prop where
  mine : Mine c s.engine s.idx
  isWriting : s.env.journal.isWriting = true
  page : ∀ p, s.env.journal.curPage = some p → On c s p.pageNum

theorem On.congr (h : On c s n) (hcomm : t.engine.comm t.idx = s.engine.comm s.idx)
    (hwriters : ∀ k, writers c t.engine k = writers c s.engine k)
    (hfiles : ∀ k, k ∈ t.env.files ↔ k ∈ s.env.files) : On c t n := by
  refine ⟨hcomm ▸ h.asked, hwriters n ▸ h.counted, ?_⟩
  rw [lastPageNum_congr hfiles, hwriters]
  exact h.last

theorem Placed.onPage {env : Env} (hp : Placed c s) (ho : OnPage s.env env) : Placed c { s with env := env } where
  mine := hp.mine
  isWriting := ho.isWriting.trans hp.isWriting
  page q hq := by
    have hpage := ho.page
    rw [hq] at hpage
    obtain ⟨p, hcur, hno⟩ := Option.map_eq_some_iff.mp hpage.symm
    have hon := (hp.page p hcur).congr (t := { s with env := env }) rfl (fun _ => rfl) ho.files
    exact hno ▸ hon

/-- A writer that was refused a page has none. -/
theorem Placed.of_refused (hm : Mine c s.engine s.idx) (hr : Refused c n s t) : Placed c t := by
  refine ⟨?_, hr.lost.isWriting, fun p hp => ?_⟩
  · rw [hr.engine, hr.idx]
    exact (hm.request n).mine
  · rw [hr.lost.page] at hp
    cases hp

/-- A writer is counted for the page that it was granted. -/
theorem Placed.of_came (hm : Mine c s.engine s.idx) (hc : Came c n s t)
    (hlast : n = Journal.lastPageNum t.env.files ∨
      Journal.lastPageNum t.env.files = Int16.maxValue ∧ writers c t.engine Int16.minValue = 1) : Placed c t := by
  have ha := hm.request n
  refine ⟨?_, hc.arrived.isWriting, fun p hp => ?_⟩
  · rw [hc.engine, hc.idx]
    exact ha.mine
  · have hpage := hc.arrived.page
    rw [hp] at hpage
    obtain rfl := Option.some.inj hpage
    refine ⟨?_, ?_, hlast⟩
    · rw [hc.engine, hc.idx]
      exact ha.lastPageNum
    · rw [hc.engine]
      exact ha.granted hc.granted

theorem Placed.seek (hp : Placed c s) : Post (seekTime c timeToLast) s (fun _ => Placed c) fun _ _ => True := by
  refine (seekTime_spec hp.isWriting).mono (fun _ t ht => ?_) fun _ _ _ => trivial
  obtain ⟨-, hcame | ⟨hrefused, -⟩⟩ := ht
  · exact .of_came hp.mine hcame (.inl (lastPageNum_gains hcame.arrived.files).symm)
  · exact .of_refused hp.mine hrefused

/-- The page behind the cursor is the last one then, or page numbers wrap. -/
theorem Placed.came_last {p : Page} (hp : Placed c s) (hcur : s.env.journal.curPage = some p)
    (hc : Came c (p.pageNum + 1) s t) : p.pageNum + 1 = Journal.lastPageNum t.env.files ∨
      Journal.lastPageNum t.env.files = Int16.maxValue ∧ writers c t.engine Int16.minValue = 1 := by
  have ha := hp.mine.request (p.pageNum + 1)
  have hfiles := hc.arrived.files
  have hkept : ∀ k, k ∈ s.env.files → k ∈ t.env.files := fun k hk => (hfiles k).mpr (.inl hk)
  rw [hc.engine]
  rcases (hp.page p hcur).last with hlast | ⟨hlast, hmin⟩
  · by_cases hmax : p.pageNum = Int16.maxValue
    · have hwrap : p.pageNum + 1 = Int16.minValue := by
        rw [hmax]
        rfl
      refine .inr ⟨lastPageNum_max (hlast.symm.trans hmax) hkept, ?_⟩
      have hone := ha.granted hc.granted
      rwa [hwrap] at hone ⊢
    · refine .inl ?_
      unfold Gains at hfiles
      rw [hlast] at hmax hfiles ⊢
      exact (lastPageNum_next hmax hfiles).symm
  · exact .inr ⟨lastPageNum_max hlast hkept, ha.kept_of_le (by decide) hmin⟩

theorem Placed.load (hp : Placed c s) (hcur : s.env.journal.curPage.isSome) :
    Post (loadNextPage c) s (fun _ => Placed c) fun _ _ => True := by
  obtain ⟨p, hcur⟩ := Option.isSome_iff_exists.mp hcur
  refine (loadNextPage_spec hp.isWriting hcur).mono (fun _ t ht => ?_) fun _ _ _ => trivial
  rcases ht with rfl | ⟨hcame, -⟩ | ⟨hrefused, -⟩
  · exact hp
  · exact .of_came hp.mine hcame (hp.came_last hcur hcame)
  · exact .of_refused hp.mine hrefused

/-- A writer is on a page that it is counted for. -/
theorem placed_lasting (c : Setting) (fs : Files) : Lasting c fs (Placed c) fun _ => True where
  kept :=
    { thrown := fun _ _ => trivial
      onPage := fun _ _ hp ho => hp.onPage ho
      seek := fun _ hp => hp.seek
      load := fun _ hp hcur => (hp.load hcur).mono (fun _ _ ht => .inl ht) fun _ _ h => h }
  fresh s hs := by
    refine ⟨hs.mine, by rw [hs.journal]; rfl, fun p hp => ?_⟩
    rw [hs.journal] at hp
    cases hp
  mine _ hp := hp.mine
  others s e hp hm hu :=
    ⟨hm, hp.isWriting, fun p hcur => (hp.page p hcur).congr (t := { s with engine := e }) hu.comm hu.writers
      fun _ => .rfl⟩
  finished _ _ _ := trivial

/-! ### Idempotence -/

/-- Every record written from here on lies behind the position `p`. -/
def RecordsFollow (c : Setting) (p : Page) (s : Session) : Prop :=
  ∀ (records : List (List UInt8 × Int16 × UInt8)) (t : Session),
    Runs (records.forM fun r => do let _ ← writeFrame c r.1 r.2.1 r.2.2) s ⟨⟩ t →
      ∀ n a store, .frame n a store ∈ t.env.trace.drop s.env.trace.length →
        p.pageNum < n ∨ n = p.pageNum ∧ p.frame ≤ a

/-- `seekEnd` succeeds and leaves the writer where it is. -/
structure SeeksInPlace (c : Setting) (p : Page) (s t : Session) : Prop where
  succeeds : Runs (seekEnd c) s ⟨⟩ t
  samePage : t.env.journal.curPage.map Page.pageNum = some p.pageNum
  samePosition : t.env.journal.curPage.map Page.position = some p.position
  countedOnce : t.engine.fileWriterCounts.lookup (c.key p.pageNum) = some 1
  follow : RecordsFollow c p t

/-- `seekEnd` is idempotent here. -/
def SeekEndIdempotent (c : Setting) (s : Session) : Prop :=
  ∃ p t, s.env.journal.curPage = some p ∧ SeeksInPlace c p s t

/-- Page numbers have wrapped. -/
structure Wrapped (c : Setting) (s : Session) : Prop where
  mine : Mine c s.engine s.idx
  isWriting : s.env.journal.isWriting = true
  last : Journal.lastPageNum s.env.files = Int16.maxValue
  counted : writers c s.engine Int16.minValue = 1

/-- The writer can only stay on the page with the largest number, or lose it. -/
structure Stuck (c : Setting) (s : Session) : Prop extends Wrapped c s where
  page : ∀ p, s.env.journal.curPage = some p → p.pageNum = Int16.maxValue

theorem Wrapped.of_files (hw : Wrapped c s) (he : t.engine = after c s.engine s.idx n) (hi : t.idx = s.idx)
    (hwriting : t.env.journal.isWriting = true)
    (hlast : Journal.lastPageNum t.env.files = Journal.lastPageNum s.env.files) : Wrapped c t := by
  have ha := hw.mine.request n
  refine ⟨?_, hwriting, hlast.trans hw.last, ?_⟩
  · rw [he, hi]
    exact ha.mine
  · rw [he]
    exact ha.kept_of_le (by decide) hw.counted

theorem Wrapped.of_refused (hw : Wrapped c s) (hr : Refused c n s t) : Stuck c t := by
  refine ⟨hw.of_files hr.engine hr.idx hr.lost.isWriting (lastPageNum_congr hr.lost.files), fun p hp => ?_⟩
  rw [hr.lost.page] at hp
  cases hp

theorem Wrapped.seek (hw : Wrapped c s) : Post (seekTime c timeToLast) s (fun _ => Stuck c) fun _ _ => True := by
  refine (seekTime_spec hw.isWriting).mono (fun _ t ht => ?_) fun _ _ _ => trivial
  obtain ⟨-, hcame | ⟨hrefused, -⟩⟩ := ht
  · refine ⟨hw.of_files hcame.engine hcame.idx hcame.arrived.isWriting (lastPageNum_gains hcame.arrived.files), ?_⟩
    intro p hp
    have hpage := hcame.arrived.page
    rw [hp] at hpage
    exact (Option.some.inj hpage).trans hw.last
  · exact hw.of_refused hrefused

/-- The page behind the largest number is not granted. -/
theorem Stuck.load (hs : Stuck c s) (hcur : s.env.journal.curPage.isSome) :
    Post (loadNextPage c) s (fun _ => Stuck c) fun _ _ => True := by
  obtain ⟨p, hcur⟩ := Option.isSome_iff_exists.mp hcur
  have hnext : p.pageNum + 1 = Int16.minValue := by
    rw [hs.page p hcur]
    rfl
  refine (loadNextPage_spec hs.isWriting hcur).mono (fun _ t ht => ?_) fun _ _ _ => trivial
  rcases ht with rfl | ⟨hcame, -⟩ | ⟨hrefused, -⟩
  · exact hs
  · have hgranted := hcame.granted
    rw [hnext] at hgranted
    exact absurd hgranted ((hs.mine.request _).refused hs.counted)
  · exact hs.of_refused hrefused

theorem stuck_kept : Kept c (Stuck c) fun _ => True where
  thrown _ _ := trivial
  onPage s env hs ho := by
    refine ⟨⟨hs.mine, ho.isWriting.trans hs.isWriting, (lastPageNum_congr ho.files).trans hs.last, hs.counted⟩, ?_⟩
    intro q hq
    have hpage := ho.page
    rw [hq] at hpage
    obtain ⟨p, hcur, hno⟩ := Option.map_eq_some_iff.mp hpage.symm
    exact hno.symm.trans (hs.page p hcur)
  seek _ hs := hs.seek
  load _ hs hcur := (hs.load hcur).mono (fun _ _ ht => .inl ht) fun _ _ h => h

/-- A writer that is refused its own page has none afterwards. -/
theorem Placed.seekEnd_last {p : Page} (hp : Placed c s) (hcur : s.env.journal.curPage = some p)
    (hlast : p.pageNum = Journal.lastPageNum s.env.files) :
    Post (seekEnd c) s (fun _ t => t.env.journal.curPage = none) fun _ _ => True := by
  unfold seekEnd
  refine .bind ((seekTime_spec hp.isWriting).mono (fun _ t ht => ?_) fun _ _ _ => trivial)
  obtain ⟨-, hcame | ⟨hrefused, hexp⟩⟩ := ht
  · have hgranted := hcame.granted
    rw [← hlast] at hgranted
    exact absurd hgranted ((hp.mine.request _).refused (hp.page p hcur).counted)
  · refine .bind ?_
    unfold journalLocateFrame
    refine .bind ((Runs.get t).post ?_)
    rw [if_pos hexp]
    exact (Runs.pure _ t).post ((Runs.pure _ t).post hrefused.lost.page)

/-- **No live writer can seek the end in place.** -/
theorem Placed.not_idempotent (hp : Placed c s) : ¬ SeekEndIdempotent c s := by
  rintro ⟨p, t, hcur, hseek⟩
  have hpage := hseek.samePage
  by_cases hlast : p.pageNum = Journal.lastPageNum s.env.files
  · rw [(hp.seekEnd_last hcur hlast).of_runs hseek.succeeds] at hpage
    cases hpage
  · obtain ⟨hmax, hcounted⟩ := (hp.page p hcur).last.resolve_left hlast
    have hw : Wrapped c s := ⟨hp.mine, hp.isWriting, hmax, hcounted⟩
    have hstuck : Post (seekEnd c) s (fun _ => Stuck c) fun _ _ => True := by
      unfold seekEnd
      refine .bind (hw.seek.mono (fun _ u hu => .bind ?_) fun _ _ h => h)
      exact (stuck_kept.journalLocateFrame hu).mono (fun _ v hv => (Runs.pure _ v).post hv) fun _ _ h => h
    obtain ⟨q, hq, hno⟩ := Option.map_eq_some_iff.mp hpage
    have hqmax := (hstuck.of_runs hseek.succeeds).page q hq
    exact hlast (hno.symm.trans (hqmax.trans hmax.symm))

/-- **`seekEnd` is never idempotent**: the only writer of a journal is on a page that it is counted for, and
the server does not release the page of a slot that asks for it again. -/
theorem never_idempotent (c : Setting) (setup : Setup) (fs : Files) (as : List Action) :
    (served c setup fs).Always (fun s => ∀ clientName, s.phase = .live clientName →
      ¬ SeekEndIdempotent c s.session) (start setup fs) as := by
  refine (placed_lasting c fs).always setup as fun s hs clientName hlive => ?_
  unfold InPhase at hs
  rw [hlive] at hs
  exact hs.1.not_idempotent

/-- A journal in the folder `d`; the buffers of the server are mapped one behind the other. -/
def Setting.plain : Setting where
  host := hostWith fun _ => 5
  dir := ['d']
  addr e := e.os.mapped.foldr max 0 + 1
  fresh _ hmem := Nat.not_succ_le_self _ (List.le_max_of_le' 0 hmem (Nat.le_refl _))

/-- A writer of an empty journal has been created: its next `seekEnd` throws. -/
theorem second_seekEnd_throws : ¬ (served .plain .bare ∅).Always
    (fun s => ∀ clientName, s.phase = .live clientName → SeekEndIdempotent .plain s.session) (start .bare ∅)
    [.others (.event (.regClient ['a'] 1 true 0)), .others (.event (.regJournal ['a'])),
      .others (.event (.hold ['a'] 0 ['d'] "test".toList)), .create ['a'] 0] := by
  refine System.not_always_of_test (fun s => decide (s.phase = .live ['a']) &&
    !((seekEnd .plain).exec s.session).1.isOk) (by decide +kernel) fun s hs hidem => ?_
  obtain ⟨hlive, hthrow⟩ := Bool.and_eq_true_iff.mp hs
  obtain ⟨p, t, -, hseek⟩ := hidem ['a'] (of_decide_eq_true hlive)
  have hexec : (seekEnd .plain).exec s.session = (.ok ⟨⟩, t) := hseek.succeeds
  rw [hexec] at hthrow
  cases hthrow

end Yijinjing.Served
