import Mathlib.Data.List.MinMax
import Mathlib.Order.Bounds.Basic
import Yijinjing.Journal.Unread

/-!
# Looking a time up in a directory of pages

`GetPageNumWithTime` goes through the page numbers from the last one down to the first page that was
opened before the time, and gives 1 if there is none.  That is the page to start from as long as page 1
is there; when old pages have been removed, it is not (`isPageAt_iff`).
-/

namespace Yijinjing

open Lib Prog

variable {fs fs' : Files} {h : Host} {s t : Env} {time : Int64} {n k : Int16} {q : Page}

/-! ### The page of a time -/

/-- The page was opened before the time. -/
abbrev OpenedBefore (fs : Files) (time : Int64) (n : Int16) : Prop :=
  PageHeader.startNano (fs.buffer n) < time

/-- **The page to start from**: the last one opened before the time, or the first one of all. -/
def IsPageAt (fs : Files) (time : Int64) (n : Int16) : Prop :=
  IsGreatest {m | m ∈ fs ∧ OpenedBefore fs time m} n ∨
    (∀ m ∈ fs, ¬ OpenedBefore fs time m) ∧ IsLeast {m | m ∈ fs} n

theorem IsPageAt.mem (hn : IsPageAt fs time n) : n ∈ fs := by
  rcases hn with hn | ⟨-, hn⟩
  · exact hn.1.1
  · exact hn.1

/-! ### The loop -/

theorem mem_getPageNums : n ∈ getPageNums fs ↔ n ∈ fs ∧ 0 ≤ n := by
  unfold getPageNums
  rw [List.mem_mergeSort, List.mem_filter, ← AList.mem_keys, decide_eq_true_eq]

theorem getPageNums_pairwise (fs : Files) : (getPageNums fs).Pairwise (· ≤ ·) := mergeSort_pairwise _

/-- The loop stops at the first number of the list whose page was opened before the time. -/
theorem pageNumWithTime_of_exists {ns : List Int16} (hns : ns.Pairwise (· ≥ ·))
    (hex : ∃ n ∈ ns, OpenedBefore fs time n) :
    IsGreatest {m | m ∈ ns ∧ OpenedBefore fs time m} (pageNumWithTime fs time ns) := by
  induction ns with
  | nil =>
    obtain ⟨n, hn, -⟩ := hex
    cases hn
  | cons k ns ih =>
    obtain ⟨hk, hns'⟩ := List.pairwise_cons.mp hns
    rw [pageNumWithTime]
    by_cases hopen : OpenedBefore fs time k
    · rw [if_pos hopen]
      refine ⟨⟨List.mem_cons_self, hopen⟩, fun m hm => ?_⟩
      rcases List.mem_cons.mp hm.1 with rfl | hmem
      · exact Int16.le_refl _
      · exact hk m hmem
    · rw [if_neg hopen]
      have hskip : ∀ m, m ∈ k :: ns ∧ OpenedBefore fs time m ↔ m ∈ ns ∧ OpenedBefore fs time m := by
        intro m
        constructor
        · rintro ⟨hm, hm'⟩
          rcases List.mem_cons.mp hm with rfl | hmem
          · exact absurd hm' hopen
          · exact ⟨hmem, hm'⟩
        · rintro ⟨hm, hm'⟩
          exact ⟨List.mem_cons_of_mem _ hm, hm'⟩
      simp only [hskip]
      obtain ⟨n, hn⟩ := hex
      exact ih hns' ⟨n, (hskip n).mp hn⟩

theorem pageNumWithTime_of_forall {ns : List Int16} (hns : ∀ n ∈ ns, ¬ OpenedBefore fs time n) :
    pageNumWithTime fs time ns = 1 := by
  induction ns with
  | nil => rfl
  | cons k ns ih =>
    rw [pageNumWithTime, if_neg (hns k List.mem_cons_self)]
    exact ih fun n hn => hns n (List.mem_cons_of_mem k hn)

/-! ### The seek -/

theorem scanCurPage_throws {f : Mem → Page → Option Page} (hcur : s.journal.curPage = some q)
    (hscan : f (s.files.buffer q.pageNum) q = none) : Throws (scanCurPage f) s .noEnd s := by
  unfold scanCurPage
  refine (Runs.get s).bind_throws ?_
  rw [hcur]
  simp only [hscan]
  exact Throws.throw _ _

/-- A seek that is given a page keeps one, or does not end. -/
theorem seekPage_of_page
    (hget : Runs (getPage h s.journal.isWriting (Journal.soughtPageNum s.files time)) s (some q) t) :
    (∃ q', Runs (Journal.seekPage h time) s ⟨⟩ (t.setCurPage (some q'))) ∨
      Throws (Journal.seekPage h time) s .noEnd (t.setCurPage (some q)) := by
  have scan : ∀ f : Mem → Page → Option Page,
      (∃ q', Runs (scanCurPage f) (t.setCurPage (some q)) ⟨⟩ (t.setCurPage (some q'))) ∨
        Throws (scanCurPage f) (t.setCurPage (some q)) .noEnd (t.setCurPage (some q)) := fun f => by
    cases hscan : f (t.files.buffer q.pageNum) q with
    | none => exact .inr (scanCurPage_throws rfl hscan)
    | some q' => exact .inl ⟨q', scanCurPage_runs (s := t.setCurPage (some q)) rfl hscan⟩
  unfold Journal.soughtPageNum at hget
  unfold Journal.seekPage
  split at hget
  · rename_i hlast
    rcases scan fun b p => p.passWrittenFrame b with ⟨q', hruns⟩ | hthrows
    · refine .inl ⟨q', (Runs.get s).bind ?_⟩
      rw [if_pos hlast]
      exact hget.bind ((setCurPage_runs _ t).bind hruns)
    · refine .inr ((Runs.get s).bind_throws ?_)
      rw [if_pos hlast]
      exact hget.bind_throws ((setCurPage_runs _ t).bind_throws hthrows)
  · rename_i hlast
    split at hget
    · rename_i hfirst
      refine .inl ⟨q, (Runs.get s).bind ?_⟩
      rw [if_neg hlast, if_pos hfirst]
      exact hget.bind (setCurPage_runs _ t)
    · rename_i hfirst
      rcases scan fun b p => p.passToTime b time with ⟨q', hruns⟩ | hthrows
      · refine .inl ⟨q', (Runs.get s).bind ?_⟩
        rw [if_neg hlast, if_neg hfirst]
        exact hget.bind ((setCurPage_runs _ t).bind hruns)
      · refine .inr ((Runs.get s).bind_throws ?_)
        rw [if_neg hlast, if_neg hfirst]
        exact hget.bind_throws ((setCurPage_runs _ t).bind_throws hthrows)

/-- A seek on a page that can be given to a reader does not leave the journal expired. -/
theorem seekTime_of_readable (hg : h.Grants) (hw : s.journal.isWriting = false)
    (hr : Readable s.files (Journal.soughtPageNum s.files time)) {b : Bool}
    (hrun : Runs (Journal.seekTime h time) s b t) : b = true := by
  obtain ⟨hfiles, -, hjournal, -⟩ := s.releaseCur_eq
  rw [← hfiles] at hr
  obtain ⟨u, hget, -⟩ := getPage_readable hg hr
  rw [← hw, ← hjournal] at hget
  rcases seekPage_of_page hget with ⟨q', hseek⟩ | hthrows
  · exact (hrun.det (seekTime_runs hseek)).1
  · -- the seek does not return
    have hnever : Throws (Journal.seekTime h time) s .noEnd _ :=
      (releaseCurPage_runs s).bind_throws (hthrows.bind _)
    exact absurd (hrun.symm.trans hnever) (by simp)

/-! ### The last page -/

theorem le_lastPageNum (hk : k ∈ fs) (h0 : 0 ≤ k) : k ≤ Journal.lastPageNum fs := by
  have hmem := mem_getPageNums.mpr ⟨hk, h0⟩
  have hne := List.ne_nil_of_mem hmem
  unfold Journal.lastPageNum
  rw [List.getLast?_eq_some_getLast hne, Option.getD_some]
  exact (getPageNums_pairwise fs).rel_getLast_of_rel_getLast_getLast hmem (Int16.le_refl _)

theorem lastPageNum_mem (hk : k ∈ fs) (h0 : 0 ≤ k) :
    Journal.lastPageNum fs ∈ fs ∧ 0 ≤ Journal.lastPageNum fs := by
  have hne := List.ne_nil_of_mem (mem_getPageNums.mpr ⟨hk, h0⟩)
  unfold Journal.lastPageNum
  rw [List.getLast?_eq_some_getLast hne, Option.getD_some]
  exact mem_getPageNums.mp (List.getLast_mem hne)

theorem lastPageNum_eq (hn : n ∈ fs) (h0 : 0 ≤ n) (hmax : ∀ k ∈ fs, k ≤ n) : Journal.lastPageNum fs = n :=
  Int16.le_antisymm (hmax _ (lastPageNum_mem hn h0).1) (le_lastPageNum hn h0)

/-- Without a listed page it is 1. -/
theorem lastPageNum_nonneg (fs : Files) : 0 ≤ Journal.lastPageNum fs := by
  by_cases hne : getPageNums fs = []
  · unfold Journal.lastPageNum
    rw [hne]
    decide
  · unfold Journal.lastPageNum
    rw [List.getLast?_eq_some_getLast hne, Option.getD_some]
    exact (mem_getPageNums.mp (List.getLast_mem hne)).2

theorem lastPageNum_of_none (h : ∀ k ∈ fs, ¬ 0 ≤ k) : Journal.lastPageNum fs = 1 := by
  have hnone : getPageNums fs = [] := List.eq_nil_iff_forall_not_mem.mpr fun k hk =>
    h k (mem_getPageNums.mp hk).1 (mem_getPageNums.mp hk).2
  unfold Journal.lastPageNum
  rw [hnone]
  rfl

theorem lastPageNum_congr (h : ∀ k, k ∈ fs' ↔ k ∈ fs) : Journal.lastPageNum fs' = Journal.lastPageNum fs := by
  by_cases hex : ∃ k ∈ fs, 0 ≤ k
  · obtain ⟨k, hk, h0⟩ := hex
    obtain ⟨hmem, hnonneg⟩ := lastPageNum_mem hk h0
    refine lastPageNum_eq ((h _).mpr hmem) hnonneg fun k hk => ?_
    by_cases hk0 : 0 ≤ k
    · exact le_lastPageNum ((h k).mp hk) hk0
    · exact Int16.le_trans (Int16.le_of_lt (Int16.not_le.mp hk0)) hnonneg
  · have hnone : ∀ k ∈ fs, ¬ 0 ≤ k := fun k hk h0 => hex ⟨k, hk, h0⟩
    rw [lastPageNum_of_none hnone, lastPageNum_of_none fun k hk => hnone k ((h k).mp hk)]

/-! ### The lookup -/

theorem pos_nonneg {n : Int16} (hn : 1 ≤ n) : 0 ≤ n := Int16.le_trans (by decide) hn

theorem firstPageNum_mem (hne : ∃ n, n ∈ fs) (hpos : ∀ n ∈ fs, 1 ≤ n) : Journal.firstPageNum fs ∈ fs := by
  obtain ⟨n, hn⟩ := hne
  have hmem := mem_getPageNums.mpr ⟨hn, pos_nonneg (hpos n hn)⟩
  unfold Journal.firstPageNum
  cases hnums : getPageNums fs with
  | nil =>
    rw [hnums] at hmem
    cases hmem
  | cons k ns =>
    have hk : k ∈ getPageNums fs := hnums ▸ List.mem_cons_self
    exact (mem_getPageNums.mp hk).1

/-- What the lookup gives when a page was opened before the time. -/
theorem getPageNumWithTime_of_exists (hpos : ∀ n ∈ fs, 1 ≤ n) (hex : ∃ n ∈ fs, OpenedBefore fs time n) :
    IsGreatest {m | m ∈ fs ∧ OpenedBefore fs time m} (getPageNumWithTime fs time) := by
  have hmem : ∀ n, n ∈ (getPageNums fs).reverse ↔ n ∈ fs := fun n => by
    rw [List.mem_reverse, mem_getPageNums]
    exact ⟨And.left, fun hn => ⟨hn, pos_nonneg (hpos n hn)⟩⟩
  obtain ⟨n, hn, hopen⟩ := hex
  have hsorted := List.pairwise_reverse.mpr (getPageNums_pairwise fs)
  have hloop := pageNumWithTime_of_exists hsorted ⟨n, (hmem n).mpr hn, hopen⟩
  simp only [hmem] at hloop
  exact hloop

theorem getPageNumWithTime_of_forall (hnone : ∀ n ∈ fs, ¬ OpenedBefore fs time n) :
    getPageNumWithTime fs time = 1 :=
  pageNumWithTime_of_forall fun n hn => hnone n (mem_getPageNums.mp (List.mem_reverse.mp hn)).1

/-- The lookup is right when page 1 is there or some page was opened before the time: the loop of
`GetPageNumWithTime` falls back on page 1, not on the first page that is left. -/
theorem isPageAt_iff (hpos : ∀ n ∈ fs, 1 ≤ n) :
    IsPageAt fs time (getPageNumWithTime fs time) ↔ 1 ∈ fs ∨ ∃ n ∈ fs, OpenedBefore fs time n := by
  constructor
  · intro hpage
    by_cases hex : ∃ n ∈ fs, OpenedBefore fs time n
    · exact .inr hex
    · have hnone : ∀ n ∈ fs, ¬ OpenedBefore fs time n := fun n hn ho => hex ⟨n, hn, ho⟩
      exact .inl (getPageNumWithTime_of_forall hnone ▸ hpage.mem)
  · intro hcond
    by_cases hex : ∃ n ∈ fs, OpenedBefore fs time n
    · exact .inl (getPageNumWithTime_of_exists hpos hex)
    · have hnone : ∀ n ∈ fs, ¬ OpenedBefore fs time n := fun n hn ho => hex ⟨n, hn, ho⟩
      rw [getPageNumWithTime_of_forall hnone]
      exact .inr ⟨hnone, hcond.resolve_right hex, hpos⟩

/-- The page that is sought is there. -/
theorem soughtPageNum_mem (hpos : ∀ n ∈ fs, 1 ≤ n) (hpage : IsPageAt fs time (getPageNumWithTime fs time)) :
    Journal.soughtPageNum fs time ∈ fs := by
  have hmem := hpage.mem
  unfold Journal.soughtPageNum
  split
  · exact (lastPageNum_mem hmem (pos_nonneg (hpos _ hmem))).1
  · split
    · exact firstPageNum_mem ⟨_, hmem⟩ hpos
    · exact hmem

end Yijinjing
