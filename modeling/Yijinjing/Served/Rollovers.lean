import Yijinjing.Journal.Directory
import Yijinjing.Served.SeekEnd

/-!
# The rollovers of a writer

A writer that starts on an empty journal goes from page to page.  The page number is a short: the first
32766 rollovers are sound, and the next one goes from 32767 to -32768 (`rolling_lasting`).
-/

namespace Yijinjing.Served

open Lib Prog PageEngine

variable {c : Setting} {s t : Session} {fs : Files} {n : Int16} {p : Page} {dir : List CStr} {jname : CStr}

/-! ### Sound rollovers -/

/-- What a rollover should be. -/
structure Turn.Sound (c : Setting) (u : Turn) : Prop where
  next : u.newPageNum.toInt = u.pageNum.toInt + 1
  matched : ∃ pattern, Pattern.parse (getPageFileNamePattern c.host.jname) = some pattern ∧
    genPageFileName c.host.jname u.newPageNum ∈ Pattern.lang pattern
  /-- `GetPageNums` lists the new page as the largest one -/
  listed : ∀ dir, PageDir c.host.jname u.files dir →
    ∃ ns, listPageNums dir c.host.jname = some ns ∧ ns.getLast? = some u.newPageNum
  released : u.engine.fileWriterCounts.lookup (c.key u.pageNum) = none

/-- A rollover from the last page is sound, as long as there is a number behind it. -/
theorem Placed.sound (hp : Placed c s) (hname : IsLiteralName c.host.jname)
    (hcur : s.env.journal.curPage = some p) (hc : Came c (p.pageNum + 1) s t)
    (hlast : p.pageNum = Journal.lastPageNum s.env.files) (hpos : 0 < p.pageNum)
    (hmax : p.pageNum ≠ Int16.maxValue) :
    (⟨p.pageNum, p.pageNum + 1, t.engine, t.env.files⟩ : Turn).Sound c := by
  have ha := hp.mine.request (p.pageNum + 1)
  have hon := hp.page p hcur
  have hnext := toInt_add_one hmax
  have hlt : p.pageNum < p.pageNum + 1 := by
    rw [Int16.lt_iff_toInt_lt, hnext]
    omega
  have h0 : 0 ≤ p.pageNum + 1 := Int16.le_of_lt (Int16.lt_trans hpos hlt)
  refine ⟨hnext, ⟨_, parse_namePattern hname, ?_⟩, fun dir hd => ?_, ?_⟩
  · exact genPageFileName_matches.mpr ⟨h0, Pattern.Covers.refl _⟩
  · refine hd.getLast? hname ((hc.arrived.files _).mpr (.inr rfl)) h0 fun k hk => ?_
    rcases (hc.arrived.files k).mp hk with hk | rfl
    · by_cases hk0 : 0 ≤ k
      · exact Int16.le_trans (hlast ▸ le_lastPageNum hk hk0) (Int16.le_of_lt hlt)
      · exact Int16.le_trans (Int16.le_of_lt (Int16.not_le.mp hk0)) h0
    · exact Int16.le_refl _
  · have hreleased := ha.released
    rw [hon.asked] at hreleased
    have hzero := hreleased hpos (Int16.ne_of_lt hlt) hon.counted
    dsimp only
    rw [hc.engine]
    exact (lookup_none_iff (w := true) ha.mine.counted.positive).mpr hzero

/-! ### The number of a page -/

/-- The rollovers so far are sound exactly if there are no more of them than page numbers. -/
def SoundTurns (c : Setting) (s : Session) : Prop := (∀ u ∈ s.turns, u.Sound c) ↔ s.turns.length ≤ 32766

/-- The writer is on the last page, whose number is the number of rollovers, until it runs out of numbers. -/
structure Rolling (c : Setting) (s : Session) : Prop extends Placed c s where
  turns : SoundTurns c s
  number : s.turns.length ≤ 32766 → (Journal.lastPageNum s.env.files).toInt = s.turns.length + 1
  onLast : s.turns.length ≤ 32766 → ∀ p, s.env.journal.curPage = some p →
    p.pageNum = Journal.lastPageNum s.env.files

theorem SoundTurns.congr (h : SoundTurns c s) (ht : t.turns = s.turns) : SoundTurns c t := by
  unfold SoundTurns
  rw [ht]
  exact h

/-- The page is the last one still, and there is no other rollover. -/
theorem Rolling.of_placed (hr : Rolling c s) (hp : Placed c t) (ht : t.turns = s.turns)
    (hlast : Journal.lastPageNum t.env.files = Journal.lastPageNum s.env.files)
    (hpage : ∀ p, t.env.journal.curPage = some p → p.pageNum = Journal.lastPageNum s.env.files ∨
      s.env.journal.curPage.map Page.pageNum = some p.pageNum) : Rolling c t := by
  refine ⟨hp, hr.turns.congr ht, ?_, ?_⟩
  · rw [ht, hlast]
    exact hr.number
  · rw [ht, hlast]
    intro hle p hcur
    rcases hpage p hcur with h | h
    · exact h
    · obtain ⟨q, hq, hno⟩ := Option.map_eq_some_iff.mp h
      exact hno ▸ hr.onLast hle q hq

theorem Rolling.onPage {env : Env} (hr : Rolling c s) (ho : OnPage s.env env) : Rolling c { s with env := env } := by
  refine hr.of_placed (hr.toPlaced.onPage ho) rfl (lastPageNum_congr ho.files) fun p hcur => .inr ?_
  rw [← ho.page]
  exact congrArg _ hcur

theorem Rolling.of_refused (hr : Rolling c s) (h : Refused c n s t) (ht : t.turns = s.turns) : Rolling c t := by
  refine hr.of_placed (.of_refused hr.mine h) ht (lastPageNum_congr h.lost.files) fun p hcur => ?_
  rw [h.lost.page] at hcur
  cases hcur

theorem Rolling.seek (hr : Rolling c s) : Post (seekTime c timeToLast) s (fun _ => Rolling c)
    fun _ => SoundTurns c := by
  refine (seekTime_spec hr.isWriting).mono (fun _ t ht => ?_) fun _ _ ht => hr.turns.congr ht
  obtain ⟨ht, hcame | ⟨hrefused, -⟩⟩ := ht
  · have hlast := lastPageNum_gains hcame.arrived.files
    refine hr.of_placed (.of_came hr.mine hcame (.inl hlast.symm)) ht hlast fun p hcur => .inl ?_
    have hpage := hcame.arrived.page
    rw [hcur] at hpage
    exact Option.some.inj hpage
  · exact hr.of_refused hrefused ht

/-- **A rollover**: the next number, or the end of the numbers. -/
theorem Rolling.turn (hr : Rolling c s) (hname : IsLiteralName c.host.jname)
    (hcur : s.env.journal.curPage = some p) (hc : Came c (p.pageNum + 1) s t)
    (ht : t.turns = s.turns ++ [⟨p.pageNum, p.pageNum + 1, t.engine, t.env.files⟩]) : Rolling c t := by
  have hplaced := Placed.of_came hr.mine hc (hr.came_last hcur hc)
  have hlen : t.turns.length = s.turns.length + 1 := by rw [ht, List.length_append, List.length_singleton]
  have hall : (∀ u ∈ t.turns, u.Sound c) ↔ (∀ u ∈ s.turns, u.Sound c) ∧
      (⟨p.pageNum, p.pageNum + 1, t.engine, t.env.files⟩ : Turn).Sound c := by
    rw [ht]
    simp only [List.forall_mem_append, List.forall_mem_singleton]
  by_cases hle : s.turns.length ≤ 32766
  · have hlast := hr.onLast hle p hcur
    have hnum := hr.number hle
    rw [← hlast] at hnum
    have hmaxnum : Int16.maxValue.toInt = 32767 := rfl
    by_cases hmax : p.pageNum = Int16.maxValue
    · rw [hmax, hmaxnum] at hnum
      have hover : ¬ t.turns.length ≤ 32766 := by omega
      refine ⟨hplaced, iff_of_false (fun h => ?_) hover, fun h => absurd h hover, fun h => absurd h hover⟩
      have hnext := (hall.mp h).2.next
      dsimp only at hnext
      rw [hmax] at hnext
      exact absurd hnext (by decide)
    · have hnext := toInt_add_one hmax
      have hpos : 0 < p.pageNum := Int16.lt_iff_toInt_lt.mpr (by rw [hnum]; exact Int.natCast_succ_pos _)
      have hbelow : t.turns.length ≤ 32766 := by
        have hne : p.pageNum.toInt ≠ 32767 := fun h => hmax (Int16.toInt_inj.mp (h.trans hmaxnum.symm))
        omega
      have hfiles := hc.arrived.files
      have hlast' : Journal.lastPageNum t.env.files = p.pageNum + 1 := by
        unfold Gains at hfiles
        rw [hlast] at hmax hfiles ⊢
        exact lastPageNum_next hmax hfiles
      have hsound := hr.toPlaced.sound hname hcur hc hlast hpos hmax
      refine ⟨hplaced, iff_of_true (hall.mpr ⟨hr.turns.mpr hle, hsound⟩) hbelow, fun _ => ?_, fun _ q hq => ?_⟩
      · rw [hlast', hnext, hnum, hlen]
        push_cast
        rfl
      · have hpage := hc.arrived.page
        rw [hq] at hpage
        exact (Option.some.inj hpage).trans hlast'.symm
  · have hover : ¬ t.turns.length ≤ 32766 := by omega
    refine ⟨hplaced, iff_of_false (fun h => ?_) hover, fun h => absurd h hover, fun h => absurd h hover⟩
    exact hle (hr.turns.mp (hall.mp h).1)

theorem Rolling.load (hr : Rolling c s) (hname : IsLiteralName c.host.jname)
    (hcur : s.env.journal.curPage.isSome) :
    Post (loadNextPage c) s (fun _ => Rolling c) fun _ => SoundTurns c := by
  obtain ⟨p, hcur⟩ := Option.isSome_iff_exists.mp hcur
  refine (loadNextPage_spec hr.isWriting hcur).mono (fun _ t ht => ?_) fun _ _ ht => hr.turns.congr ht
  rcases ht with rfl | ⟨hcame, ht⟩ | ⟨hrefused, ht⟩
  · exact hr
  · exact hr.turn hname hcur hcame ht
  · exact hr.of_refused hrefused ht

end Yijinjing.Served
