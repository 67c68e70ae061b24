import Yijinjing.Journal.SeekByTime

/-!
# When a seek by time delivers an older frame

`write_frame` reads the clock before it makes room, so the first frame of a page may be older than the
page.  A reader that seeks a time between the two chooses an earlier page and skips older frames there
only; the late frame is still ahead of it.  There is no other way to be given an older frame
(`seek_exact_iff`), and this one is taken as soon as the clock ticks in between (`late_frame_delivered`).
-/

namespace Yijinjing.Sessions

open Lib Prog

variable {h : Host} {s t : State} {a : Abs} {l : Ledger} {ps : List PageLog} {fs : Files} {time : Int64}
  {n : Int16} {m : ℕ}

/-- A page file other than the first, whose first frame is older than the time while the page is not. -/
structure LatePage (fs : Files) (time : Int64) (n : Int16) : Prop where
  exists_file : n ∈ getPageNums fs
  not_first : n ≠ 1
  written : Frame.getStatus (fs.buffer n) pageInitPosition = journalFrameStatusWritten
  frame_older : Frame.getNano (fs.buffer n) pageInitPosition < time
  page_not_older : time ≤ PageHeader.startNano (fs.buffer n)

/-- Whether a page is late can be read off its file. -/
theorem latePage_iff (hr : Settled fs ps) : LatePage fs time n ↔ ∃ m, n = pageNo m ∧ Late ps time m := by
  have hle := hr.numFiles_le
  have hnums := hr.getPageNums
  simp only [View.numFiles, Bool.toNat_false, Nat.add_zero] at hle hnums
  constructor
  · rintro ⟨hfile, hne, hwritten, hold, hstart⟩
    rw [hnums, List.mem_map] at hfile
    obtain ⟨m, hm, rfl⟩ := hfile
    rw [List.mem_range] at hm
    obtain ⟨b, hb, hp⟩ := hr.page m hm
    rw [Files.buffer_of_lookup hb] at hwritten hold hstart
    rw [hp.startNano] at hstart
    have hm0 : 0 < m := by
      rcases Nat.eq_zero_or_pos m with rfl | hpos
      · exact absurd rfl hne
      · exact hpos
    refine ⟨m, rfl, hm0, hm, hstart, ?_⟩
    cases hrec : ps[m].records with
    | nil =>
      -- nothing is written on an empty page
      have hst := hp.status
      have hend : ps[m].endPos = pageInitPosition := by
        unfold PageLog.endPos
        rw [hrec]
        rfl
      have hend' : (View.mk ps false).pages[m].endPos = pageInitPosition := hend
      rw [hend', hwritten] at hst
      unfold View.endStatus at hst
      split at hst <;> exact absurd hst (by decide)
    | cons r rs =>
      have hchain : Chain b pageInitPosition ps[m].records := hp.chain
      rw [hrec] at hchain
      rw [hchain.2.1.nano] at hold
      exact ⟨r, rfl, hold⟩
  · rintro ⟨m, rfl, hm0, hm, hstart, r, hhead, hold⟩
    obtain ⟨b, hb, hp⟩ := hr.page m hm
    have hchain : Chain b pageInitPosition ps[m].records := hp.chain
    cases hrec : ps[m].records with
    | nil => rw [hrec] at hhead; cases hhead
    | cons r' rs =>
      rw [hrec] at hchain hhead
      obtain rfl := Option.some.inj hhead
      refine ⟨?_, ?_, ?_, ?_, ?_⟩
      · rw [hnums]
        exact List.mem_map_of_mem (List.mem_range.mpr hm)
      · intro he
        have := (pageNo_inj (by omega) (by decide)).mp (he.trans pageNo_zero.symm)
        omega
      · rw [Files.buffer_of_lookup hb]
        exact hchain.1
      · rw [Files.buffer_of_lookup hb, hchain.2.1.nano]
        exact hold
      · rw [Files.buffer_of_lookup hb, hp.startNano]
        exact hstart

/-- A reader that seeks a time is given older frames if and only if there is a late page. -/
def SeekExactIff (h : Host) (s : State) : Prop :=
  ∀ r, s.IsReader r → ∀ time, time ≠ timeFromFirst → time ≠ timeToLast →
    ∀ fuel, s.written.length < fuel →
      ∃ rest t, Runs (JournalReader.readFrom h time fuel) r rest t ∧
        ((∀ ρ ∈ rest, time ≤ ρ.nano) ↔ ∀ n, ¬ LatePage s.env.files time n)

/-- **Seeking by time delivers no older frame if and only if there is no late page.** -/
theorem seek_exact_iff (h : Host) (hst : h.Steady) (as : List Action) :
    (sessions h.granting).Always (SeekExactIff h.granting) (sessions h.granting).init as := by
  have hg := h.grants_granting
  refine System.always_of_step (I := Dated h.granting) (fun s act t hs ht => hs.step hg hst ht) ?_ as
    Dated.init
  rintro s ⟨a, hs, -, ha⟩ r hr time hfirst hlast fuel hfuel
  obtain ⟨rest, e, hruns, -, -, hiff⟩ := hs.readFrom_time hg ha.timely hr hfirst hlast hfuel
  refine ⟨rest, e, hruns, hiff.trans ⟨fun hno n hn => ?_, fun hno m hm => ?_⟩⟩
  · obtain ⟨m, -, hm⟩ := (latePage_iff hs.rep).mp hn
    exact hno m hm
  · exact hno (pageNo m) ((latePage_iff hs.rep).mpr ⟨m, rfl, hm⟩)

/-- The clock ticks in the page change, so that the frame on the second page is late. -/
theorem seek_exact_iff_overfill :
    (∃ t, (sessions tickingHost.granting).run (sessions tickingHost.granting).init overfill = some t ∧
      t.written.length = 64 ∧ getPageNums t.env.files = [1, 2]) ∧
    (sessions tickingHost.granting).Always (SeekExactIff tickingHost.granting)
      (sessions tickingHost.granting).init overfill :=
  ⟨overfill_reached tickingHost.grants_granting, seek_exact_iff tickingHost tickingHost_steady overfill⟩

/-! ### A late frame -/

/-- Every frame that a reader is given after it sought a time is not older. -/
def SeekExact (h : Host) (s : State) : Prop :=
  ∀ r, s.IsReader r → ∀ time, time ≠ timeFromFirst → time ≠ timeToLast →
    ∀ fuel, s.written.length < fuel → ∀ rest t, Runs (JournalReader.readFrom h time fuel) r rest t →
      ∀ ρ ∈ rest, time ≤ ρ.nano

/-- **An older frame is delivered**: the clock ticks in the page change, and the time is in between. -/
theorem late_frame_delivered : tickingHost.Steady ∧ ¬ (sessions tickingHost.granting).Always
    (SeekExact tickingHost.granting) (sessions tickingHost.granting).init overfill := by
  refine ⟨tickingHost_steady, fun halways => ?_⟩
  have hg := tickingHost.grants_granting
  obtain ⟨t, hrun, hrt⟩ := run_overfill hg
  have hexact := halways.at_end hrun
  rw [Ledger.filling_full] at hrt
  let late : Record := ⟨Ledger.greatest, 1, 0, 0⟩
  let ps : List PageLog := [(Ledger.filling tickingHost.granting 63).cur, ⟨5, [late]⟩]
  have hrep : Settled (JournalReader.start t.env.files).files ps := hrt.rep
  obtain ⟨i, e, hch, hruns⟩ := JournalReader.readFrom_time_spec hg hrep (by simp [ps]) rfl 3
    (by decide) (by decide)
    (show (allRecords ps).length < t.written.length + 1 by rw [hrt.written]; exact Nat.lt_succ_self _)
  have hlate : late ∈ Journal.since ps 3 i := by
    rw [since_eq hch.lt]
    have hi : i = 0 := by
      rcases hch.before with hi | hbefore
      · exact hi
      · have hlt := hch.lt
        match i, hlt with
        | 0, _ => rfl
        | 1, _ => exact absurd hbefore (Int64.not_lt.mpr (by decide : (3 : Int64) ≤ 5))
    subst hi
    exact List.mem_append_right _ (by simp [ps])
  have hreader : t.IsReader (JournalReader.start t.env.files) := ⟨rfl, rfl⟩
  have hold := hexact _ hreader 3 (by decide) (by decide) _ (Nat.lt_succ_self _) _ _ hruns late hlate
  exact absurd hold (by decide)

end Yijinjing.Sessions
