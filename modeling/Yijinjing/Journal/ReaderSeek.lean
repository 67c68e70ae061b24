import Mathlib.Data.List.TakeWhile
import Yijinjing.Journal.Reading

/-!
# Where a seek of a reader goes

`TIME_FROM_FIRST` goes to the start of the first page, `TIME_TO_LAST` to the end of the last one.  Any
other time goes to the last page that was opened before it, or to the first page, and there behind the
frames that are older than the time.
-/

namespace Yijinjing

open Lib Prog

/-- `passToTime` from the start of a page goes behind the frames that are older. -/
theorem Page.passToTime_page {b : Mem} {p : PageLog} {st : UInt8} {m : ℕ} {n : Int16}
    (hp : PageRep b p st) (hroomy : Roomy pageInitPosition p.records)
    (hst : st ≠ journalFrameStatusWritten) (time : Int64) :
    (Page.after m n []).passToTime b time =
      some (Page.after m n (p.records.takeWhile fun r => decide (r.nano < time))) := by
  let old : Record → Bool := fun r => decide (r.nano < time)
  have hsplit : p.records = p.records.takeWhile old ++ p.records.dropWhile old :=
    List.takeWhile_append_dropWhile.symm
  refine Page.passToTime_after (t := p.records.dropWhile old) ?_ ?_ ?_ ?_ ?_
  · rw [← hsplit]
    exact hp.chain
  · rw [← hsplit]
    exact hroomy
  · rw [← hsplit]
    have hend : Frame.getStatus b (pageInitPosition + framesSize p.records) = st := hp.status
    rw [hend]
    exact hst
  · intro r hmem
    simpa [old] using List.mem_takeWhile_imp hmem
  · intro r hmem
    have hhead := List.head?_dropWhile_not old p.records
    rw [Option.mem_def.mp hmem] at hhead
    simpa [old] using hhead

namespace Journal

variable {h : Host} {s : Env} {v : View} {fs : Files} {ps : List PageLog} {time : Int64} {i : ℕ}

theorem releaseCur_reader (hw : s.journal.isWriting = false) :
    s.releaseCur.journal.isWriting = false := by
  rw [s.releaseCur_eq.2.2.1, hw]

/-- A seek that has got a page and set the cursor to a place on it. -/
theorem readerAt_positioned {t : Env} {m j : ℕ} (hj : t.journal = s.releaseCur.journal)
    (hw : s.journal.isWriting = false) (hpl : v.Place i j) :
    ReaderAt (t.positioned (v.cursor m i j)) v i j := by
  refine ⟨hpl, ?_, rfl, m, rfl⟩
  show t.journal.isWriting = false
  rw [hj, releaseCur_reader hw]

theorem seekTime_fromFirst_spec (hg : h.Grants) (hr : Rep s.files v) (hne : v.pages ≠ [])
    (hw : s.journal.isWriting = false) :
    ∃ t, Runs (seekTime h timeFromFirst) s true t ∧ t.files = s.files ∧ ReaderAt t v 0 0 := by
  obtain ⟨hfiles, -, -, -⟩ := s.releaseCur_eq
  have hpos : 0 < v.pages.length := List.length_pos_iff.mpr hne
  obtain ⟨t, buffer, hget, hfiles', -, hjournal⟩ :=
    getPage_reader (s := s.releaseCur) hg (hfiles ▸ hr) hpos
  have hseek := seekTime_runs (seekPage_fromFirst_runs (h := h) (s := s.releaseCur)
    (by rw [releaseCur_reader hw, hfiles, hr.firstPageNum_eq]; exact hget))
  refine ⟨_, hseek, hfiles'.trans hfiles, readerAt_positioned (v := v) (j := 0) hjournal hw ?_⟩
  exact ⟨by rwa [length_recordRows], Nat.zero_le _⟩

theorem seekTime_toLast_spec (hg : h.Grants) (hr : Settled s.files ps) (hne : ps ≠ [])
    (hw : s.journal.isWriting = false) :
    ∃ t i j, Runs (seekTime h timeToLast) s true t ∧ t.files = s.files ∧
      ReaderAt t ⟨ps, false⟩ i j ∧ (View.mk ps false).ahead i j = [] := by
  obtain ⟨hfiles, -, -, -⟩ := s.releaseCur_eq
  obtain ⟨qs, p, rfl⟩ := List.eq_nil_or_concat ps |>.resolve_left hne
  rw [List.concat_eq_append] at hr ⊢
  have hlt : qs.length < (View.mk (qs ++ [p]) false).pages.length := by simp
  have hrow : (View.mk (qs ++ [p]) false).row qs.length = p.records := by
    rw [View.row_eq hlt]
    simp
  obtain ⟨t, buffer, hget, hfiles', -, hjournal⟩ :=
    getPage_reader (s := s.releaseCur) hg (hfiles ▸ hr) hlt
  obtain ⟨b, hb, hp⟩ := hr.last
  have hbuf : t.files.buffer (pageNo qs.length) = b := by
    rw [hfiles', hfiles]
    exact Files.buffer_of_lookup hb
  have hcur : (View.mk (qs ++ [p]) false).cursor buffer qs.length p.records.length =
      Page.after buffer (pageNo qs.length) p.records := by
    unfold View.cursor
    rw [hrow, List.take_length]
  have hscan := passWrittenFrame_end hp (hr.ok.roomy p (by simp)) (by decide) (m := buffer)
    (n := pageNo qs.length) (q := []) rfl
  have hseek := seekTime_runs (seekPage_toLast_runs (h := h) (s := s.releaseCur)
    (by rw [releaseCur_reader hw, hfiles, hr.lastPageNum_eq]; exact hget) (by rw [← hscan, ← hbuf]; rfl))
  rw [← hcur] at hseek
  have hlen : p.records.length = ((View.mk (qs ++ [p]) false).row qs.length).length :=
    congrArg List.length hrow.symm
  have hplace : (View.mk (qs ++ [p]) false).Place qs.length p.records.length :=
    ⟨by simp, Nat.le_of_eq hlen⟩
  have hat := readerAt_positioned (m := buffer) hjournal hw hplace
  exact ⟨_, qs.length, p.records.length, hseek, hfiles'.trans hfiles, hat, left_end (by simp) hlen⟩

/-! ### Seeking by time -/

/-- The page with index `i` is the one that `GetPageNumWithTime` chooses. -/
structure ChosenPage (ps : List PageLog) (time : Int64) (i : ℕ) : Prop where
  lt : i < ps.length
  before : i = 0 ∨ ps[i].startNano < time
  after : ∀ k (hk : k < ps.length), i < k → ¬ ps[k].startNano < time

theorem startNano_buffer (hr : Settled fs ps) {k : ℕ} (hk : k < ps.length) :
    PageHeader.startNano (fs.buffer (pageNo k)) = ps[k].startNano := by
  obtain ⟨b, hb, hp⟩ := hr.page k hk
  rw [Files.buffer_of_lookup hb]
  exact hp.startNano

/-- The backward loop of `GetPageNumWithTime`, from the page with index `n` down. -/
theorem pageNumWithTime_range (hr : Settled fs ps) (hne : ps ≠ []) {n : ℕ} (hn : n ≤ ps.length)
    (hlater : ∀ k (hk : k < ps.length), n ≤ k → ¬ ps[k].startNano < time) :
    ∃ i, pageNumWithTime fs time ((List.range n).map pageNo).reverse = pageNo i ∧
      ChosenPage ps time i := by
  induction n with
  | zero =>
    refine ⟨0, rfl, List.length_pos_iff.mpr hne, .inl rfl, fun k hk _ => hlater k hk (Nat.zero_le _)⟩
  | succ n ih =>
    rw [List.range_succ, List.map_append, List.reverse_append]
    simp only [List.map_cons, List.map_nil, List.reverse_cons, List.reverse_nil, List.nil_append,
      List.cons_append, pageNumWithTime]
    rw [startNano_buffer hr hn]
    split
    · rename_i hlt
      exact ⟨n, rfl, hn, .inr hlt, fun k hk hnk => hlater k hk hnk⟩
    · rename_i hge
      refine ih (by omega) fun k hk hnk => ?_
      rcases Nat.eq_or_lt_of_le hnk with rfl | hlt
      · exact hge
      · exact hlater k hk hlt

theorem getPageNumWithTime_spec (time : Int64) (hr : Settled fs ps) (hne : ps ≠ []) :
    ∃ i, getPageNumWithTime fs time = pageNo i ∧ ChosenPage ps time i := by
  unfold getPageNumWithTime
  rw [hr.getPageNums]
  exact pageNumWithTime_range hr hne (Nat.le_refl _) fun k hk hnk => absurd hk (by
    simp only [View.numFiles, Bool.toNat_false] at hnk
    omega)

/-- What a reader is given after a seek that has chosen the page with index `i`. -/
def since (ps : List PageLog) (time : Int64) (i : ℕ) : List Record :=
  ((recordRows ps).getD i []).dropWhile (fun r => decide (r.nano < time)) ++
    allRecords (ps.drop (i + 1))

theorem seekTime_toTime_spec (hg : h.Grants) (hr : Settled s.files ps) (hne : ps ≠ [])
    (hw : s.journal.isWriting = false) (hfirst : time ≠ timeFromFirst) (hlast : time ≠ timeToLast) :
    ∃ t i j, Runs (seekTime h time) s true t ∧ t.files = s.files ∧ ReaderAt t ⟨ps, false⟩ i j ∧
      ChosenPage ps time i ∧ (View.mk ps false).ahead i j = since ps time i := by
  obtain ⟨hfiles, -, -, -⟩ := s.releaseCur_eq
  obtain ⟨i, hchosen, hch⟩ := getPageNumWithTime_spec time hr hne
  have hlt := hch.lt
  let old : Record → Bool := fun r => decide (r.nano < time)
  have hrow : (View.mk ps false).row i = ps[i].records := View.row_eq (v := ⟨ps, false⟩) hch.lt
  obtain ⟨t, buffer, hget, hfiles', -, hjournal⟩ :=
    getPage_reader (s := s.releaseCur) (v := ⟨ps, false⟩) hg (hfiles ▸ hr) hch.lt
  obtain ⟨b, hb, hp⟩ := hr.page i hch.lt
  have hbuf : t.files.buffer (pageNo i) = b := by
    rw [hfiles', hfiles]
    exact Files.buffer_of_lookup hb
  -- the cursor behind the older frames
  have hsplit : ps[i].records = ps[i].records.takeWhile old ++ ps[i].records.dropWhile old :=
    List.takeWhile_append_dropWhile.symm
  have hscan := Page.passToTime_page (m := buffer) (n := pageNo i) hp
    (hr.ok.roomy _ (List.getElem_mem hch.lt)) (View.endStatus_ne_written _ i) time
  have hj : (ps[i].records.takeWhile old) = ps[i].records.take (ps[i].records.takeWhile old).length :=
    List.prefix_iff_eq_take.mp (List.takeWhile_prefix _)
  have hcur : (View.mk ps false).cursor buffer i (ps[i].records.takeWhile old).length =
      Page.after buffer (pageNo i) (ps[i].records.takeWhile old) := by
    unfold View.cursor
    rw [hrow, ← hj]
  have hseek := seekTime_runs (seekPage_toTime_runs (h := h) (s := s.releaseCur) hfirst hlast
    (by rw [releaseCur_reader hw, hfiles, hchosen]; exact hget) (by rw [← hscan, ← hbuf]; rfl))
  rw [← hcur] at hseek
  have hplace : (View.mk ps false).Place i (ps[i].records.takeWhile old).length := by
    refine ⟨by rw [length_recordRows]; exact hlt, ?_⟩
    have e : ((recordRows ps).getD i []).length = ps[i].records.length := congrArg List.length hrow
    rw [e]
    exact (List.takeWhile_prefix old).length_le
  have hat := readerAt_positioned (m := buffer) hjournal hw hplace
  have hahead : (View.mk ps false).ahead i (ps[i].records.takeWhile old).length = since ps time i := by
    have hrow' : (recordRows ps).getD i [] = ps[i].records := hrow
    have hdrop : ps[i].records.drop (ps[i].records.takeWhile old).length =
        ps[i].records.dropWhile old :=
      (congrArg (List.drop (ps[i].records.takeWhile old).length) hsplit).trans List.drop_left
    have htail : ((recordRows ps).drop (i + 1)).flatten = allRecords (ps.drop (i + 1)) := by
      simp only [allRecords, recordRows, List.map_drop]
    show ((recordRows ps).getD i []).drop _ ++ ((recordRows ps).drop (i + 1)).flatten = since ps time i
    unfold since
    rw [hrow', hdrop, htail]
  exact ⟨_, i, _, hseek, hfiles'.trans hfiles, hat, hch, hahead⟩

end Journal

/-! ### A reader that starts at the first page -/

namespace JournalReader

variable {h : Host} {s : Env} {v : View} {fs : Files} {fuel : ℕ}

/-- No page: the file is missing, or it has not been initialized. -/
theorem getPage_none (hg : h.Grants) (hr : Rep s.files v) (hnil : v.pages = []) :
    ∃ t, Runs (getPage h false (pageNo 0)) s none t := by
  obtain ⟨ps, o⟩ := v
  obtain rfl : ps = [] := hnil
  cases hb : s.files.lookup (pageNo 0) with
  | none => exact ⟨_, getPage_runs_missing hg hb⟩
  | some b =>
    exact ⟨_, getPage_runs (serve_runs_isSome hg false (by rw [hb]; rfl))
      (load_runs_reader_raw hb (hr.blank rfl b hb).raw)⟩

/-- An expired reader is given nothing. -/
theorem drain_expired (hexp : s.journal.expired = true) (hfuel : 0 < fuel) :
    Runs (drain h fuel) s [] s := by
  obtain ⟨n, rfl⟩ : ∃ n, fuel = n + 1 := ⟨fuel - 1, by omega⟩
  have hloc : Runs (Journal.locateFrame h) s none s := by
    unfold Journal.locateFrame
    refine (Runs.get s).bind ?_
    simp only [hexp]
    exact Runs.pure _ _
  unfold drain getNextFrame
  exact Runs.bind (a := none) (hloc.bind (Runs.pure _ _)) (Runs.pure _ _)

theorem getPageNumWithTime_nil (hr : Rep fs v) (hnil : v.pages = []) (time : Int64) :
    getPageNumWithTime fs time = pageNo 0 := by
  obtain ⟨ps, o⟩ := v
  obtain rfl : ps = [] := hnil
  unfold getPageNumWithTime
  rw [hr.getPageNums]
  cases o with
  | false => rfl
  | true =>
    -- the one file there is
    show pageNumWithTime fs time [pageNo 0] = pageNo 0
    unfold pageNumWithTime
    split <;> rfl

/-- A seek in a journal without pages leaves the reader expired. -/
theorem seekTime_nil (hg : h.Grants) (hr : Rep s.files v) (hnil : v.pages = [])
    (hw : s.journal.isWriting = false) (time : Int64) :
    ∃ t, Runs (Journal.seekTime h time) s false t ∧ t.journal.expired = true := by
  obtain ⟨hfiles, -, -, -⟩ := s.releaseCur_eq
  obtain ⟨t, hget⟩ := getPage_none (s := s.releaseCur) hg (hfiles ▸ hr) hnil
  have hsought : Journal.soughtPageNum s.files time = pageNo 0 := by
    have hlast : Journal.lastPageNum s.files = pageNo 0 := by
      obtain ⟨ps, o⟩ := v
      obtain rfl : ps = [] := hnil
      exact hr.lastPageNum_nil
    unfold Journal.soughtPageNum
    rw [hlast, hr.firstPageNum_eq, getPageNumWithTime_nil hr hnil]
    split
    · rfl
    · split <;> rfl
  exact ⟨_, seekTime_runs_none (by rw [hsought, hw]; exact hget), rfl⟩

/-- So nothing is read there. -/
theorem readFrom_nil (hg : h.Grants) (hr : Rep s.files v) (hnil : v.pages = [])
    (hw : s.journal.isWriting = false) (time : Int64) (hfuel : 0 < fuel) :
    ∃ t, Runs (readFrom h time fuel) s [] t := by
  obtain ⟨t, hseek, hexp⟩ := seekTime_nil hg hr hnil hw time
  refine ⟨t, ?_⟩
  unfold readFrom
  exact hseek.bind (drain_expired hexp hfuel)

/-- **A reader from the first page is given all records of the journal.** -/
theorem readFrom_first_spec (hg : h.Grants) (hr : Rep fs v) (hfuel : (allRecords v.pages).length < fuel) :
    ∃ t, Runs (readFrom h timeFromFirst fuel) (start fs) (allRecords v.pages) t := by
  have hr' : Rep (start fs).files v := hr
  by_cases hnil : v.pages = []
  · -- there is no journal yet
    rw [hnil]
    exact readFrom_nil hg hr' hnil rfl timeFromFirst (by omega)
  · obtain ⟨t, hseek, hfiles, hat⟩ := Journal.seekTime_fromFirst_spec hg hr' hnil rfl
    have hall : v.ahead 0 0 = allRecords v.pages :=
      left_zero (by rw [length_recordRows]; exact List.length_pos_iff.mpr hnil)
    obtain ⟨u, i, j, hdrain, -⟩ := drain_spec hg (hfiles ▸ hr') hat (by rw [hall]; exact hfuel)
    rw [hall] at hdrain
    refine ⟨u, ?_⟩
    unfold readFrom
    exact hseek.bind hdrain

/-- **A reader that seeks a time is given the frames since then**, as far as the pages tell. -/
theorem readFrom_time_spec {ps : List PageLog} (hg : h.Grants) (hr : Settled s.files ps) (hne : ps ≠ [])
    (hw : s.journal.isWriting = false) (time : Int64) (hfirst : time ≠ timeFromFirst)
    (hlast : time ≠ timeToLast) (hfuel : (allRecords ps).length < fuel) :
    ∃ i t, Journal.ChosenPage ps time i ∧ Runs (readFrom h time fuel) s (Journal.since ps time i) t := by
  obtain ⟨t, i, j, hseek, hfiles, hat, hch, hahead⟩ :=
    Journal.seekTime_toTime_spec hg hr hne hw hfirst hlast
  have hlen : ((View.mk ps false).ahead i j).length < fuel := by
    have hall := congrArg List.length (taken_append_left j hat.place.1)
    rw [List.length_append] at hall
    exact Nat.lt_of_le_of_lt (hall ▸ Nat.le_add_left _ _) hfuel
  obtain ⟨u, i', j', hdrain, -⟩ := drain_spec hg (hfiles ▸ hr) hat hlen
  rw [hahead] at hdrain
  refine ⟨i, u, hch, ?_⟩
  unfold readFrom
  exact hseek.bind hdrain

end JournalReader

end Yijinjing
