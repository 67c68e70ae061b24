import Yijinjing.Journal.Seek

/-!
# A reader in a represented journal

A reader stands at a place `(i, j)`: on the page with index `i`, behind `j` records.  `ReaderAt` says
so of the program state.  `getNextFrame_spec` gives the next record ahead, `drain_spec` all of them,
and the `seekTime_spec` theorems say which place a seek goes to.
-/

namespace Yijinjing

open Lib Prog

variable {h : Host} {s t : Env} {v : View} {fs : Files} {b : Mem} {p : PageLog} {st : UInt8}
  {ps : List PageLog} {i j : ℕ}

/-! ### The frame at a place -/

/-- The records of the page with index `i`. -/
def View.row (v : View) (i : ℕ) : List Record := (recordRows v.pages).getD i []

/-- Address of the frame at the place. -/
def View.addr (v : View) (i j : ℕ) : ℕ := pageInitPosition + framesSize ((v.row i).take j)

/-- The place exists. -/
abbrev View.Place (v : View) (i j : ℕ) : Prop := InLog (recordRows v.pages) i j

/-- The records from the place on. -/
abbrev View.ahead (v : View) (i j : ℕ) : List Record := left (recordRows v.pages) i j

theorem View.row_eq (hi : i < v.pages.length) : v.row i = v.pages[i].records := recordRows_getD hi

theorem View.Place.lt (hpl : v.Place i j) : i < v.pages.length := by
  have := hpl.1
  rwa [length_recordRows] at this

/-- A frame before the end of the chain. -/
structure FrameAt (b : Mem) (a : ℕ) (r : Record) : Prop where
  written : Frame.getStatus b a = journalFrameStatusWritten
  filled : Frame.Filled b a r
  hasRoom : HasRoom a
  fits : r.Fits

theorem PageRep.frameAt (hp : PageRep b p st) (hroomy : Roomy pageInitPosition p.records)
    (hj : j < p.records.length) :
    FrameAt b (pageInitPosition + framesSize (p.records.take j)) p.records[j] := by
  have hsplit : p.records = p.records.take j ++ p.records[j] :: p.records.drop (j + 1) := by
    rw [← List.drop_eq_getElem_cons hj, List.take_append_drop]
  have hchain := hp.chain
  rw [hsplit, chain_append] at hchain
  rw [hsplit, roomy_append] at hroomy
  exact ⟨hchain.2.1, hchain.2.2.1, hroomy.2.1, hroomy.2.2.1⟩

theorem Rep.frameAt (hr : Rep fs v) (hi : i < v.pages.length) (hj : j < (v.row i).length) :
    FrameAt (fs.buffer (pageNo i)) (v.addr i j) (v.row i)[j] := by
  obtain ⟨b, hb, hp⟩ := hr.page i hi
  rw [Files.buffer_of_lookup hb]
  have e := View.row_eq hi
  have hfr := hp.frameAt (hr.ok.roomy _ (List.getElem_mem hi)) (j := j) (by rw [← e]; exact hj)
  unfold View.addr
  simpa only [e] using hfr

theorem Rep.status_end (hr : Rep fs v) (hi : i < v.pages.length) (hj : j = (v.row i).length) :
    Frame.getStatus (fs.buffer (pageNo i)) (v.addr i j) = v.endStatus i := by
  obtain ⟨b, hb, hp⟩ := hr.page i hi
  unfold View.addr
  rw [Files.buffer_of_lookup hb, hj, List.take_length, View.row_eq hi]
  exact hp.status

/-- What a user reads off a frame is its record. -/
theorem FrameAt.readFrame_eq {a : ℕ} {r : Record} (hf : FrameAt b a r) :
    JournalReader.readFrame b a = r := by
  unfold JournalReader.readFrame
  rw [hf.filled.getData hf.fits, hf.filled.nano, hf.filled.msgType, hf.filled.lastFlag]

/-- The cursor at the place. -/
def View.cursor (v : View) (buffer i j : ℕ) : Page := Page.after buffer (pageNo i) ((v.row i).take j)

theorem FrameAt.passFrame_cursor {m : ℕ} (hj : j < (v.row i).length)
    (hf : FrameAt b (v.addr i j) (v.row i)[j]) :
    (v.cursor m i j).passFrame b = v.cursor m i (j + 1) := by
  unfold View.cursor
  rw [Page.passFrame_after hf.filled hf.hasRoom hf.fits, List.take_succ_eq_append_getElem hj]

theorem FrameAt.getNextEntry {rs : List Record} (hj : j < rs.length)
    (hf : FrameAt b (pageInitPosition + framesSize (rs.take j)) rs[j]) :
    Frame.getNextEntry b (pageInitPosition + framesSize (rs.take j)) =
      pageInitPosition + framesSize (rs.take (j + 1)) := by
  rw [hf.filled.getNextEntry hf.hasRoom hf.fits, List.take_succ_eq_append_getElem hj, framesSize_append]
  simp only [framesSize_cons, framesSize_nil]
  omega

theorem getCurStatus_cursor {buffer : ℕ} :
    Page.getCurStatus b (v.cursor buffer i j) = Frame.getStatus b (v.addr i j) := rfl

/-! ### The reader -/

/-- The reader stands at a place of the journal. -/
structure ReaderAt (s : Env) (v : View) (i j : ℕ) : Prop where
  place : v.Place i j
  isWriting : s.journal.isWriting = false
  expired : s.journal.expired = false
  curPage : ∃ buffer, s.journal.curPage = some (v.cursor buffer i j)

/-- A place stays the same place when the journal grows. -/
theorem ReaderAt.grown {w : View} (hg : Grown (recordRows v.pages) (recordRows w.pages))
    (hat : ReaderAt s v i j) : ReaderAt s w i j := by
  obtain ⟨buffer, hcur⟩ := hat.curPage
  have htake : (w.row i).take j = (v.row i).take j := hg.take_eq hat.place
  refine ⟨hg.inLog hat.place, hat.isWriting, hat.expired, buffer, ?_⟩
  rw [hcur]
  unfold View.cursor
  rw [htake]

theorem ReaderAt.next {ρ : Option Record} {w : View} {e : Effect} (hn : Next ρ fs v e w)
    (hat : ReaderAt s v i j) : ReaderAt s w i j := hat.grown hn.grows.grown

theorem Publishes.grown {ρ : Option Record} {w : View} {es : List Effect} {fs fs' : Files}
    (hs : Publishes ρ fs v es fs' w) : Grown (recordRows v.pages) (recordRows w.pages) := by
  induction hs with
  | done => exact .refl
  | step _ hn _ ih => exact hn.grows.grown.trans ih

theorem readsEnd_iff (hr : Rep fs v) (hpl : v.Place i j) {m : ℕ} :
    Page.isAtPageEnd (fs.buffer (pageNo i)) (v.cursor m i j) = true ↔
      j = (v.row i).length ∧ i + 1 < v.pages.length := by
  have hi := hpl.lt
  have hle : j ≤ (v.row i).length := hpl.2
  unfold Page.isAtPageEnd
  rw [getCurStatus_cursor]
  rcases Nat.lt_or_ge j (v.row i).length with hlt | hge
  · rw [(hr.frameAt hi hlt).written]
    exact ⟨fun hh => absurd hh (by decide), fun hh => by omega⟩
  · rw [hr.status_end hi (by omega)]
    unfold View.endStatus
    split
    · rename_i hlt
      exact ⟨fun _ => ⟨by omega, hlt⟩, fun _ => rfl⟩
    · rename_i hlt
      exact ⟨fun hh => absurd hh (by decide), fun hh => absurd hh.2 hlt⟩

/-- `loadNextPage` of a reader at the end of a closed page. -/
theorem Journal.loadNextPage_reader (hg : h.Grants) (hr : Rep s.files v) (hat : ReaderAt s v i j)
    (hi : i + 1 < v.pages.length) :
    ∃ t, Runs (Journal.loadNextPage h) s ⟨⟩ t ∧ t.files = s.files ∧ ReaderAt t v (i + 1) 0 := by
  obtain ⟨buffer, hcur⟩ := hat.curPage
  obtain ⟨t, buffer', hget, hfiles, -, hjournal⟩ := getPage_reader (s := s) hg hr hi
  refine ⟨{ t with released := t.released ++ [buffer] }.setCurPage (some (v.cursor buffer' (i + 1) 0)),
    ?_, hfiles, ⟨?_, Nat.zero_le _⟩, ?_, ?_, buffer', rfl⟩
  · unfold Journal.loadNextPage
    refine (Runs.get s).bind ?_
    rw [hat.expired, hcur]
    simp only [hat.isWriting, Bool.false_eq_true, if_false]
    have hno : (v.cursor buffer i j).pageNum + 1 = pageNo (i + 1) := pageNo_succ i
    rw [hno]
    exact hget.bind ((releasePage_runs _ _).bind (setCurPage_runs _ _))
  · rwa [length_recordRows]
  · show t.journal.isWriting = false
    rw [hjournal, hat.isWriting]
  · show t.journal.expired = false
    rw [hjournal, hat.expired]

/-- The same place, or the start of the page behind the end of a closed one. -/
inductive View.Turned (v : View) (i j : ℕ) : ℕ → ℕ → Prop
  | same : Turned v i j i j
  | next : j = (v.row i).length → i + 1 < v.pages.length → Turned v i j (i + 1) 0

/-- Nothing is passed by turning a page. -/
theorem View.Turned.left_eq {α : Type} {rows : List (List α)} {i' j' : ℕ} (ht : v.Turned i j i' j')
    (hlen : rows.length = v.pages.length) (hrow : ∀ k, (rows.getD k []).length = (v.row k).length) :
    left rows i' j' = left rows i j := by
  cases ht with
  | same => rfl
  | next hj hi => exact (left_next_page (by rwa [hlen]) (by rwa [hrow])).symm

theorem View.Turned.ahead_eq {i' j' : ℕ} (ht : v.Turned i j i' j') : v.ahead i' j' = v.ahead i j :=
  ht.left_eq (length_recordRows _) fun _ => rfl

/-- A reader turns the page exactly at the end of a closed page. -/
theorem Journal.turnPage_spec (hg : h.Grants) (hr : Rep s.files v) (hat : ReaderAt s v i j) :
    ∃ t i' j', Runs (Journal.turnPage h) s ⟨⟩ t ∧ t.files = s.files ∧ ReaderAt t v i' j' ∧
      v.Turned i j i' j' ∧ (j' < (v.row i').length ∨ j' = (v.row i').length ∧ i' + 1 = v.pages.length) := by
  obtain ⟨buffer, hcur⟩ := hat.curPage
  have hi := hat.place.lt
  have hle : j ≤ (v.row i).length := hat.place.2
  by_cases hend : j = (v.row i).length ∧ i + 1 < v.pages.length
  · obtain ⟨t, hload, hfiles, hat'⟩ := Journal.loadNextPage_reader hg hr hat hend.2
    have hturned : v.Turned i j (i + 1) 0 := .next hend.1 hend.2
    refine ⟨t, i + 1, 0, ?_, hfiles, hat', hturned, ?_⟩
    · unfold Journal.turnPage
      refine (Runs.get s).bind ?_
      rw [hcur]
      have hb := (readsEnd_iff (m := buffer) hr hat.place).mpr hend
      have hno : (v.cursor buffer i j).pageNum = pageNo i := rfl
      simp only [hno, hb, if_true]
      exact hload
    · -- a page behind a closed one is closed too, and not empty, or it is the last one
      rcases Nat.lt_or_ge (i + 1 + 1) v.pages.length with hlt | hge
      · left
        rw [View.row_eq hend.2]
        exact List.length_pos_iff.mpr (hr.ok.records_ne_nil hlt)
      · rcases Nat.eq_zero_or_pos (v.row (i + 1)).length with h0 | hpos
        · exact .inr ⟨h0.symm, by omega⟩
        · exact .inl hpos
  · refine ⟨s, i, j, ?_, rfl, hat, .same, ?_⟩
    · unfold Journal.turnPage
      refine (Runs.get s).bind ?_
      rw [hcur]
      have hb := mt (readsEnd_iff (m := buffer) hr hat.place).mp hend
      have hno : (v.cursor buffer i j).pageNum = pageNo i := rfl
      simp only [hno, hb]
      exact Runs.pure _ _
    · rcases Nat.lt_or_ge j (v.row i).length with hlt | hge
      · exact .inl hlt
      · have hlast : ¬ i + 1 < v.pages.length := fun hlt => hend ⟨by omega, hlt⟩
        exact .inr ⟨by omega, by omega⟩

/-- `locateFrame` of a reader: the address of the frame at its place, if there is one. -/
theorem Journal.locateFrame_reader (hg : h.Grants) (hr : Rep s.files v) (hat : ReaderAt s v i j) :
    ∃ t i' j', Runs (Journal.locateFrame h) s
        (if j' < (v.row i').length then some (v.addr i' j') else none) t ∧
      t.files = s.files ∧ ReaderAt t v i' j' ∧ v.Turned i j i' j' ∧
      (j' < (v.row i').length ∨ j' = (v.row i').length ∧ i' + 1 = v.pages.length) := by
  obtain ⟨t, i', j', hturn, hfiles, hat', hturned, hor⟩ := Journal.turnPage_spec hg hr hat
  obtain ⟨buffer, hcur⟩ := hat'.curPage
  have hr' : Rep t.files v := hfiles ▸ hr
  have hi := hat'.place.lt
  have hle : j' ≤ (v.row i').length := hat'.place.2
  have hno : (v.cursor buffer i' j').pageNum = pageNo i' := rfl
  have hread : (v.cursor buffer i' j').locateReadableFrame (t.files.buffer (pageNo i')) =
      if j' < (v.row i').length then some (v.addr i' j') else none := by
    unfold Page.locateReadableFrame
    rw [getCurStatus_cursor]
    rcases Nat.lt_or_ge j' (v.row i').length with hlt | hge
    · rw [(hr'.frameAt hi hlt).written, if_pos hlt]
      rfl
    · rw [hr'.status_end hi (Nat.le_antisymm hle hge), if_neg (Nat.not_lt.mpr hge), if_neg]
      exact fun hw => v.endStatus_ne_written i' (beq_iff_eq.mp hw)
  refine ⟨t, i', j', ?_, hfiles, hat', hturned, hor⟩
  unfold Journal.locateFrame
  refine (Runs.get s).bind ?_
  simp only [hat.expired, hat.isWriting, Bool.false_eq_true, if_false]
  refine hturn.bind ((Runs.get t).bind ?_)
  rw [hcur, ← hread]
  exact Runs.pure _ _

/-- `passFrame` of a reader at a frame. -/
theorem Journal.passFrame_reader (hr : Rep s.files v) (hat : ReaderAt s v i j) (hj : j < (v.row i).length) :
    ∃ t, Runs Journal.passFrame s ⟨⟩ t ∧ t.files = s.files ∧ ReaderAt t v i (j + 1) := by
  obtain ⟨buffer, hcur⟩ := hat.curPage
  have hf := hr.frameAt hat.place.lt hj
  have hno : (v.cursor buffer i j).pageNum = pageNo i := rfl
  refine ⟨s.setCurPage (some (v.cursor buffer i (j + 1))), ?_, rfl,
    ⟨hat.place.1, hj⟩, hat.isWriting, hat.expired, buffer, rfl⟩
  unfold Journal.passFrame
  refine (Runs.get s).bind ?_
  rw [hcur]
  simp only [hno, hf.passFrame_cursor hj]
  exact setCurPage_runs _ _

namespace JournalReader

/-- **One call gives the next record ahead.** -/
theorem getNextFrame_spec (hg : h.Grants) (hr : Rep s.files v) (hat : ReaderAt s v i j) :
    ∃ t i' j', Runs (getNextFrame h) s (v.ahead i j).head? t ∧ t.files = s.files ∧
      ReaderAt t v i' j' ∧ v.ahead i' j' = (v.ahead i j).tail := by
  obtain ⟨t, i', j', hloc, hfiles, hat', hturned, hor⟩ := Journal.locateFrame_reader hg hr hat
  obtain ⟨buffer, hcur⟩ := hat'.curPage
  have hr' : Rep t.files v := hfiles ▸ hr
  have hno : (v.cursor buffer i' j').pageNum = pageNo i' := rfl
  by_cases hj : j' < (v.row i').length
  · have hcons : v.ahead i j = (v.row i')[j'] :: v.ahead i' (j' + 1) :=
      hturned.ahead_eq.symm.trans (left_cons hj)
    obtain ⟨u, hpass, hfiles', hat''⟩ := Journal.passFrame_reader hr' hat' hj
    rw [if_pos hj] at hloc
    refine ⟨u, i', j' + 1, ?_, hfiles'.trans hfiles, hat'', by rw [hcons, List.tail_cons]⟩
    unfold getNextFrame
    refine hloc.bind ((Runs.get t).bind ?_)
    rw [hcur, hcons]
    refine hpass.bind ?_
    rw [hno, (hr'.frameAt hat'.place.lt hj).readFrame_eq]
    exact Runs.pure _ _
  · obtain ⟨hend, hlast⟩ := hor.resolve_left hj
    have hnil : v.ahead i j = [] :=
      hturned.ahead_eq.symm.trans (left_end (by rwa [length_recordRows]) hend)
    rw [if_neg hj] at hloc
    refine ⟨t, i', j', ?_, hfiles, hat', by rw [hturned.ahead_eq, hnil, List.tail_nil]⟩
    unfold getNextFrame
    refine hloc.bind ?_
    rw [hnil]
    exact Runs.pure _ _

/-- **Calls until null give everything ahead.** -/
theorem drain_spec (hg : h.Grants) (hr : Rep s.files v) (hat : ReaderAt s v i j) {fuel : ℕ}
    (hfuel : (v.ahead i j).length < fuel) :
    ∃ t i' j', Runs (drain h fuel) s (v.ahead i j) t ∧ t.files = s.files ∧ ReaderAt t v i' j' ∧
      v.ahead i' j' = [] := by
  induction fuel generalizing s i j with
  | zero => omega
  | succ fuel ih =>
    obtain ⟨t, i', j', hnext, hfiles, hat', hahead⟩ := getNextFrame_spec hg hr hat
    cases hrest : v.ahead i j with
    | nil =>
      rw [hrest] at hnext hahead
      refine ⟨t, i', j', ?_, hfiles, hat', hahead⟩
      unfold drain
      exact hnext.bind (Runs.pure _ _)
    | cons r rs =>
      rw [hrest] at hnext hahead
      rw [hrest, List.length_cons] at hfuel
      rw [List.tail_cons] at hahead
      obtain ⟨u, i'', j'', hdrain, hfiles', hat'', hend⟩ :=
        ih (hfiles ▸ hr) hat' (by rw [hahead]; omega)
      rw [hahead] at hdrain
      refine ⟨u, i'', j'', ?_, hfiles'.trans hfiles, hat'', hend⟩
      unfold drain
      exact hnext.bind (hdrain.bind (Runs.pure _ _))

end JournalReader

end Yijinjing
