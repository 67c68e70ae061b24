import Yijinjing.Journal.Ledger

/-!
# The calls of `JournalWriter`

Every writer call is the ledger operation of the same name, and its effects publish what it appends:
`writeFrame_spec`, `create_spec`, and the three parts of the second write path, `locateFrame_spec`,
`copyData_spec` and `passFrame_spec`.  Between these parts the frame behind the last one is `Drafted`.
-/

namespace Yijinjing

open Lib Prog

namespace JournalWriter

variable {h : Host} {s t : Env} {l : Ledger} {ρ : Option Record}

theorem curPageNum_spec (hw : WriterAt s l) : Moves ρ curPageNum s l l.curNo s l := by
  obtain ⟨buffer, hcur⟩ := hw.curPage
  exact .silent hw (curPageNum_runs hcur)

theorem frameAddress_spec (hg : h.Grants) (hw : WriterAt s l) (hlt : l.pages.length < maxPages) :
    ∃ t, Moves ρ (frameAddress h) s l (l.makeRoom h).cur.endPos t (l.makeRoom h) := by
  obtain ⟨t, hloc⟩ := Journal.locateFrame_spec (ρ := ρ) hg hw hlt
  refine ⟨t, ?_⟩
  unfold frameAddress
  exact hloc.bind (.silent hloc.2 (Runs.pure _ _))

theorem frameAddress_hasRoom (hw : WriterAt s l) (hroom : HasRoom l.cur.endPos) :
    Moves ρ (frameAddress h) s l l.cur.endPos s l := by
  have hloc := Journal.locateFrame_hasRoom (h := h) (ρ := ρ) hw hroom
  unfold frameAddress
  exact hloc.bind (.silent hloc.2 (Runs.pure _ _))

/-! ### Stores into the frame behind the last one -/

/-- Stores into the fields of the frame leave the writer where it is. -/
theorem emit_fields_spec (ss : List FrameStore) (hw : WriterAt s l) (hss : ∀ f ∈ ss, f.IsField) :
    Moves ρ (emit (ss.map (.frame l.curNo l.cur.endPos))) s l ⟨⟩
      (s.emitAll (ss.map (.frame l.curNo l.cur.endPos))) l := by
  have hes := publishes_fields (ρ := ρ) hw.rep hss
  exact ⟨emit_calls hes, hes.rep_end, hw.tick, hw.isWriting, hw.expired, hw.curPage⟩

/-- The buffer after some stores into the frame behind the last one. -/
theorem lookup_fields {b : Mem} (ss : List FrameStore) (hb : s.files.lookup l.curNo = some b) :
    (execAll s.files (ss.map (.frame l.curNo l.cur.endPos))).lookup l.curNo =
      some (ss.foldl (FrameStore.exec l.cur.endPos) b) := by
  rw [lookup_execAll_frame, hb]
  rfl

/-- The last stores of both write paths: the fields that complete the frame, then its status. -/
theorem publishes_complete {b : Mem} {r : Record} {ss : List FrameStore} (hw : WriterAt s l)
    (hroom : HasRoom l.cur.endPos) (hb : s.files.lookup l.curNo = some b) (hss : ∀ f ∈ ss, f.IsField)
    (hfill : Frame.Filled (ss.foldl (FrameStore.exec l.cur.endPos) b) l.cur.endPos r) (hfit : r.Fits) :
    Publishes (some r) s.files ⟨l.pages, false⟩
      ((ss ++ Frame.setStatusWritten).map (.frame l.curNo l.cur.endPos))
      (execAll s.files ((ss ++ Frame.setStatusWritten).map (.frame l.curNo l.cur.endPos)))
      ⟨(l.append r).pages, false⟩ := by
  rw [List.map_append, execAll_append]
  have hfields := publishes_fields (ρ := some r) hw.rep hss
  exact hfields.append
    (publishes_setStatusWritten hfields.rep_end (lookup_fields ss hb) hfill hroom hfit)

/-- `Journal::passFrame` over the frame that has just become WRITTEN. -/
theorem passFrame_runs {r : Record} {buffer : ℕ} (hrep : Settled s.files (l.append r).pages)
    (hcur : s.journal.curPage = some (Page.after buffer l.curNo l.cur.records))
    (hroom : HasRoom l.cur.endPos) (hfit : r.Fits) :
    Runs Journal.passFrame s ⟨⟩
      (s.setCurPage (some (Page.after buffer l.curNo (l.cur.records ++ [r])))) := by
  obtain ⟨b, hb, hp⟩ := hrep.last
  have hfill : Frame.Filled b l.cur.endPos r := (chain_snoc.mp hp.chain).2.2
  have hpass := Page.passFrame_after (m := buffer) (n := l.curNo) hfill hroom hfit
  have hbuf : s.files.buffer (Page.after buffer l.curNo l.cur.records).pageNum = b :=
    Files.buffer_of_lookup hb
  unfold Journal.passFrame
  refine (Runs.get s).bind ?_
  rw [hcur]
  simp only [hbuf, hpass]
  exact setCurPage_runs _ _

/-- Completing a frame and passing it appends the record. -/
theorem complete_spec {b : Mem} {r : Record} {ss : List FrameStore} (hw : WriterAt s l)
    (hroom : HasRoom l.cur.endPos) (hb : s.files.lookup l.curNo = some b) (hss : ∀ f ∈ ss, f.IsField)
    (hfill : Frame.Filled (ss.foldl (FrameStore.exec l.cur.endPos) b) l.cur.endPos r) (hfit : r.Fits) :
    ∃ t u, Calls (some r) (emit ((ss ++ Frame.setStatusWritten).map (.frame l.curNo l.cur.endPos))) s
        ⟨l.pages, false⟩ ⟨⟩ t ⟨(l.append r).pages, false⟩ ∧
      Calls (some r) Journal.passFrame t ⟨(l.append r).pages, false⟩ ⟨⟩ u
        ⟨(l.append r).pages, false⟩ ∧ WriterAt u (l.append r) ∧
      u.trace = s.trace ++ (ss ++ Frame.setStatusWritten).map (.frame l.curNo l.cur.endPos) := by
  obtain ⟨buffer, hcur⟩ := hw.curPage
  have hes := publishes_complete hw hroom hb hss hfill hfit
  have hrep := hes.rep_end
  let t := s.emitAll ((ss ++ Frame.setStatusWritten).map (.frame l.curNo l.cur.endPos))
  have hpass := passFrame_runs (s := t) hrep hcur hroom hfit
  refine ⟨t, t.setCurPage (some (Page.after buffer l.curNo (l.cur.records ++ [r]))), emit_calls hes,
    .silent hpass rfl rfl hrep, ?_, rfl⟩
  exact ⟨hrep, hw.tick, hw.isWriting, hw.expired, buffer, rfl⟩

/-! ### `write_frame` -/

theorem writeFrame_spec (hg : h.Grants) (hw : WriterAt s l) (hlt : l.pages.length < maxPages)
    {data : List UInt8} (hfit : basicFrameHeaderLength + data.length ≤ pageMinHeadroom)
    (msgType : Int16) (lastFlag : UInt8) :
    ∃ t, Moves (some ⟨data, h.clock l.tick, msgType, lastFlag⟩) (writeFrame h data msgType lastFlag) s l
      (h.clock l.tick) t (l.write h data msgType lastFlag) := by
  let r : Record := ⟨data, h.clock l.tick, msgType, lastFlag⟩
  have hclock := getNanoTime_spec (h := h) (ρ := some r) hw
  obtain ⟨t, hframe⟩ := frameAddress_spec (ρ := some r) hg hclock.2 hlt
  obtain ⟨b, hb, -⟩ := hframe.2.last
  obtain ⟨u, v, hemit, hpass, hv, -⟩ := complete_spec (r := r) hframe.2
    (Ledger.hasRoom_makeRoom h l.readClock) hb isField_write
    (Frame.filled_write h.autoHash data (h.clock l.tick) msgType lastFlag) hfit
  refine ⟨v, ?_, hv⟩
  unfold writeFrame
  refine hclock.1.bind (hframe.1.bind ((curPageNum_spec hframe.2).1.bind (hemit.bind (hpass.bind ?_))))
  exact .silent (Runs.pure _ _) rfl rfl hpass.rep_end

/-- On a page with room the stores are those of the fields and of the status. -/
theorem writeFrame_hasRoom (hw : WriterAt s l) (hroom : HasRoom l.cur.endPos) {data : List UInt8}
    (hfit : basicFrameHeaderLength + data.length ≤ pageMinHeadroom) (msgType : Int16) (lastFlag : UInt8) :
    ∃ t ss, Moves (some ⟨data, h.clock l.tick, msgType, lastFlag⟩) (writeFrame h data msgType lastFlag) s l
        (h.clock l.tick) t (l.write h data msgType lastFlag) ∧ (∀ f ∈ ss, f.IsField) ∧
      t.trace = s.trace ++ (ss ++ Frame.setStatusWritten).map (.frame l.curNo l.cur.endPos) := by
  let r : Record := ⟨data, h.clock l.tick, msgType, lastFlag⟩
  have hclock := getNanoTime_spec (h := h) (ρ := some r) hw
  have hframe := frameAddress_hasRoom (h := h) (ρ := some r) hclock.2 hroom
  obtain ⟨b, hb, -⟩ := hframe.2.last
  obtain ⟨u, v, hemit, hpass, hv, htrace⟩ := complete_spec (r := r) hframe.2 hroom hb isField_write
    (Frame.filled_write h.autoHash data (h.clock l.tick) msgType lastFlag) hfit
  have hwrite : l.write h data msgType lastFlag = l.readClock.append r :=
    Ledger.write_of_hasRoom h l hroom data msgType lastFlag
  refine ⟨v, _, ⟨?_, hwrite ▸ hv⟩, isField_write, htrace⟩
  rw [hwrite]
  unfold writeFrame
  refine hclock.1.bind (hframe.1.bind ((curPageNum_spec hframe.2).1.bind (hemit.bind (hpass.bind ?_))))
  exact .silent (Runs.pure _ _) rfl rfl hpass.rep_end

/-! ### The second write path -/

/-- The frame behind the last one carries a time and, once copied, the data. -/
structure Drafted (s : Env) (l : Ledger) (nano : Int64) (data : List UInt8) : Prop where
  hasRoom : HasRoom l.cur.endPos
  nano : Frame.getNano (s.files.buffer l.curNo) l.cur.endPos = nano
  data : (s.files.buffer l.curNo).load (l.cur.endPos + basicFrameHeaderLength) data.length = data

theorem locateFrame_spec (hg : h.Grants) (hw : WriterAt s l) (hlt : l.pages.length < maxPages) :
    ∃ t, Moves ρ (locateFrame h) s l ((l.readClock).makeRoom h).cur.endPos t
        ((l.readClock).makeRoom h) ∧
      Drafted t ((l.readClock).makeRoom h) (h.clock l.tick) [] := by
  let l' := (l.readClock).makeRoom h
  have hclock := getNanoTime_spec (h := h) (ρ := ρ) hw
  obtain ⟨t, hframe⟩ := frameAddress_spec (ρ := ρ) hg hclock.2 hlt
  obtain ⟨b, hb, -⟩ := hframe.2.last
  have hnano := emit_fields_spec (ρ := ρ) (Frame.setNano (h.clock l.tick)) hframe.2
    (by simp [Frame.setNano, FrameStore.IsField])
  refine ⟨t.emitAll ((Frame.setNano (h.clock l.tick)).map (.frame l'.curNo l'.cur.endPos)), ?_, ?_⟩
  · unfold locateFrame
    exact hclock.bind (hframe.bind ((curPageNum_spec hframe.2).bind
      (hnano.bind (.silent hnano.2 (Runs.pure _ _)))))
  · have hbuf := Files.buffer_of_lookup (lookup_fields (Frame.setNano (h.clock l.tick)) hb)
    refine ⟨Ledger.hasRoom_makeRoom h l.readClock, ?_, rfl⟩
    rw [Env.emitAll_files, hbuf]
    exact Mem.loadAs_storeAs _ _ _

theorem copyData_spec (hw : WriterAt s l) {nano : Int64} {old : List UInt8} (hd : Drafted s l nano old)
    (data : List UInt8) :
    ∃ t, Moves ρ (copyData l.cur.endPos data) s l ⟨⟩ t l ∧ Drafted t l nano data := by
  obtain ⟨b, hb, -⟩ := hw.last
  have hdata := emit_fields_spec (ρ := ρ) [.data data] hw (by simp [FrameStore.IsField])
  refine ⟨s.emitAll ([FrameStore.data data].map (.frame l.curNo l.cur.endPos)), ?_, ?_⟩
  · unfold copyData
    exact (curPageNum_spec hw).bind hdata
  · have hbuf := Files.buffer_of_lookup (lookup_fields [.data data] hb)
    have hnano := hd.nano
    rw [Files.buffer_of_lookup hb] at hnano
    refine ⟨hd.hasRoom, ?_, ?_⟩
    · rw [Env.emitAll_files, hbuf, ← hnano]
      exact Mem.loadAs_store_disjoint _ (by have : basicFrameHeaderLength = 20 := rfl; simp; omega)
    · rw [Env.emitAll_files, hbuf]
      exact Mem.load_store _ _ _

theorem passFrame_spec (hw : WriterAt s l) {nano : Int64} {data : List UInt8}
    (hd : Drafted s l nano data) (hfit : basicFrameHeaderLength + data.length ≤ pageMinHeadroom)
    (msgType : Int16) (lastFlag : UInt8) :
    ∃ t, Moves (some ⟨data, nano, msgType, lastFlag⟩)
      (passFrame h l.cur.endPos data.length msgType lastFlag) s l ⟨⟩ t
      (l.append ⟨data, nano, msgType, lastFlag⟩) := by
  obtain ⟨b, hb, -⟩ := hw.last
  have hbuf := Files.buffer_of_lookup hb
  have hnano := hd.nano
  have hdata := hd.data
  rw [hbuf] at hnano hdata
  have hfill := Frame.filled_pass h.autoHash (r := ⟨data, nano, msgType, lastFlag⟩)
    b msgType lastFlag hnano hdata
  obtain ⟨t, u, hemit, hpass, hu, -⟩ := complete_spec hw hd.hasRoom hb isField_pass hfill hfit
  refine ⟨u, ?_, hu⟩
  unfold passFrame
  refine (curPageNum_spec hw).1.bind (Calls.bind (.silent (Runs.get s) rfl rfl hw.rep) ?_)
  rw [hbuf]
  exact hemit.bind hpass

end JournalWriter

end Yijinjing
