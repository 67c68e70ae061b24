import Yijinjing.Journal.Publication

/-!
# Publication is safe

Every step of the writer and every read of the reader keeps the invariant `Inv` of the system, and the
invariant gives `Safe`.
-/

namespace Yijinjing.Publication

open Lib Prog

variable {h : Host} {s t : State} {v : View} {r : Reader} {c c' : Bool} {i j : ℕ} {fs : Files}

/-! ### One read -/

theorem ReaderInv.goto (hr : ReaderInv v r c i j) {pc : ReaderPc} (hk : Knows v c' i j pc)
    (hp : pc.passed = r.pc.passed) : ReaderInv v (r.goto pc) c' i j := by
  obtain ⟨buffer, hcur⟩ := hr.curPage
  exact ⟨hr.place, hk, ⟨buffer, by rw [← hp] at hcur; exact hcur⟩, hr.returned⟩

/-- At the end of the last page everything is returned. -/
theorem ReaderInv.returned_all (hr : ReaderInv v r c i j) (hi : i + 1 = v.pages.length)
    (hj : j = (v.row i).length) : r.returned = allRecords v.pages := by
  rw [hr.returned, taken_end (by rwa [length_recordRows]) hj]
  rfl

/-- The status that a reader sees behind the last frame of its page. -/
theorem endStatus_eq (hi : i < v.pages.length) :
    (v.endStatus i = journalFrameStatusPageEnd ∧ i + 1 < v.pages.length) ∨
      (v.endStatus i = journalFrameStatusRaw ∧ i + 1 = v.pages.length) := by
  unfold View.endStatus
  split
  · rename_i hlt
    exact .inl ⟨rfl, hlt⟩
  · exact .inr ⟨rfl, by omega⟩

/-- The reader opens the page behind a closed one. -/
theorem ReaderInv.turn (hrep : Rep fs v) (hr : ReaderInv v r c i j) (hi : i + 1 < v.pages.length)
    (hj : j = (v.row i).length) (hc : c = true → c' = true)
    (hnow : r.returned = allRecords v.pages → c = true) :
    ReaderInv v { r with curPage := some (Page.new r.mapped (pageNo (i + 1))), mapped := r.mapped + 1,
                         pc := .locate } c' (i + 1) 0 := by
  have hlen := length_recordRows v.pages
  have hret : r.returned = taken (recordRows v.pages) (i + 1) 0 := by
    rw [hr.returned, taken_next_page hr.place.1 hj]
  refine ⟨⟨by rwa [hlen], Nat.zero_le _⟩, ?_, ⟨r.mapped, rfl⟩, hret⟩
  -- the page is the last one, or closed and so not empty
  rcases Nat.eq_zero_or_pos (v.row (i + 1)).length with h0 | hpos
  · left
    have hlast : i + 1 + 1 = v.pages.length := by
      rcases Nat.lt_or_ge (i + 1 + 1) v.pages.length with hlt | hge
      · refine absurd ?_ (hrep.ok.records_ne_nil hlt)
        rw [← View.row_eq hi]
        exact List.length_eq_zero_iff.mp h0
      · omega
    refine hc (hnow ?_)
    rw [hret, taken_end (by rwa [hlen]) h0.symm]
    rfl
  · exact .inr hpos

/-- **One read of the reader.**  `hnow` says that a call knows when everything has been returned. -/
theorem ReaderInv.step (hrep : Rep fs v) (hr : ReaderInv v r c i j)
    (hc : r.inCall = true → c = true → c' = true)
    (hnow : r.inCall = true → r.returned = allRecords v.pages → c = true) :
    ∃ i' j', ReaderInv v (r.step fs) c' i' j' := by
  have hi := hr.place.lt
  have hle : j ≤ (v.row i).length := hr.place.2
  have hknows := hr.knows
  obtain ⟨buffer, hcur⟩ := hr.curPage
  have hno : ∀ k, (v.cursor buffer i k).pageNum = pageNo i := fun _ => rfl
  have hfr : ∀ k, (v.cursor buffer i k).frame = v.addr i k := fun _ => rfl
  cases hpc : r.pc with
  | idle =>
    rw [hpc] at hcur
    have e : r.step fs = r.goto .atPageEnd := by simp only [Reader.step, hpc, hcur]
    rw [e]
    exact ⟨i, j, hr.goto trivial (by rw [hpc]; rfl)⟩
  | null =>
    rw [hpc] at hcur
    have e : r.step fs = r.goto .atPageEnd := by simp only [Reader.step, hpc, hcur]
    rw [e]
    exact ⟨i, j, hr.goto trivial (by rw [hpc]; rfl)⟩
  | thrown =>
    rw [hpc] at hknows
    exact hknows.elim
  | atPageEnd =>
    have hin : r.inCall = true := by simp only [Reader.inCall, hpc]
    rw [hpc] at hcur
    have hcur' : r.curPage = some (v.cursor buffer i j) := hcur
    by_cases hend : Page.isAtPageEnd (fs.buffer (pageNo i)) (v.cursor buffer i j) = true
    · have e : r.step fs = r.goto (.request (pageNo i + 1)) := by
        simp only [Reader.step, hpc, hcur', hno, hend, if_true]
      obtain ⟨hj, hlt⟩ := (readsEnd_iff hrep hr.place).mp hend
      rw [e, pageNo_succ]
      exact ⟨i, j, hr.goto ⟨rfl, hlt, hj⟩ (by rw [hpc]; rfl)⟩
    · have e : r.step fs = r.goto .locate := by
        simp only [Reader.step, hpc, hcur', hno, hend, Bool.false_eq_true, if_false]
      rw [e]
      refine ⟨i, j, hr.goto ?_ (by rw [hpc]; rfl)⟩
      -- the status is WRITTEN, or RAW at the end of everything
      rcases Nat.lt_or_ge j (v.row i).length with hlt | hge
      · exact .inr hlt
      · have hj : j = (v.row i).length := Nat.le_antisymm hle hge
        have hlast : i + 1 = v.pages.length := by
          have := mt (readsEnd_iff (m := buffer) hrep hr.place).mpr hend
          omega
        exact .inl (hc hin (hnow hin (hr.returned_all hlast hj)))
  | request n =>
    rw [hpc] at hknows
    obtain ⟨rfl, hlt, hj⟩ := hknows
    obtain ⟨b, hb, -⟩ := hrep.page (i + 1) hlt
    have e : r.step fs = r.goto (.mapPage (pageNo (i + 1))) := by
      simp only [Reader.step, hpc, hb, Option.isSome_some, if_true]
    rw [e]
    exact ⟨i, j, hr.goto ⟨rfl, hlt, hj⟩ (by rw [hpc]; rfl)⟩
  | mapPage n =>
    rw [hpc] at hknows
    obtain ⟨rfl, hlt, hj⟩ := hknows
    obtain ⟨b, hb, -⟩ := hrep.page (i + 1) hlt
    have e : r.step fs = r.goto (.headerStatus (pageNo (i + 1))) := by
      simp only [Reader.step, hpc, hb, Option.isSome_some, if_true]
    rw [e]
    exact ⟨i, j, hr.goto ⟨rfl, hlt, hj⟩ (by rw [hpc]; rfl)⟩
  | headerStatus n =>
    rw [hpc] at hknows
    obtain ⟨rfl, hlt, hj⟩ := hknows
    obtain ⟨b, hb, hp⟩ := hrep.page (i + 1) hlt
    have e : r.step fs = r.goto (.headerVersion (pageNo (i + 1))) := by
      simp only [Reader.step, hpc, Files.buffer_of_lookup hb, status_ne_raw hp, Bool.false_eq_true, if_false]
    rw [e]
    exact ⟨i, j, hr.goto ⟨rfl, hlt, hj⟩ (by rw [hpc]; rfl)⟩
  | headerVersion n =>
    have hin : r.inCall = true := by simp only [Reader.inCall, hpc]
    rw [hpc] at hknows
    obtain ⟨rfl, hlt, hj⟩ := hknows
    obtain ⟨b, hb, hp⟩ := hrep.page (i + 1) hlt
    have e : r.step fs = { r with curPage := some (Page.new r.mapped (pageNo (i + 1))),
                                  mapped := r.mapped + 1, pc := .locate } := by
      simp only [Reader.step, hpc, Files.buffer_of_lookup hb, if_neg (version_ok hp.version)]
    rw [e]
    exact ⟨i + 1, 0, hr.turn hrep hlt hj (hc hin) (hnow hin)⟩
  | locate =>
    have hin : r.inCall = true := by simp only [Reader.inCall, hpc]
    rw [hpc] at hcur hknows
    have hcur' : r.curPage = some (v.cursor buffer i j) := hcur
    by_cases hst : Frame.getStatus (fs.buffer (pageNo i)) (v.addr i j) = journalFrameStatusWritten
    · have e : r.step fs = r.goto .nano := by
        simp only [Reader.step, hpc, hcur', hno, Page.locateReadableFrame, getCurStatus_cursor, hst,
          beq_self_eq_true, if_true, Option.isSome_some]
      rw [e]
      refine ⟨i, j, hr.goto ?_ (by rw [hpc]; rfl)⟩
      rcases Nat.lt_or_ge j (v.row i).length with hlt | hge
      · exact hlt
      · rw [hrep.status_end hi (Nat.le_antisymm hle hge)] at hst
        rcases endStatus_eq hi with ⟨hend, -⟩ | ⟨hend, -⟩ <;> rw [hend] at hst <;> exact absurd hst (by decide)
    · have hb : (Frame.getStatus (fs.buffer (pageNo i)) (v.addr i j) == journalFrameStatusWritten) = false :=
        beq_eq_false_iff_ne.mpr hst
      have e : r.step fs = r.goto .null := by
        simp only [Reader.step, hpc, hcur', hno, Page.locateReadableFrame, getCurStatus_cursor, hb,
          Bool.false_eq_true, if_false, Option.isSome_none]
      rw [e]
      refine ⟨i, j, hr.goto ?_ (by rw [hpc]; rfl)⟩
      rcases hknows with hcu | hlt
      · exact hc hin hcu
      · exact absurd (hrep.frameAt hi hlt).written hst
  | nano =>
    rw [hpc] at hcur hknows
    have e : r.step fs = r.goto .nextLength := by simp only [Reader.step, hpc, hcur]
    rw [e]
    exact ⟨i, j, hr.goto hknows (by rw [hpc]; rfl)⟩
  | nextLength =>
    rw [hpc] at hcur hknows
    have hcur' : r.curPage = some (v.cursor buffer i j) := hcur
    have hf := hrep.frameAt hi hknows
    have e : r.step fs = r.goto (.nextEntry (Int32.ofNat (v.row i)[j].size)) := by
      simp only [Reader.step, hpc, hcur', hno, hfr, hf.filled.length]
    rw [e]
    exact ⟨i, j, hr.goto ⟨hknows, rfl⟩ (by rw [hpc]; rfl)⟩
  | nextEntry length =>
    rw [hpc] at hcur hknows
    obtain ⟨hj, rfl⟩ := hknows
    have hcur' : r.curPage = some (v.cursor buffer i j) := hcur
    have hf := hrep.frameAt hi hj
    have hpass := hf.passFrame_cursor (m := buffer) hj
    unfold Page.passFrame at hpass
    rw [hfr, hf.filled.length] at hpass
    have e : r.step fs = { r with curPage := some (v.cursor buffer i (j + 1)),
                                  pc := .getNano (v.addr i j) } := by
      rw [← hpass]
      simp only [Reader.step, hpc, hcur', hno, hfr]
    rw [e]
    exact ⟨i, j, hr.place, ⟨rfl, hj⟩, ⟨buffer, rfl⟩, hr.returned⟩
  | getNano a =>
    rw [hpc] at hcur hknows
    obtain ⟨rfl, hj⟩ := hknows
    have hf := hrep.frameAt hi hj
    have e : r.step fs = r.goto (.getMsgType (v.addr i j) (v.row i)[j].nano) := by
      simp only [Reader.step, hpc, hcur, hno, hf.filled.nano]
    rw [e]
    exact ⟨i, j, hr.goto ⟨rfl, hj, rfl⟩ (by rw [hpc]; rfl)⟩
  | getMsgType a nano =>
    rw [hpc] at hcur hknows
    obtain ⟨rfl, hj, hn⟩ := hknows
    have hf := hrep.frameAt hi hj
    have e : r.step fs = r.goto (.getLastFlag (v.addr i j) nano (v.row i)[j].msgType) := by
      simp only [Reader.step, hpc, hcur, hno, hf.filled.msgType]
    rw [e]
    exact ⟨i, j, hr.goto ⟨rfl, hj, hn, rfl⟩ (by rw [hpc]; rfl)⟩
  | getLastFlag a nano msgType =>
    rw [hpc] at hcur hknows
    obtain ⟨rfl, hj, hn, hm⟩ := hknows
    have hf := hrep.frameAt hi hj
    have e : r.step fs = r.goto (.getDataLength (v.addr i j) nano msgType (v.row i)[j].lastFlag) := by
      simp only [Reader.step, hpc, hcur, hno, hf.filled.lastFlag]
    rw [e]
    exact ⟨i, j, hr.goto ⟨rfl, hj, hn, hm, rfl⟩ (by rw [hpc]; rfl)⟩
  | getDataLength a nano msgType lastFlag =>
    rw [hpc] at hcur hknows
    obtain ⟨rfl, hj, hn, hm, hl⟩ := hknows
    have hf := hrep.frameAt hi hj
    have e : r.step fs = r.goto (.getData (v.addr i j) nano msgType lastFlag
        (Frame.getDataLength (fs.buffer (pageNo i)) (v.addr i j))) := by
      simp only [Reader.step, hpc, hcur, hno]
    rw [e]
    exact ⟨i, j, hr.goto ⟨rfl, hj, hn, hm, hl, hf.filled.getDataLength hf.fits⟩ (by rw [hpc]; rfl)⟩
  | getData a nano msgType lastFlag length =>
    rw [hpc] at hcur hknows
    obtain ⟨rfl, hj, hn, hm, hl, hlen⟩ := hknows
    have hf := hrep.frameAt hi hj
    have hdata : (fs.buffer (pageNo i)).load (v.addr i j + basicFrameHeaderLength) length.toInt.toNat =
        (v.row i)[j].data := by
      rw [hlen, Int.toNat_natCast]
      exact hf.filled.data
    have e : r.step fs = { r with returned := r.returned ++ [(v.row i)[j]], pc := .idle } := by
      simp only [Reader.step, hpc, hcur, hno, hdata, hn, hm, hl]
    rw [e]
    refine ⟨i, j + 1, ⟨hr.place.1, hj⟩, trivial, ⟨buffer, hcur⟩, ?_⟩
    show r.returned ++ _ = _
    rw [hr.returned]
    exact (taken_succ hj).symm

/-! ### The system -/

/-- What `observe` leaves of the record of the call. -/
theorem observe_mono (s : State) (writer : Party) (reader : Reader) (hin : s.reader.inCall = true)
    (hcu : s.caughtUp = true) : (observe s writer reader).caughtUp = true := by
  simp [observe, hin, hcu]

theorem observe_now (s : State) (writer : Party) (reader : Reader) (hin : reader.inCall = true)
    (heq : reader.returned = writer.published) : (observe s writer reader).caughtUp = true := by
  simp [observe, hin, heq]

theorem observe_writer (s : State) (writer : Party) (hcu : s.caughtUp = true) :
    (observe s writer s.reader).caughtUp = true := by
  unfold observe
  cases hin : s.reader.inCall <;> simp [hcu]

theorem Inv.safe (hs : Inv s v) : Safe s := by
  obtain ⟨i, j, hr⟩ := hs.reader
  refine ⟨?_, fun hnull => ?_⟩
  · rw [hr.returned, hs.writer.published]
    exact ⟨left (recordRows v.pages) i j, taken_append_left j hr.place.1⟩
  · have := hr.knows
    rw [hnull] at this
    exact this

/-- **One step of the system.** -/
theorem Inv.step (hg : h.Grants) (a : Action) (hs : Inv s v) (ht : step h s a = some t) :
    ∃ w, Inv t w := by
  obtain ⟨i, j, hr⟩ := hs.reader
  cases a with
  | write data msgType lastFlag =>
    simp only [Publication.step] at ht
    split at ht
    · rename_i hguard
      obtain ⟨halive, htodo, hadm, hleft⟩ := hguard
      obtain rfl := Option.some.inj ht
      obtain ⟨hw, hlive, -⟩ := hs.writer.write hg halive htodo hadm msgType lastFlag hleft
      -- the start of a call changes nothing that the reader sees
      have hsame : Next none s.writer.files v (.create 0) v := .same rfl (.create _ v 0) fun _ => .create _ 0
      exact ⟨v, hw, hlive, ⟨i, j, hr.next hsame (observe_writer s _)⟩, observe_now s _ _⟩
    · cases ht
  | store =>
    obtain ⟨writer, hw, rfl⟩ := Option.map_eq_some_iff.mp ht
    obtain ⟨w, e, hn, -, -, hlive, -, hrep⟩ := hs.writer.perform hw
    exact ⟨w, hrep, hlive.trans hs.alive, ⟨i, j, hr.next hn (observe_writer s _)⟩, observe_now s _ _⟩
  | read =>
    obtain rfl := Option.some.inj ht
    refine ⟨v, hs.writer, hs.alive, ?_, observe_now s _ _⟩
    refine hr.step hs.writer.rep (fun hin hcu => observe_mono s _ _ hin hcu) fun hin hret => ?_
    exact hs.now hin (hret.trans hs.writer.published.symm)

theorem firstWriter_spec (hg : h.Grants) : ∃ l, WriterAt (firstWriter h).env l ∧
    PartyRep (firstWriter h) ⟨l.pages, false⟩ ∧ (firstWriter h).alive = true := by
  obtain ⟨t, hcalls, hw⟩ := JournalWriter.create_spec (ρ := none) (s := Party.empty.start) hg
    (.settled PartyRep.empty.rep) (by decide)
  obtain ⟨hrep, hlive, -, -⟩ := PartyRep.empty.call (ρ := fun _ => none) hcalls hw
    (by simp [Ledger.reopen_nil, maxPages])
  obtain ⟨l, hwl, hfin⟩ := hrep.finish hlive
  exact ⟨l, hwl, hfin, hlive⟩

/-- The journal has just been created, and the reader stands on its first page. -/
theorem Inv.init (hg : h.Grants) : ∃ v, Inv (publication h).init v := by
  obtain ⟨l, hw, hrep, hlive⟩ := firstWriter_spec hg
  have henv : Rep (readerEnv h).files ⟨l.pages, false⟩ := hw.rep
  obtain ⟨t, hseek, -, hat⟩ := Journal.seekTime_fromFirst_spec hg henv (by simp [Ledger.pages]) rfl
  obtain ⟨buffer, hcur⟩ := hat.curPage
  have hcur' : (firstReader h).curPage = some ((View.mk l.pages false).cursor buffer 0 0) := by
    have e : Prog.exec (Journal.seekTime h timeFromFirst) (readerEnv h) = (.ok true, t) := hseek
    simp only [firstReader, e]
    exact hcur
  exact ⟨_, hrep, hlive, ⟨0, 0, hat.place, trivial, ⟨buffer, hcur'⟩, taken_zero.symm⟩,
    fun hin => Bool.noConfusion hin⟩

/-- **Publication safety.**  In every run of the system, the reader is given a prefix of the published
records, and it is told that there is nothing more only if there was nothing more during the call. -/
theorem publication_safe (h : Host) (as : List Action) :
    (publication h.granting).Always Safe (publication h.granting).init as := by
  have hg := h.grants_granting
  refine System.always_of_step (I := fun s => ∃ v, Inv s v) ?_ ?_ as (Inv.init hg)
  · rintro s a t ⟨v, hs⟩ ht
    exact hs.step hg a ht
  · rintro s ⟨v, hs⟩
    exact hs.safe

/-- No call of the writer fails in such a run, and the reader meets no page of another version. -/
theorem publication_no_error (h : Host) (as : List Action) :
    (publication h.granting).Always (fun s => s.writer.alive = true ∧ s.reader.pc ≠ .thrown)
      (publication h.granting).init as := by
  have hg := h.grants_granting
  refine System.always_of_step (I := fun s => ∃ v, Inv s v) ?_ ?_ as (Inv.init hg)
  · rintro s a t ⟨v, hs⟩ ht
    exact hs.step hg a ht
  · rintro s ⟨v, hs⟩
    obtain ⟨i, j, hr⟩ := hs.reader
    refine ⟨hs.alive, fun hpc => ?_⟩
    have hk := hr.knows
    rw [hpc] at hk
    exact hk

end Yijinjing.Publication
