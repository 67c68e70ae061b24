import Yijinjing.Journal.ClosedPages
import Yijinjing.Journal.WritePaths

/-!
# The stores of a writer and the end of the page

`locateWritableFrame` looks for room of a fixed size and does not know how long the frame will be.  A
frame that ends inside its page is stored inside it, with the status byte behind it, and so is the
PAGE_END that `finishPage` stores later; a longer one is not (`stays_inside`).
-/

namespace Yijinjing.PageBooks

open Lib Prog JournalWriter

/-- **All stores into frames so far were inside the page**, behind its header. -/
def AllInside (s : Env) : Prop :=
  ∀ before e after, s.trace = before ++ e :: after → e.Inside (execAll ∅ before)

variable {h : Host} {s t : Env} {rows : Rows} {p : Page} {a : ℕ} {nano : Int64}

theorem allInside_of_sound (hs : SoundAt s rows) : AllInside s := by
  intro before e after htrace
  have hentered := hs.entered
  rw [htrace] at hentered
  obtain ⟨rows₁, rows₂, hnext, -⟩ := hentered.at_effect
  exact hnext.inside

/-- A frame that does not end inside the page is stored outside, or the status byte behind it is. -/
theorem not_allInside_stored (w : Write) (hs : SoundAt s rows)
    (hfile : (s.files.lookup p.pageNum).isSome)
    (hout : journalPageSize ≤ a + basicFrameHeaderLength + w.data.length) :
    ¬ AllInside (s.stored p ((Frame.written h.autoHash w.data nano w.msgType w.lastFlag ++
      Frame.setStatusWritten).map (.frame p.pageNum a))) := by
  intro hall
  let ss := Frame.written h.autoHash w.data nano w.msgType w.lastFlag
  have hfiles : ∀ es, execAll ∅ (s.trace ++ es) = execAll s.files es := fun es => by
    have hend : execAll ∅ s.trace = s.files := hs.entered.exec_end
    rw [execAll_append, hend]
  -- the payload
  have hdata := hall (s.trace ++ [.frame p.pageNum a (.msgType w.msgType), .frame p.pageNum a (.lastFlag w.lastFlag)])
    (.frame p.pageNum a (.data w.data))
    ((Frame.setFrameLength w.data.length ++ Frame.autoHashCode h.autoHash w.data ++ Frame.setNano nano ++
      Frame.setStatusWritten).map (.frame p.pageNum a)) (by
        simp [Env.stored, Env.setCurPage, Env.emitAll, Frame.written, Frame.setMsgType, Frame.setLastFlag,
          Frame.setData])
  have hle : a + basicFrameHeaderLength + w.data.length ≤ journalPageSize := hdata.2
  -- the status byte behind it
  have hnext := hall (s.trace ++ ss.map (.frame p.pageNum a))
    (.frame p.pageNum a (.nextStatus journalFrameStatusRaw))
    [.frame p.pageNum a (.status journalFrameStatusWritten)] (by
        simp [Env.stored, Env.setCurPage, Env.emitAll, ss, Frame.setStatusWritten])
  have hfilled := Frame.filled_write (b := s.files.buffer p.pageNum) (a := a) h.autoHash w.data nano w.msgType
    w.lastFlag
  have haddress : FrameStore.address ((execAll s.files (ss.map (.frame p.pageNum a))).buffer p.pageNum) a
      (.nextStatus journalFrameStatusRaw) = a + basicFrameHeaderLength + w.data.length := by
    have hbuf := buffer_fields hfile ss a
    rw [Env.emitAll_files] at hbuf
    rw [hbuf, Nat.add_assoc]
    exact hfilled.getNextEntry_of_le (by simp only [Record.size]; omega)
  have hbyte := hnext.2
  rw [hfiles, haddress] at hbyte
  simp only [FrameStore.bytes, Scalar.length_encode, width_uint8] at hbyte
  omega

/-- A `write_frame` that returns has stayed inside the page if and only if its frame ends there. -/
theorem writeFrame_allInside_iff (hs : SoundAt s rows) {data : List UInt8} {msgType : Int16} {lastFlag : UInt8}
    (hx : Runs (writeFrame h data msgType lastFlag) s nano t) :
    AllInside t ↔ s.nextPosition + basicFrameHeaderLength + data.length < journalPageSize := by
  refine ⟨fun hall => ?_, fun hlt => ?_⟩
  · have hs' : SoundAt { s with tick := s.tick + 1 } rows := hs.congr rfl rfl rfl
    have hframe := frameAddress_sound (h := h) hs'
    rcases runs_or_throws (frameAddress h) { s with tick := s.tick + 1 } with ⟨a, u, hloc⟩ | ⟨e, u, hloc⟩
    · obtain ⟨hl, hpos⟩ := hframe.of_runs hloc
      obtain ⟨p, hp, hend⟩ := hl.atEnd
      have hwrite := writeFrame_runs ⟨data, msgType, lastFlag⟩ hloc hp.curPage
      obtain ⟨-, rfl⟩ := hx.det hwrite
      by_contra hout
      have hpos' : a = s.nextPosition := hpos
      have hreach : journalPageSize ≤ a + basicFrameHeaderLength + data.length := by omega
      exact not_allInside_stored ⟨data, msgType, lastFlag⟩ hl.sound (hl.sound.cursor p hp.curPage).file
        hreach hall
    · have hthrow : Throws (writeFrame h data msgType lastFlag) s e u := by
        unfold writeFrame
        exact (getNanoTime_runs s).bind_throws (hloc.bind _)
      exact absurd (hx.symm.trans hthrow) (by simp)
  · obtain ⟨rows', ht⟩ := (writeFrame_sound hs msgType lastFlag hlt).of_runs hx
    exact allInside_of_sound ht

/-- **Writes stay inside the page** as long as every frame ends there, and of the next one it depends on
just that. -/
theorem stays_inside (as : List Action) (hends : pageBooks.EachStep EndsInside start as) :
    pageBooks.Always (fun s => AllInside s.env ∧ ∀ h data msgType lastFlag nano t,
      Runs (writeFrame h data msgType lastFlag) s.env nano t →
        (AllInside t ↔ s.env.nextPosition + basicFrameHeaderLength + data.length < journalPageSize)) start as := by
  refine System.always_of_eachStep (I := fun s => ∃ rows, Inv s rows) (fun s a t hi hc ht => ?_)
    (fun s hi => ?_) as ⟨_, .start⟩ hends
  · obtain ⟨rows, hi⟩ := hi
    exact hi.step hc ht
  · obtain ⟨rows, hi⟩ := hi
    exact ⟨allInside_of_sound hi.sound, fun h data msgType lastFlag nano t hx =>
      writeFrame_allInside_iff hi.sound hx⟩

/-- A first session that writes a short frame. -/
theorem stays_inside_short : pageBooks.Always (fun s => AllInside s.env ∧ ∀ h data msgType lastFlag nano t,
      Runs (writeFrame h data msgType lastFlag) s.env nano t →
        (AllInside t ↔ s.env.nextPosition + basicFrameHeaderLength + data.length < journalPageSize)) start
    [.call (hostWith Int64.ofNat) .create, .call (hostWith Int64.ofNat) (.writeFrame [1, 2, 3] 7 1)] := by
  refine stays_inside _ (eachStep_endsInside _ ?_ .start)
  have h20 : basicFrameHeaderLength = 20 := rfl
  simp only [List.forall_mem_cons, Action.Admissible, Call.Admissible, Party.Admissible, List.length_cons,
    List.length_nil, true_and, List.not_mem_nil, false_implies, implies_true, and_true]
  rw [pageMinHeadroom_eq]
  omega

/-- A payload as long as a page. -/
@[irreducible] def pageful : List UInt8 := List.replicate journalPageSize 0

theorem length_pageful : pageful.length = journalPageSize := by
  unfold pageful
  exact List.length_replicate

theorem step_call_of_runs {s : State} {c : Call} {located : Option ℕ} (hallowed : c.allowed s = true)
    (hx : Runs (c.prog h s.located) s.env located t) : step s (.call h c) = some ⟨t, true, located⟩ := by
  have hexec : Prog.exec (c.prog h s.located) s.env = (.ok located, t) := hx
  simp only [step, if_pos hallowed, hexec, State.returned]

/-- It is accepted in place of the first frame, and stored over the end of the page. -/
theorem pageful_leaves_page : ∃ s, pageBooks.run start [.call (hostWith Int64.ofNat) .create,
    .call (hostWith Int64.ofNat) (.writeFrame pageful 0 0)] = some s ∧ ¬ AllInside s.env := by
  have hg : (hostWith Int64.ofNat).Grants := fun _ => rfl
  obtain ⟨t, hcreate, hw⟩ := create_spec (ρ := none) (s := start.env) (v := ⟨[], false⟩) hg
    (.settled Rep.empty) (by decide)
  have ht := (create_sound Inv.start.sound).of_runs hcreate.runs
  -- the first frame of the new journal
  obtain ⟨u, hframe⟩ := frameAddress_spec (ρ := none) (s := { t with tick := t.tick + 1 })
    (l := (Ledger.reopen (hostWith Int64.ofNat) [] start.env.tick).readClock) hg
    ⟨hw.rep, congrArg (· + 1) hw.tick, hw.isWriting, hw.expired, hw.curPage⟩ (by decide)
  obtain ⟨buffer, hcur⟩ := hframe.2.curPage
  have hwrite := writeFrame_runs ⟨pageful, 0, 0⟩ hframe.runs hcur
  have hstep₁ := step_call_of_runs (s := start) (c := .create) rfl (hcreate.runs.bind (Runs.pure none _))
  have hstep₂ := step_call_of_runs (s := ⟨t, true, none⟩) (c := .writeFrame pageful 0 0) rfl
    (hwrite.bind (Runs.pure none _))
  refine ⟨_, (System.run_cons_of_step _ hstep₁ _).trans (System.run_cons_of_step _ hstep₂ _), fun hall => ?_⟩
  have hlt := (writeFrame_allInside_iff ht hwrite).mp hall
  have hlen : (Write.mk pageful 0 0).data.length = journalPageSize := length_pageful
  omega

end Yijinjing.PageBooks
