import Yijinjing.Hash
import Yijinjing.Journal.Unread

/-!
# Frames with their hash codes

With `FRAME_AUTO_SET_HASHCODE` both write paths store the hash of the data before they store WRITTEN.
In the runs of a journal with either write path, new writers and deaths outside of a page change, every
WRITTEN frame carries the hash of its data at every moment (`sealed`).  A later change of the data
inside one group of four bytes does not go unnoticed then (`Detects`).
-/

namespace Yijinjing

open Lib Prog
open SeekRace (Later)

/-- Every WRITTEN frame of every page carries the hash of its data. -/
def Sealed (fs : Files) : Prop :=
  ∀ n b a, fs.lookup n = some b → OnChain b a → Frame.getStatus b a = journalFrameStatusWritten →
    Frame.getHashCode b a = murmurHash2 (Frame.getData b a) hashSeed

/-- The hash tells whether the data of a frame have changed inside one group of four bytes. -/
def Detects (fs : Files) : Prop :=
  ∀ n b a, fs.lookup n = some b → OnChain b a → Frame.getStatus b a = journalFrameStatusWritten →
    ∀ b' i, Frame.getHashCode b' a = Frame.getHashCode b a →
      AgreeOutside i (Frame.getData b a) (Frame.getData b' a) →
      (Frame.getHashCode b' a = murmurHash2 (Frame.getData b' a) hashSeed ↔
        Frame.getData b' a = Frame.getData b a)

/-- A process whose library was compiled with `FRAME_AUTO_SET_HASHCODE`. -/
def Host.hashing (h : Host) : Host := { h with autoHash := true }

theorem Sealed.detects {fs : Files} (hs : Sealed fs) : Detects fs := by
  intro n b a hb ha hst b' i hcode hagree
  rw [hcode, hs n b a hb ha hst, hagree.murmurHash2_eq_iff hashSeed]
  exact eq_comm

variable {fs fs' : Files} {v w : View} {ρ : Option Record} {es : List Effect} {e : Effect} {i j : ℕ}
  {r : Record} {b : Mem} {a : ℕ}

/-! ### The hash codes of a represented journal -/

/-- The frames of the view carry the hashes of their data. -/
def SealedView (fs : Files) (v : View) : Prop :=
  ∀ i j r, (v.row i)[j]? = some r →
    Frame.getHashCode (fs.buffer (pageNo i)) (v.addr i j) = murmurHash2 r.data hashSeed

theorem View.lt_of_getElem? (hr : (v.row i)[j]? = some r) : i < v.pages.length := by
  by_contra hi
  rw [SeekRace.View.row_of_ge (Nat.le_of_not_lt hi)] at hr
  cases hr

theorem SealedView.sealed (hv : SealedView fs v) (hr : Rep fs v) : Sealed fs := by
  intro n b a hb ha hst
  obtain ⟨i, hi, rfl⟩ := (hr.files n).mp (by rw [hb]; rfl)
  rcases View.lt_or_next hi with hlt | ⟨ho, rfl⟩
  · obtain ⟨b', hb', hp⟩ := hr.page i hlt
    obtain rfl : b = b' := Option.some.inj (hb.symm.trans hb')
    obtain ⟨j, hj, rfl⟩ := ha.place hp (hr.ok.roomy _ (List.getElem_mem hlt)) (v.endStatus_ne_written i)
    have hrow := View.row_eq hlt
    rw [← hrow] at hj hst ⊢
    rcases Nat.lt_or_ge j (v.row i).length with hlt' | hge
    · have hcode := hv i j _ (List.getElem?_eq_getElem hlt')
      have hf := hr.frameAt hlt hlt'
      rw [Files.buffer_of_lookup hb] at hcode hf
      unfold View.addr at hcode hf
      rw [hcode, hf.filled.getData hf.fits]
    · -- behind the last frame the status is not WRITTEN
      have hend := hr.status_end hlt (Nat.le_antisymm hj hge)
      rw [Files.buffer_of_lookup hb] at hend
      exact absurd (hend.symm.trans hst) (v.endStatus_ne_written i)
  · have hu := hr.next ho b hb
    rw [ha.eq_first hu.status, hu.status] at hst
    exact absurd hst (by decide)

theorem Sealed.view (hs : Sealed fs) (hr : Rep fs v) : SealedView fs v := by
  intro i j r hrow
  obtain ⟨hj, rfl⟩ := List.getElem?_eq_some_iff.mp hrow
  have hi := View.lt_of_getElem? hrow
  obtain ⟨b, hb, -⟩ := hr.page i hi
  have hf := hr.frameAt hi hj
  have hon := hr.onChain hi (Nat.le_of_lt hj)
  have hbuf := Files.buffer_of_lookup hb
  rw [hbuf] at hf hon ⊢
  rw [hs _ b _ hb hon hf.written, hf.filled.getData hf.fits]

/-! ### Effects leave the hash codes of written frames alone -/

theorem View.addr_of_prefix (hrow : v.row i <+: w.row i) (hj : j ≤ (v.row i).length) : w.addr i j = v.addr i j := by
  obtain ⟨rs, hrs⟩ := hrow
  unfold View.addr
  rw [← hrs, List.take_append_of_le_length hj]

theorem getElem?_of_isPrefix {α : Type*} {xs ys : List α} {x : α} (hp : xs <+: ys) (hx : xs[j]? = some x) :
    ys[j]? = some x := by
  obtain ⟨zs, rfl⟩ := hp
  have hj : j < xs.length := (List.getElem?_eq_some_iff.mp hx).1
  rw [List.getElem?_append_left hj]
  exact hx

/-- The header of a frame is made of written bytes. -/
theorem View.written_header (hrow : (v.row i)[j]? = some r) {x : ℕ} (hlo : v.addr i j ≤ x)
    (hhi : x < v.addr i j + basicFrameHeaderLength) : v.Written i x := by
  have hi := View.lt_of_getElem? hrow
  obtain ⟨hj, rfl⟩ := List.getElem?_eq_some_iff.mp hrow
  have hnext := framesSize_take_le (v.row i) (j + 1)
  rw [List.take_succ_eq_append_getElem hj, framesSize_append] at hnext
  simp only [framesSize_cons, framesSize_nil] at hnext
  have hsize := size_pos (v.row i)[j]
  have hend : v.pages[i].endPos = pageInitPosition + framesSize (v.row i) := by
    rw [View.row_eq hi]
    rfl
  have haddr : v.addr i j = pageInitPosition + framesSize ((v.row i).take j) := rfl
  refine ⟨hi, by omega, .inl ?_⟩
  omega

theorem Next.hashCode (hn : Next ρ fs v e w) (hrow : (v.row i)[j]? = some r) :
    Frame.getHashCode ((e.exec fs).buffer (pageNo i)) (v.addr i j) =
      Frame.getHashCode (fs.buffer (pageNo i)) (v.addr i j) := by
  have h20 : basicFrameHeaderLength = 20 := rfl
  refine Mem.loadAs_congr fun x h1 h2 => hn.spares i x (View.written_header hrow ?_ ?_)
  · omega
  · rw [width_uint32] at h2
    omega

theorem Publishes.later (hs : Publishes ρ fs v es fs' w) : Later v w := by
  induction hs with
  | done => exact .refl _
  | step hr hn hs ih => exact (Later.of_next hr hs.rep hn).trans ih

theorem Publishes.hashCode (hs : Publishes ρ fs v es fs' w) (hrow : (v.row i)[j]? = some r) :
    Frame.getHashCode (fs'.buffer (pageNo i)) (v.addr i j) =
      Frame.getHashCode (fs.buffer (pageNo i)) (v.addr i j) := by
  induction hs with
  | done => rfl
  | step hr hn hs ih =>
    have hl := Later.of_next hr hs.rep hn
    have hj : j ≤ _ := Nat.le_of_lt (List.getElem?_eq_some_iff.mp hrow).1
    have haddr := View.addr_of_prefix (hl.row i) hj
    have hrest := ih (getElem?_of_isPrefix (hl.row i) hrow)
    rw [haddr] at hrest
    exact hrest.trans (hn.hashCode hrow)

/-- What is sealed at the end was sealed before. -/
theorem SealedView.before (hv : SealedView fs' w) (hs : Publishes ρ fs v es fs' w) : SealedView fs v := by
  intro i j r hrow
  have hl := hs.later
  have hj : j ≤ _ := Nat.le_of_lt (List.getElem?_eq_some_iff.mp hrow).1
  rw [← hs.hashCode hrow, ← View.addr_of_prefix (hl.row i) hj]
  exact hv i j r (getElem?_of_isPrefix (hl.row i) hrow)

/-- What was sealed is sealed at the end, if the new frames are. -/
theorem SealedView.after (hv : SealedView fs v) (hs : Publishes ρ fs v es fs' w)
    (hnew : ∀ i j r, (w.row i)[j]? = some r → (v.row i)[j]? = none →
      Frame.getHashCode (fs'.buffer (pageNo i)) (w.addr i j) = murmurHash2 r.data hashSeed) :
    SealedView fs' w := by
  intro i j r hrow
  cases hold : (v.row i)[j]? with
  | none => exact hnew i j r hrow hold
  | some r' =>
    have hl := hs.later
    have hj : j ≤ _ := Nat.le_of_lt (List.getElem?_eq_some_iff.mp hold).1
    obtain rfl : r' = r := Option.some.inj ((getElem?_of_isPrefix (hl.row i) hold).symm.trans hrow)
    rw [View.addr_of_prefix (hl.row i) hj, hs.hashCode hold]
    exact hv i j r' hold

/-! ### The new frames -/

section Ledger

variable {h : Host} {l : Ledger} {s t : Env} {o : Bool}

theorem View.row_push {ps : List PageLog} {p : PageLog} :
    (View.mk (ps ++ [p.push r]) o).row i =
      if i = ps.length then p.records ++ [r] else (View.mk (ps ++ [p]) o).row i := by
  split
  · rename_i hi
    subst hi
    simp [View.row, recordRows, List.getD]
  · rename_i hi
    rcases Nat.lt_or_ge i ps.length with hlt | hge
    · simp [View.row, recordRows, List.getD, List.getElem?_append_left, hlt]
    · rw [SeekRace.View.row_of_ge (by simp; omega), SeekRace.View.row_of_ge (by simp; omega)]

theorem View.row_makeRoom : (View.mk (l.makeRoom h).pages o).row i = (View.mk l.pages o).row i := by
  unfold Ledger.makeRoom
  split
  · rfl
  · rw [Ledger.rollover_pages]
    rcases Nat.lt_trichotomy i l.pages.length with hi | rfl | hi
    · simp only [View.row, recordRows, List.map_append]
      exact getD_append_of_lt (by simpa using hi)
    · rw [SeekRace.View.row_of_ge (v := ⟨l.pages, o⟩) (Nat.le_refl _)]
      simp [View.row, recordRows, List.getD]
    · rw [SeekRace.View.row_of_ge (v := ⟨l.pages, o⟩) (Nat.le_of_lt hi)]
      exact SeekRace.View.row_of_ge (by simp; omega)

theorem View.row_reopen {ps : List PageLog} {k : ℕ} {o' : Bool} :
    (View.mk (Ledger.reopen h ps k).pages o).row i = (View.mk ps o').row i := by
  rcases List.eq_nil_or_concat ps with rfl | ⟨qs, p, rfl⟩
  · rw [Ledger.reopen_nil, SeekRace.View.row_of_ge (v := ⟨[], o'⟩) (Nat.zero_le i)]
    rcases Nat.eq_zero_or_pos i with rfl | hi
    · rfl
    · exact SeekRace.View.row_of_ge (by simp; omega)
  · rw [List.concat_eq_append, Ledger.reopen_concat, View.row_makeRoom]
    rfl

/-- An appended record is the only new one, and its frame stands where the writer stood. -/
theorem View.row_append {r' : Record} (hrow : ((View.mk (l.append r).pages o).row i)[j]? = some r')
    (hold : ((View.mk l.pages o).row i)[j]? = none) :
    i = l.closed.length ∧ r' = r ∧ (View.mk (l.append r).pages o).addr i j = l.cur.endPos := by
  have hl : l.pages = l.closed ++ [l.cur] := rfl
  have hrows : (View.mk (l.append r).pages o).row i =
      if i = l.closed.length then l.cur.records ++ [r] else (View.mk l.pages o).row i := by
    rw [Ledger.append_pages, View.row_push, hl]
  rw [hrows] at hrow
  split at hrow
  · rename_i hi
    subst hi
    have hcur : (View.mk l.pages o).row l.closed.length = l.cur.records := by
      simp [View.row, recordRows, Ledger.pages, List.getD]
    rw [hcur, List.getElem?_eq_none_iff] at hold
    have hj := (List.getElem?_eq_some_iff.mp hrow).1
    rw [List.length_append, List.length_singleton] at hj
    obtain rfl : j = l.cur.records.length := by omega
    rw [List.getElem?_concat_length] at hrow
    refine ⟨rfl, (Option.some.inj hrow).symm, ?_⟩
    unfold View.addr PageLog.endPos
    rw [hrows, if_pos rfl, List.take_append_of_le_length (Nat.le_refl _), List.take_length]
  · rw [hold] at hrow
    cases hrow

/-! ### The stores of the hash -/

/-- The fields that `write_frame` stores. -/
theorem Frame.hashCode_write (data : List UInt8) (nano : Int64) (msgType : Int16) (lastFlag : UInt8) :
    Frame.getHashCode ((Frame.setMsgType msgType ++ Frame.setLastFlag lastFlag ++
        Frame.setData true data ++ Frame.setNano nano).foldl (FrameStore.exec a) b) a =
      murmurHash2 data hashSeed := by
  have h20 : basicFrameHeaderLength = 20 := rfl
  simp (disch := simp; try omega) only [Frame.setMsgType, Frame.setLastFlag, Frame.setData,
    Frame.setNano, Frame.setFrameLength, Frame.autoHashCode, List.foldl_append, List.foldl_cons,
    List.foldl_nil, if_true, FrameStore.exec, Frame.getHashCode,
    Mem.loadAs_storeAs, Mem.loadAs_storeAs_disjoint]

/-- The fields that `passFrame` stores; the hash is that of the data in the frame. -/
theorem Frame.hashCode_pass (b' : Mem) (len : ℕ) (msgType : Int16) (lastFlag : UInt8) :
    Frame.getHashCode ((Frame.setMsgType msgType ++ Frame.setLastFlag lastFlag ++
        Frame.setDataLength true b' a len).foldl (FrameStore.exec a) b) a =
      murmurHash2 (b'.load (a + basicFrameHeaderLength) len) hashSeed := by
  simp (disch := simp; try omega) only [Frame.setMsgType, Frame.setLastFlag, Frame.setDataLength,
    Frame.setFrameLength, Frame.autoHashCode, List.foldl_append, List.foldl_cons,
    List.foldl_nil, if_true, FrameStore.exec, Frame.getHashCode, Mem.loadAs_storeAs]

/-- `setStatusWritten` stores a status before the hash code and one behind the frame. -/
theorem Frame.Filled.hashCode_setStatusWritten (hfill : Frame.Filled b a r) (hroom : HasRoom a) (hfit : r.Fits) :
    Frame.getHashCode (Frame.setStatusWritten.foldl (FrameStore.exec a) b) a = Frame.getHashCode b a := by
  have hnext := hfill.getNextEntry hroom hfit
  have hsize : basicFrameHeaderLength ≤ r.size := size_pos r
  have h20 : basicFrameHeaderLength = 20 := rfl
  simp (disch := simp; try omega) only [Frame.setStatusWritten, List.foldl_cons, List.foldl_nil,
    FrameStore.exec, hnext, Frame.getHashCode, Mem.loadAs_storeAs_disjoint]

/-! ### The calls of a writer -/

/-- A call that publishes nothing. -/
theorem Calls.sealed {α : Type} {x : JournalM α} {c : α} (hx : Calls ρ x s v c t w) (hrow : ∀ i, w.row i = v.row i)
    (hv : SealedView s.files v) : SealedView t.files w := by
  obtain ⟨-, es, -, hes⟩ := hx
  refine hv.after hes fun i j r hnew hold => ?_
  rw [hrow, hold] at hnew
  cases hnew

namespace JournalWriter

/-- Completing a frame with the hash of its data. -/
theorem complete_sealed {ss : List FrameStore} (hw : WriterAt s l)
    (hroom : HasRoom l.cur.endPos) (hb : s.files.lookup l.curNo = some b) (hss : ∀ f ∈ ss, f.IsField)
    (hfill : Frame.Filled (ss.foldl (FrameStore.exec l.cur.endPos) b) l.cur.endPos r) (hfit : r.Fits)
    (hcode : Frame.getHashCode (ss.foldl (FrameStore.exec l.cur.endPos) b) l.cur.endPos =
      murmurHash2 r.data hashSeed) :
    ∃ t u, Calls (some r) (emit ((ss ++ Frame.setStatusWritten).map (.frame l.curNo l.cur.endPos))) s
        ⟨l.pages, false⟩ ⟨⟩ t ⟨(l.append r).pages, false⟩ ∧
      Calls (some r) Journal.passFrame t ⟨(l.append r).pages, false⟩ ⟨⟩ u
        ⟨(l.append r).pages, false⟩ ∧ WriterAt u (l.append r) ∧
      (SealedView s.files ⟨l.pages, false⟩ → SealedView u.files ⟨(l.append r).pages, false⟩) := by
  obtain ⟨t, u, hemit, hpass, hu, -⟩ := complete_spec hw hroom hb hss hfill hfit
  refine ⟨t, u, hemit, hpass, hu, fun hv => hpass.sealed (fun _ => rfl) ?_⟩
  obtain ⟨hruns, es, -, hes⟩ := hemit
  obtain ⟨-, rfl⟩ := hruns.det (emit_runs _ s)
  refine hv.after hes fun i j r' hrow hold => ?_
  obtain ⟨rfl, rfl, haddr⟩ := View.row_append hrow hold
  have hbuf := Files.buffer_of_lookup (lookup_fields (ss ++ Frame.setStatusWritten) hb)
  rw [haddr, Env.emitAll_files]
  refine (congrArg (Frame.getHashCode · l.cur.endPos) hbuf).trans ?_
  rw [List.foldl_append, hfill.hashCode_setStatusWritten hroom hfit, hcode]

theorem writeFrame_sealed (hg : h.Grants) (hauto : h.autoHash = true) (hw : WriterAt s l)
    (hlt : l.pages.length < maxPages) {data : List UInt8}
    (hfit : basicFrameHeaderLength + data.length ≤ pageMinHeadroom) (msgType : Int16) (lastFlag : UInt8) :
    ∃ t, Moves (some ⟨data, h.clock l.tick, msgType, lastFlag⟩) (writeFrame h data msgType lastFlag) s l
        (h.clock l.tick) t (l.write h data msgType lastFlag) ∧
      (SealedView s.files ⟨l.pages, false⟩ →
        SealedView t.files ⟨(l.write h data msgType lastFlag).pages, false⟩) := by
  let r : Record := ⟨data, h.clock l.tick, msgType, lastFlag⟩
  have hclock := getNanoTime_spec (h := h) (ρ := some r) hw
  obtain ⟨t, hframe⟩ := frameAddress_spec (ρ := some r) hg hclock.2 hlt
  obtain ⟨b, hb, -⟩ := hframe.2.last
  have hcode := Frame.hashCode_write (a := (l.readClock.makeRoom h).cur.endPos) (b := b) data (h.clock l.tick)
    msgType lastFlag
  rw [← hauto] at hcode
  obtain ⟨u, v, hemit, hpass, hv, hseal⟩ := complete_sealed (r := r) hframe.2
    (Ledger.hasRoom_makeRoom h l.readClock) hb isField_write
    (Frame.filled_write h.autoHash data (h.clock l.tick) msgType lastFlag) hfit hcode
  refine ⟨v, ⟨?_, hv⟩, fun hs => hseal ?_⟩
  · unfold writeFrame
    refine hclock.1.bind (hframe.1.bind ((curPageNum_spec hframe.2).1.bind (hemit.bind (hpass.bind ?_))))
    exact .silent (Runs.pure _ _) rfl rfl hpass.rep_end
  · exact hframe.1.sealed (fun i => View.row_makeRoom) (hclock.1.sealed (fun i => rfl) hs)

theorem passFrame_sealed (hauto : h.autoHash = true) (hw : WriterAt s l) {nano : Int64} {data : List UInt8}
    (hd : Drafted s l nano data) (hfit : basicFrameHeaderLength + data.length ≤ pageMinHeadroom)
    (msgType : Int16) (lastFlag : UInt8) :
    ∃ t, Moves (some ⟨data, nano, msgType, lastFlag⟩)
        (passFrame h l.cur.endPos data.length msgType lastFlag) s l ⟨⟩ t
        (l.append ⟨data, nano, msgType, lastFlag⟩) ∧
      (SealedView s.files ⟨l.pages, false⟩ →
        SealedView t.files ⟨(l.append ⟨data, nano, msgType, lastFlag⟩).pages, false⟩) := by
  obtain ⟨b, hb, -⟩ := hw.last
  have hbuf := Files.buffer_of_lookup hb
  have hnano := hd.nano
  have hdata := hd.data
  rw [hbuf] at hnano hdata
  have hfill := Frame.filled_pass h.autoHash (r := ⟨data, nano, msgType, lastFlag⟩)
    b msgType lastFlag hnano hdata
  have hcode := Frame.hashCode_pass (a := l.cur.endPos) (b := b) b data.length msgType lastFlag
  rw [hdata, ← hauto] at hcode
  obtain ⟨t, u, hemit, hpass, hu, hseal⟩ := complete_sealed hw hd.hasRoom hb isField_pass hfill hfit hcode
  refine ⟨u, ⟨?_, hu⟩, hseal⟩
  unfold passFrame
  refine (curPageNum_spec hw).1.bind (Calls.bind (.silent (Runs.get s) rfl rfl hw.rep) ?_)
  rw [hbuf]
  exact hemit.bind hpass

end JournalWriter

end Ledger

/-! ### Whole runs -/

namespace Recovery

open Sessions (Draft)

variable {h : Host} {s t : State} {l : Ledger} {e : Env}

/-- The page files are sealed now and after each of the stores to come. -/
def SealedAhead (p : Party) : Prop := ∀ k, Sealed (execAll p.files (p.todo.take k))

theorem SealedAhead.now {p : Party} (hp : SealedAhead p) : Sealed p.files := hp 0

theorem SealedAhead.perform {p q : Party} (hp : SealedAhead p) (hq : p.perform = some q) : SealedAhead q := by
  obtain ⟨e, es, htodo, rfl⟩ := Party.perform_some hq
  intro k
  have hk := hp (k + 1)
  rw [htodo] at hk
  exact hk

theorem SealedAhead.die {p : Party} (hp : SealedAhead p) : SealedAhead p.die := by
  intro k
  have hnil : p.die.todo.take k = [] := List.take_nil
  rw [hnil]
  exact hp.now

/-- A call that leaves the journal sealed keeps it sealed between its stores. -/
theorem SealedAhead.call {α : Type} {x : JournalM α} {ρ : α → Option Record} {draft : α → Option Draft} {a : α}
    (hs : Inv s v) (hnow : Sealed s.party.files)
    (hx : Calls (ρ a) x s.party.start v a e ⟨l.pages, false⟩)
    (hseal : SealedView s.party.start.files v → SealedView e.files ⟨l.pages, false⟩)
    (ht : s.call x ρ draft = some t) : SealedAhead t.party := by
  have hend := hseal (hnow.view hs.party.rep)
  obtain ⟨hruns, es, htr, hes⟩ := hx
  have hexec : Prog.exec x s.party.start = (.ok a, e) := hruns
  have hcall : t.party = { s.party with env := e, alive := true, todo := e.trace, current := ρ a } := by
    unfold State.call at ht
    rw [hexec] at ht
    dsimp only at ht
    split at ht
    · obtain rfl := Option.some.inj ht
      exact Party.call_of_runs hruns
    · cases ht
  have htodo : e.trace = es := htr
  rw [hcall, htodo]
  intro k
  show Sealed (execAll s.party.files (es.take k))
  have hsplit : es.take k ++ es.drop k = es := List.take_append_drop k es
  rw [← hsplit] at hes
  obtain ⟨m, u, hbefore, hafter⟩ := hes.split
  have hm : execAll s.party.files (es.take k) = m := hbefore.exec_end
  rw [hm]
  exact (hend.before hafter).sealed hafter.rep

theorem SealedAhead.create (hg : h.Grants) (hs : Inv s v) (hp : SealedAhead s.party)
    (ht : step h s .create = some t) : SealedAhead t.party := by
  simp only [step] at ht
  split at ht
  · cases ht
  · rename_i hlive
    obtain ⟨-, hlt, hopen⟩ := hs.dead (by simpa using hlive)
    obtain ⟨e, hcalls, hw⟩ :=
      JournalWriter.create_spec (ρ := none) (s := s.party.start) hg ⟨hs.party.rep, hopen⟩ hlt
    exact .call hs hp.now (ρ := fun _ => none) hcalls (hcalls.sealed fun i => View.row_reopen) ht

theorem SealedAhead.writeFrame (hg : h.Grants) (hauto : h.autoHash = true) (hs : Inv s v)
    (hp : SealedAhead s.party) {data : List UInt8} {msgType : Int16} {lastFlag : UInt8}
    (ht : step h s (.writeFrame data msgType lastFlag) = some t) : SealedAhead t.party := by
  simp only [step] at ht
  split at ht
  · rename_i hguard
    obtain ⟨hlive, htodo, hadm⟩ := hguard
    obtain ⟨l, hw, rfl, hlt⟩ := hs.party.at_rest hlive htodo
    obtain ⟨e, hmoves, hseal⟩ := JournalWriter.writeFrame_sealed hg hauto hw hlt hadm msgType lastFlag
    exact .call hs hp.now (ρ := fun nano => some ⟨data, nano, msgType, lastFlag⟩) hmoves.1 hseal ht
  · cases ht

theorem SealedAhead.locateFrame (hg : h.Grants) (hs : Inv s v) (hp : SealedAhead s.party)
    (ht : step h s .locateFrame = some t) : SealedAhead t.party := by
  simp only [step] at ht
  split at ht
  · rename_i hguard
    obtain ⟨hlive, htodo⟩ := hguard
    obtain ⟨l, hw, rfl, hlt⟩ := hs.party.at_rest hlive htodo
    obtain ⟨e, hmoves, -⟩ := JournalWriter.locateFrame_spec (ρ := none) hg hw hlt
    exact .call hs hp.now (ρ := fun _ => none) hmoves.1
      (hmoves.1.sealed fun i => View.row_makeRoom (l := l.readClock)) ht
  · cases ht

theorem SealedAhead.copyData (hs : Inv s v) (hp : SealedAhead s.party) {data : List UInt8}
    (ht : step h s (.copyData data) = some t) : SealedAhead t.party := by
  simp only [step] at ht
  split at ht
  · rename_i d hdraft
    split at ht
    · rename_i hguard
      obtain ⟨hlive, hd⟩ := hs.draft d hdraft
      obtain ⟨l, hw, rfl, hlt⟩ := hs.party.at_rest hlive hguard.1
      obtain ⟨hframe, hdr⟩ := (hd.at_rest hs.party hguard.1).drafted_of hw
      obtain ⟨e, hmoves, -⟩ := JournalWriter.copyData_spec (ρ := none) hw hdr data
      rw [← hframe] at hmoves
      exact .call hs hp.now (ρ := fun _ => none) hmoves.1 (hmoves.1.sealed fun i => rfl) ht
    · cases ht
  · cases ht

theorem SealedAhead.passFrame (hauto : h.autoHash = true) (hs : Inv s v) (hp : SealedAhead s.party)
    {msgType : Int16} {lastFlag : UInt8} (ht : step h s (.passFrame msgType lastFlag) = some t) :
    SealedAhead t.party := by
  simp only [step] at ht
  split at ht
  · rename_i frame nano data hdraft
    split at ht
    · rename_i htodo
      obtain ⟨hlive, hd⟩ := hs.draft _ hdraft
      obtain ⟨l, hw, rfl, hlt⟩ := hs.party.at_rest hlive htodo
      obtain ⟨hframe, hdr⟩ := (hd.at_rest hs.party htodo).drafted_of hw
      obtain ⟨e, hmoves, hseal⟩ :=
        JournalWriter.passFrame_sealed hauto hw hdr (hd.admissible data rfl) msgType lastFlag
      obtain rfl : frame = l.cur.endPos := hframe
      exact .call hs hp.now (ρ := fun _ => some ⟨data, nano, msgType, lastFlag⟩) hmoves.1 hseal ht
    · cases ht
  · cases ht

/-- A step of a reader is none of the writer's. -/
theorem party_seekFirst (ht : step h s .seekFirst = some t) : t.party = s.party := by
  simp only [step] at ht
  split at ht <;> obtain rfl := Option.some.inj ht <;> rfl

theorem party_getNextFrame (ht : step h s .getNextFrame = some t) : t.party = s.party := by
  simp only [step] at ht
  split at ht
  · split at ht <;> obtain rfl := Option.some.inj ht <;> rfl
  · cases ht

theorem SealedAhead.step (hg : h.Grants) (hauto : h.autoHash = true) (a : Action) (hs : Inv s v)
    (hp : SealedAhead s.party) (ht : step h s a = some t) : SealedAhead t.party := by
  cases a with
  | create => exact hp.create hg hs ht
  | writeFrame => exact hp.writeFrame hg hauto hs ht
  | locateFrame => exact hp.locateFrame hg hs ht
  | copyData => exact hp.copyData hs ht
  | passFrame => exact hp.passFrame hauto hs ht
  | store =>
    obtain ⟨q, hq, rfl⟩ := Option.map_eq_some_iff.mp ht
    exact hp.perform hq
  | die =>
    simp only [Recovery.step] at ht
    split at ht
    · obtain rfl := Option.some.inj ht
      exact hp.die
    · cases ht
  | seekFirst => rw [party_seekFirst ht]; exact hp
  | getNextFrame => rw [party_getNextFrame ht]; exact hp

/-- **Every WRITTEN frame carries the hash of its data**, at every moment of every run in which no writer
dies in the middle of a page change; so a change of its data within one group of four bytes shows. -/
theorem all_sealed (h : Host) (as : List Action)
    (hord : (recovery h.hashing.granting).EachStep Orderly (recovery h.hashing.granting).init as) :
    (recovery h.hashing.granting).Always (fun s => Sealed s.party.files ∧ Detects s.party.files)
      (recovery h.hashing.granting).init as := by
  have hg := h.hashing.grants_granting
  have hempty : SealedAhead State.empty.party := fun k n b a hb => by
    rw [show State.empty.party.todo.take k = [] from List.take_nil] at hb
    cases hb
  refine System.always_of_eachStep (I := fun s => (∃ v, Inv s v) ∧ SealedAhead s.party) ?_ ?_ as
    ⟨⟨_, Inv.empty⟩, hempty⟩ hord
  · rintro s a t ⟨⟨v, hs⟩, hp⟩ ha ht
    obtain ⟨w, -, hw⟩ := hs.step hg a ha ht
    exact ⟨⟨w, hw⟩, hp.step hg rfl a hs ht⟩
  · rintro s ⟨-, hp⟩
    exact ⟨hp.now, hp.now.detects⟩

theorem all_sealed_torn : ∃ as bs t,
    (recovery (hostWith fun _ => 5).hashing.granting).run (recovery (hostWith fun _ => 5).hashing.granting).init
      (as ++ .die :: bs) = some t ∧
    t.party.published.length = 65 ∧ getPageNums t.party.files = [1, 2] ∧
    (recovery (hostWith fun _ => 5).hashing.granting).Always
      (fun s => Sealed s.party.files ∧ Detects s.party.files)
      (recovery (hostWith fun _ => 5).hashing.granting).init (as ++ .die :: bs) := by
  obtain ⟨as, bs, -, t, -, -, hord, hrun, hlen, hnums, -⟩ :=
    exists_torn (hostWith fun _ => 5).hashing.grants_granting
  exact ⟨as, bs, t, hrun, hlen, hnums, all_sealed (hostWith fun _ => 5) _ hord⟩

end Recovery

end Yijinjing
