import Yijinjing.Journal.Page

/-!
# The chain of written frames of a page

`Chain b a rs`: the written frames of the buffer `b` from address `a` on hold the records `rs`, one
behind the other.  The cursor of a `Page` that has passed the records `rs` is `Page.after`; the scans
of `Page.h` move it along the chain (`passWrittenFrame_after`, `passToTime_after`).

A frame is only ever started where the headroom test passes (`Roomy`), so a chain ends inside the
page and every offset on the way is exact.
-/

namespace Yijinjing

open Lib

/-! ### Sizes and room -/

/-- The headroom test of `locateWritableFrame`. -/
def HasRoom (pos : ℕ) : Prop := pos + pageMinHeadroom < journalPageSize

/-- Irreducible, since the unifier would count up to the page size. -/
@[irreducible] instance (pos : ℕ) : Decidable (HasRoom pos) := by unfold HasRoom; infer_instance

/-- The frame of the record is not longer than the headroom. -/
def Record.Fits (r : Record) : Prop := r.size ≤ pageMinHeadroom

/-- The bytes of the frames of some records. -/
def framesSize (rs : List Record) : ℕ := (rs.map Record.size).sum

@[simp] theorem framesSize_nil : framesSize [] = 0 := rfl

@[simp] theorem framesSize_cons (r : Record) (rs : List Record) :
    framesSize (r :: rs) = r.size + framesSize rs := by simp [framesSize]

@[simp] theorem framesSize_append (rs ss : List Record) :
    framesSize (rs ++ ss) = framesSize rs + framesSize ss := by simp [framesSize]

theorem framesSize_take_le (rs : List Record) (j : ℕ) : framesSize (rs.take j) ≤ framesSize rs := by
  have hsplit := congrArg framesSize (List.take_append_drop j rs)
  rw [framesSize_append] at hsplit
  omega

theorem size_pos (r : Record) : basicFrameHeaderLength ≤ r.size := by unfold Record.size; omega

theorem length_le_framesSize (rs : List Record) :
    basicFrameHeaderLength * rs.length ≤ framesSize rs := by
  induction rs with
  | nil => simp
  | cons r rs ih =>
    have := size_pos r
    rw [List.length_cons, framesSize_cons, Nat.mul_succ]
    omega

/-- Frames of these records from `a` on each start where there is room, and fit. -/
def Roomy : ℕ → List Record → Prop
  | _, [] => True
  | a, r :: rs => HasRoom a ∧ r.Fits ∧ Roomy (a + r.size) rs

theorem roomy_append {a : ℕ} {rs ss : List Record} :
    Roomy a (rs ++ ss) ↔ Roomy a rs ∧ Roomy (a + framesSize rs) ss := by
  induction rs generalizing a with
  | nil => simp [Roomy]
  | cons r rs ih =>
    simp only [List.cons_append, Roomy, ih, framesSize_cons, ← Nat.add_assoc]
    tauto

theorem roomy_snoc {a : ℕ} {rs : List Record} {r : Record} :
    Roomy a (rs ++ [r]) ↔ Roomy a rs ∧ HasRoom (a + framesSize rs) ∧ r.Fits := by
  rw [roomy_append]
  simp [Roomy]

/-- A frame that starts where there is room ends inside the page, before its last byte. -/
theorem HasRoom.end_lt {a : ℕ} {r : Record} (ha : HasRoom a) (hr : r.Fits) :
    a + r.size < journalPageSize := by
  unfold HasRoom at ha
  unfold Record.Fits at hr
  omega

theorem Roomy.end_lt {a : ℕ} {rs : List Record} (h : Roomy a rs) (ha : a < journalPageSize) :
    a + framesSize rs < journalPageSize := by
  induction rs generalizing a with
  | nil => simpa using ha
  | cons r rs ih =>
    obtain ⟨h1, h2, h3⟩ := h
    have := ih h3 (h1.end_lt h2)
    rw [framesSize_cons]
    omega

/-! ### The chain -/

/-- The frame at `a` holds the record, whatever its status. -/
structure Frame.Filled (b : Mem) (a : ℕ) (r : Record) : Prop where
  length : Frame.getFrameLength b a = Int32.ofNat r.size
  data : b.load (a + basicFrameHeaderLength) r.data.length = r.data
  nano : Frame.getNano b a = r.nano
  msgType : Frame.getMsgType b a = r.msgType
  lastFlag : Frame.getLastFlag b a = r.lastFlag

/-- The records `rs` are the written frames from `a` on, one behind the other. -/
def Chain (b : Mem) : ℕ → List Record → Prop
  | _, [] => True
  | a, r :: rs =>
    Frame.getStatus b a = journalFrameStatusWritten ∧ Frame.Filled b a r ∧ Chain b (a + r.size) rs

variable {b b' : Mem} {a : ℕ} {r : Record} {rs ss : List Record}

theorem Frame.Filled.congr (h : Frame.Filled b a r)
    (heq : ∀ i, a < i → i < a + r.size → b i = b' i) : Frame.Filled b' a r := by
  have hs : r.size = basicFrameHeaderLength + r.data.length := rfl
  have h20 : basicFrameHeaderLength = 20 := rfl
  constructor
  · rw [← h.length]
    exact (Mem.loadAs_congr fun i h1 h2 => heq i (by omega) (by simp at h2; omega)).symm
  · rw [← Mem.load_congr fun i h1 h2 => heq i (by omega) (by omega)]
    exact h.data
  · rw [← h.nano]
    exact (Mem.loadAs_congr fun i h1 h2 => heq i (by omega) (by simp at h2; omega)).symm
  · rw [← h.msgType]
    exact (Mem.loadAs_congr fun i h1 h2 => heq i (by omega) (by simp at h2; omega)).symm
  · rw [← h.lastFlag]
    exact (Mem.loadAs_congr fun i h1 h2 => heq i (by omega) (by simp at h2; omega)).symm

/-- A chain depends on the bytes of its frames only. -/
theorem Chain.congr (h : Chain b a rs)
    (heq : ∀ i, a ≤ i → i < a + framesSize rs → b i = b' i) : Chain b' a rs := by
  induction rs generalizing a with
  | nil => trivial
  | cons r rs ih =>
    obtain ⟨h1, h2, h3⟩ := h
    have hr := size_pos r
    have h20 : basicFrameHeaderLength = 20 := rfl
    simp only [framesSize_cons] at heq
    refine ⟨?_, h2.congr fun i _ _ => heq i (by omega) (by omega),
      ih h3 fun i _ _ => heq i (by omega) (by omega)⟩
    exact (heq a (by omega) (by omega)).symm.trans h1

theorem chain_append : Chain b a (rs ++ ss) ↔ Chain b a rs ∧ Chain b (a + framesSize rs) ss := by
  induction rs generalizing a with
  | nil => simp [Chain]
  | cons r rs ih =>
    simp only [List.cons_append, Chain, ih, framesSize_cons, ← Nat.add_assoc]
    tauto

theorem chain_snoc : Chain b a (rs ++ [r]) ↔ Chain b a rs ∧
    Frame.getStatus b (a + framesSize rs) = journalFrameStatusWritten ∧
    Frame.Filled b (a + framesSize rs) r := by
  rw [chain_append]
  simp [Chain]

/-- The frame behind a record that does not reach over the end of the page. -/
theorem Frame.Filled.getNextEntry_of_le (h : Frame.Filled b a r) (hle : a + r.size ≤ journalPageSize) :
    Frame.getNextEntry b a = a + r.size := by
  rw [journalPageSize_eq] at hle
  unfold Frame.getNextEntry
  rw [h.length, addressAdd_ofNat (by omega) (by omega)]

/-- The frame behind a record of the page. -/
theorem Frame.Filled.getNextEntry (h : Frame.Filled b a r) (ha : HasRoom a) (hr : r.Fits) :
    Frame.getNextEntry b a = a + r.size :=
  h.getNextEntry_of_le (ha.end_lt hr).le

theorem Record.Fits.lt (hr : r.Fits) : r.size < 2 ^ 31 := by
  unfold Record.Fits at hr
  rw [pageMinHeadroom_eq] at hr
  omega

/-- What a user reads off the frame of a record is the record. -/
theorem Frame.Filled.getDataLength (h : Frame.Filled b a r) (hr : r.Fits) :
    (Frame.getDataLength b a).toInt = r.data.length := by
  have hlt := hr.lt
  have hs : r.size = basicFrameHeaderLength + r.data.length := rfl
  unfold Frame.getDataLength
  have hd : Int32.ofNat r.size - Int32.ofNat basicFrameHeaderLength = Int32.ofNat r.data.length := by
    rw [hs, Int32.ofNat_add, Int32.add_comm, Int32.add_sub_cancel]
  rw [h.length, hd]
  exact Int32.toInt_ofNat_of_lt (by omega)

theorem Frame.Filled.getData (h : Frame.Filled b a r) (hr : r.Fits) : Frame.getData b a = r.data := by
  unfold Frame.getData
  rw [h.getDataLength hr, Int.toNat_natCast]
  exact h.data

/-! ### The cursor of a page -/

/-- The page `n`, mapped at `buffer`, when the cursor has passed the records `rs`. -/
def Page.after (buffer : ℕ) (n : Int16) (rs : List Record) : Page :=
  { buffer := buffer
    frame := pageInitPosition + framesSize rs
    position := (pageInitPosition + framesSize rs : ℕ)
    frameNum := rs.length
    pageNum := n }

theorem Page.new_eq (buffer : ℕ) (n : Int16) : Page.new buffer n = Page.after buffer n [] := rfl

variable {m : ℕ} {n : Int16}

theorem Page.passFrame_of_lt (h : Frame.Filled b (pageInitPosition + framesSize rs) r)
    (hlt : pageInitPosition + framesSize rs + r.size < journalPageSize) :
    (Page.after m n rs).passFrame b = Page.after m n (rs ++ [r]) := by
  have hn := h.getNextEntry_of_le hlt.le
  have hl : (Frame.getFrameLength b (pageInitPosition + framesSize rs)).toInt = r.size := by
    rw [journalPageSize_eq] at hlt
    rw [h.length]
    exact Int32.toInt_ofNat_of_lt (by omega)
  simp only [Page.passFrame, Page.after, hn, hl, framesSize_append, framesSize_cons, framesSize_nil,
    List.length_append, List.length_cons, List.length_nil, Page.mk.injEq]
  refine ⟨trivial, by omega, by push_cast; omega, by push_cast; omega, trivial⟩

theorem Page.passFrame_after (h : Frame.Filled b (pageInitPosition + framesSize rs) r)
    (ha : HasRoom (pageInitPosition + framesSize rs)) (hr : r.Fits) :
    (Page.after m n rs).passFrame b = Page.after m n (rs ++ [r]) :=
  Page.passFrame_of_lt h (ha.end_lt hr)

/-- Passing frames along a chain. -/
theorem Page.iterate_passFrame {pre : List Record} (hc : Chain b (pageInitPosition + framesSize pre) rs)
    (hlt : pageInitPosition + framesSize pre + framesSize rs < journalPageSize) :
    (Page.passFrame b)^[rs.length] (Page.after m n pre) = Page.after m n (pre ++ rs) := by
  induction rs generalizing pre with
  | nil => simp
  | cons r rs ih =>
    obtain ⟨-, hf, hc'⟩ := hc
    rw [framesSize_cons] at hlt
    have e : pageInitPosition + framesSize (pre ++ [r]) = pageInitPosition + framesSize pre + r.size := by
      simp only [framesSize_append, framesSize_cons, framesSize_nil]
      omega
    rw [List.length_cons, Function.iterate_succ_apply, Page.passFrame_of_lt hf (by omega),
      ih (e ▸ hc') (by omega)]
    simp

/-- The scan fuel is not used up by the frames of a page. -/
theorem length_le_scanFuel (hlt : pageInitPosition + framesSize rs < journalPageSize) :
    rs.length ≤ Page.scanFuel := by
  have h2 := length_le_framesSize rs
  have h20 : basicFrameHeaderLength = 20 := rfl
  unfold Page.scanFuel
  rw [h20] at h2
  omega

theorem roomy_take (hr : Roomy a (rs ++ ss)) : Roomy a rs := (roomy_append.mp hr).1

/-- A loop that passes the frames of `ss` and stops behind them. -/
theorem Page.scan_of_lt {c : Page → Bool} {q : List Record} (hc : Chain b pageInitPosition (q ++ ss))
    (hlt : pageInitPosition + framesSize (q ++ ss) < journalPageSize)
    (hpass : ∀ qs r ts, ss = qs ++ r :: ts →
      Frame.getStatus b (pageInitPosition + framesSize (q ++ qs)) = journalFrameStatusWritten →
      Frame.Filled b (pageInitPosition + framesSize (q ++ qs)) r →
      c (Page.after m n (q ++ qs)) = true)
    (hstop : c (Page.after m n (q ++ ss)) = false) :
    whileLoop c (Page.passFrame b) Page.scanFuel (Page.after m n q) =
      some (Page.after m n (q ++ ss)) := by
  obtain ⟨hc1, hc2⟩ := chain_append.mp hc
  have hlen := length_le_scanFuel hlt
  rw [framesSize_append] at hlt
  have hend := Page.iterate_passFrame (m := m) (n := n) hc2 (by omega)
  rw [List.length_append] at hlen
  rw [← hend]
  refine whileLoop_eq (fun i hi => ?_) (hend ▸ hstop) (by omega)
  -- the cursor after `i` turns has passed the first `i` records
  have hsplit : ss = ss.take i ++ ss[i] :: ss.drop (i + 1) := by
    rw [← List.drop_eq_getElem_cons hi, List.take_append_drop]
  have hsize := framesSize_take_le ss i
  rw [hsplit] at hc2
  obtain ⟨hc3, hst, hf, -⟩ := chain_append.mp hc2
  have hi' := Page.iterate_passFrame (m := m) (n := n) hc3 (by omega)
  rw [List.length_take, Nat.min_eq_left (by omega)] at hi'
  rw [hi']
  have e : pageInitPosition + framesSize (q ++ ss.take i) =
      pageInitPosition + framesSize q + framesSize (ss.take i) := by
    rw [framesSize_append]; omega
  exact hpass _ _ _ hsplit (e ▸ hst) (e ▸ hf)

theorem Page.scan_after {c : Page → Bool} {q : List Record}
    (hc : Chain b pageInitPosition (q ++ ss)) (hr : Roomy pageInitPosition (q ++ ss))
    (hpass : ∀ qs r ts, ss = qs ++ r :: ts →
      Frame.getStatus b (pageInitPosition + framesSize (q ++ qs)) = journalFrameStatusWritten →
      Frame.Filled b (pageInitPosition + framesSize (q ++ qs)) r →
      c (Page.after m n (q ++ qs)) = true)
    (hstop : c (Page.after m n (q ++ ss)) = false) :
    whileLoop c (Page.passFrame b) Page.scanFuel (Page.after m n q) =
      some (Page.after m n (q ++ ss)) :=
  Page.scan_of_lt hc (hr.end_lt (by decide)) hpass hstop

/-- `passWrittenFrame` goes to the end of the chain. -/
theorem Page.passWrittenFrame_of_lt {pre : List Record} (hc : Chain b pageInitPosition (pre ++ ss))
    (hlt : pageInitPosition + framesSize (pre ++ ss) < journalPageSize)
    (hend : Frame.getStatus b (pageInitPosition + framesSize (pre ++ ss)) ≠ journalFrameStatusWritten) :
    (Page.after m n pre).passWrittenFrame b = some (Page.after m n (pre ++ ss)) := by
  refine Page.scan_of_lt hc hlt (fun qs r ts _ hst _ => ?_) ?_
  · simpa [Page.getCurStatus, Page.after] using hst
  · simpa [Page.getCurStatus, Page.after] using hend

theorem Page.passWrittenFrame_after {pre : List Record} (hc : Chain b pageInitPosition (pre ++ ss))
    (hr : Roomy pageInitPosition (pre ++ ss))
    (hend : Frame.getStatus b (pageInitPosition + framesSize (pre ++ ss)) ≠ journalFrameStatusWritten) :
    (Page.after m n pre).passWrittenFrame b = some (Page.after m n (pre ++ ss)) :=
  Page.passWrittenFrame_of_lt hc (hr.end_lt (by decide)) hend

/-- `passToTime` goes to the first record that is not older than the time, or to the end. -/
theorem Page.passToTime_after {time : Int64} {t : List Record}
    (hc : Chain b pageInitPosition (ss ++ t)) (hr : Roomy pageInitPosition (ss ++ t))
    (hend : Frame.getStatus b (pageInitPosition + framesSize (ss ++ t)) ≠ journalFrameStatusWritten)
    (hss : ∀ r ∈ ss, r.nano < time) (hts : ∀ r ∈ t.head?, ¬ r.nano < time) :
    (Page.after m n []).passToTime b time = some (Page.after m n ss) := by
  obtain ⟨hc1, hc2⟩ := chain_append.mp hc
  refine Page.scan_after (q := []) hc1 (roomy_take hr) (fun qs r us hqs hst hf => ?_) ?_
  · have hnano := hss r (by rw [hqs]; simp)
    have hf' : Frame.getNano b (pageInitPosition + framesSize qs) = r.nano := hf.nano
    have hst' : Frame.getStatus b (pageInitPosition + framesSize qs) = journalFrameStatusWritten := hst
    simp [Page.getCurStatus, Page.after, hst', hf', hnano]
  · rcases t with _ | ⟨r, us⟩
    · rw [List.append_nil] at hend
      simp [Page.getCurStatus, Page.after, hend]
    · have hold : ¬ r.nano < time := hts r (by simp)
      simp [Page.getCurStatus, Page.after, hc2.2.1.nano, hold]

end Yijinjing
