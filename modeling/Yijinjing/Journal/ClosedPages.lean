import Yijinjing.Lib.Transition
import Yijinjing.Journal.Party
import Yijinjing.Journal.WriterBooks

/-!
# The books of closed pages

The runs of the writers of one journal: sessions that make a `JournalWriter`, write by either write path,
seek the end again and end, or die between any two stores, with page requests that are answered in every
way.  As long as no frame reaches over the end of its page, the books of all pages are right
(`Booked`), and so is the cursor of the writer: its address, its position and its frame number say the
same.
-/

namespace Yijinjing

open Lib Prog

namespace PageBooks

/-! ### The system -/

/-- The calls of a writer and its user. -/
inductive Call where
  | create
  | seekEnd
  | writeFrame (data : List UInt8) (msgType : Int16) (lastFlag : UInt8)
  | locateFrame
  /-- the user copies a payload, or a part of one, to the located frame -/
  | copyData (data : List UInt8)
  | passFrame (length : ℕ) (msgType : Int16) (lastFlag : UInt8)

structure State where
  /-- the page files and the writer -/
  env : Env
  isOpen : Bool
  /-- the frame that has been located and not yet passed -/
  located : Option ℕ

inductive Action where
  | call (h : Host) (c : Call)
  /-- the process dies in a call, when so many of its stores have been made -/
  | die (h : Host) (c : Call) (stores : ℕ)
  | close

/-- The program of a call, with the frame that is located when it returns. -/
def Call.prog (h : Host) (located : Option ℕ) : Call → JournalM (Option ℕ)
  | .create => do
    JournalWriter.create h
    return none
  | .seekEnd => do
    JournalWriter.seekEnd h
    return none
  | .writeFrame data msgType lastFlag => do
    let _ ← JournalWriter.writeFrame h data msgType lastFlag
    return none
  | .locateFrame => do
    let frame ← JournalWriter.locateFrame h
    return some frame
  | .copyData data => do
    match located with
    | some frame =>
      JournalWriter.copyData frame data
      return some frame
    | none => return none
  | .passFrame length msgType lastFlag => do
    match located with
    | some frame =>
      JournalWriter.passFrame h frame length msgType lastFlag
      return none
    | none => return none

/-- A writer is made when there is none; a frame is filled and passed when it has been located. -/
def Call.allowed (s : State) : Call → Bool
  | .create => !s.isOpen
  | .copyData _ => s.isOpen && s.located.isSome
  | .passFrame _ _ _ => s.isOpen && s.located.isSome
  | _ => s.isOpen

/-- After the call. -/
def State.returned (s : State) : Except Error (Option ℕ) × Env → State
  | (.ok located, t) => { env := t, isOpen := true, located := located }
  | (.error _, t) => { env := t, isOpen := s.isOpen, located := none }

/-- Only the first stores of a call that leaves `t` have been made. -/
def State.died (s : State) (t : Env) (stores : ℕ) : State :=
  let trace := t.trace.take (s.env.trace.length + stores)
  { env := { t with files := execAll ∅ trace, trace := trace, journal := Journal.create true }
    isOpen := false
    located := none }

def step (s : State) : Action → Option State
  | .call h c => if c.allowed s then some (s.returned (Prog.exec (c.prog h s.located) s.env)) else none
  | .die h c stores =>
    if c.allowed s then some (s.died (Prog.exec (c.prog h s.located) s.env).2 stores) else none
  | .close => if s.isOpen then some { s with isOpen := false, located := none } else none

/-- No page files, and no writer yet. -/
def start : State where
  env := { JournalReader.start ∅ with journal := Journal.create true }
  isOpen := false
  located := none

def pageBooks : System State Action := ⟨start, step⟩

/-! ### What is asked of the books -/

/-- The page is closed, and its header says how many frames it has and where its PAGE_END lies. -/
structure ClosedExactly (b : Mem) (rs : List Record) : Prop where
  pageEnd : Frame.getStatus b (pageInitPosition + framesSize rs) = journalFrameStatusPageEnd
  frameNum : (PageHeader.frameNum b).toInt = rs.length
  lastPos : (PageHeader.lastPos b).toInt = (pageInitPosition + framesSize rs : ℕ)

/-- **The books are exact.** -/
structure Exact (s : Env) : Prop where
  /-- the three fields of the cursor stand for the frames that it has passed -/
  cursor : ∀ p, s.journal.curPage = some p → ∃ rs, Chain (s.files.buffer p.pageNum) pageInitPosition rs ∧
    p.frame = pageHeaderSize + framesSize rs ∧ p.position = p.frame ∧ p.frameNum = rs.length
  /-- the frames of every page end inside it, at an open end or at the PAGE_END of an exact header -/
  pages : ∀ n, ∃ rs, Chain (s.files.buffer n) pageInitPosition rs ∧
    pageInitPosition + framesSize rs < journalPageSize ∧
    (Frame.getStatus (s.files.buffer n) (pageInitPosition + framesSize rs) = journalFrameStatusRaw ∨
      ClosedExactly (s.files.buffer n) rs)
  /-- so did every page that was ever finished, right when its PAGE_END was stored -/
  finished : ∀ before n a after,
    s.trace = before ++ .frame n a (.status journalFrameStatusPageEnd) :: after →
    ∃ rs, Chain ((execAll ∅ (before ++ [.frame n a (.status journalFrameStatusPageEnd)])).buffer n)
        pageInitPosition rs ∧ a = pageInitPosition + framesSize rs ∧ a < journalPageSize ∧
      ClosedExactly ((execAll ∅ (before ++ [.frame n a (.status journalFrameStatusPageEnd)])).buffer n) rs

/-- The frame of the call ends inside the page. -/
def Call.EndsInside (s : State) : Call → Prop
  | .writeFrame data _ _ => s.env.nextPosition + basicFrameHeaderLength + data.length < journalPageSize
  | .copyData data => ∀ a, s.located = some a → a + basicFrameHeaderLength + data.length < journalPageSize
  | .passFrame length _ _ => ∀ a, s.located = some a → a + basicFrameHeaderLength + length < journalPageSize
  | _ => True

def EndsInside (s : State) : Action → Prop
  | .call _ c => c.EndsInside s
  | .die _ c _ => c.EndsInside s
  | .close => True

/-- The frame of the call is not longer than the headroom. -/
def Call.Admissible : Call → Prop
  | .writeFrame data _ _ => Party.Admissible data
  | .copyData data => Party.Admissible data
  | .passFrame length _ _ => basicFrameHeaderLength + length ≤ pageMinHeadroom
  | _ => True

def Action.Admissible : Action → Prop
  | .call _ c => c.Admissible
  | .die _ c _ => c.Admissible
  | .close => True

/-! ### The invariant -/

structure Inv (s : State) (rows : Rows) : Prop where
  sound : SoundAt s.env rows
  located : ∀ a, s.located = some a → FrameLocated s.env rows a

variable {h : Host} {s t : State} {e : Env} {rows : Rows} {c : Call} {a : Action} {b : Mem} {rs : List Record}

theorem Inv.start : Inv start fun _ => [] where
  sound := ⟨.done .empty, rfl, fun p hp => by cases hp⟩
  located a ha := by cases ha

/-- **One call**, whether it returns or throws. -/
theorem Inv.prog (hi : Inv s rows) (hc : c.EndsInside s) :
    Post (c.prog h s.located) s.env
      (fun located t => ∃ rows', SoundAt t rows' ∧ ∀ a, located = some a → FrameLocated t rows' a)
      fun _ t => ∃ rows', SoundAt t rows' := by
  have nothing : ∀ {t rows'}, SoundAt t rows' →
      ∃ rows', SoundAt t rows' ∧ ∀ a, (none : Option ℕ) = some a → FrameLocated t rows' a :=
    fun ht => ⟨_, ht, fun a ha => by cases ha⟩
  cases c with
  | create =>
    refine .bind ((JournalWriter.create_sound hi.sound).mono (fun _ t ht => ?_) fun _ t ht => ⟨rows, ht⟩)
    exact (Runs.pure _ t).post (nothing ht)
  | seekEnd =>
    refine .bind ((JournalWriter.seekEnd_sound hi.sound).mono (fun _ t ht => ?_) fun _ t ht => ⟨rows, ht⟩)
    exact (Runs.pure _ t).post (nothing ht)
  | writeFrame data msgType lastFlag =>
    refine .bind ((JournalWriter.writeFrame_sound hi.sound msgType lastFlag hc).mono (fun _ t ht => ?_)
      fun _ t ht => ht)
    obtain ⟨rows', ht⟩ := ht
    exact (Runs.pure _ t).post (nothing ht)
  | locateFrame =>
    refine .bind ((JournalWriter.locateFrame_sound hi.sound).mono (fun a t ht => ?_) fun _ t ht => ⟨rows, ht⟩)
    refine (Runs.pure _ t).post ⟨rows, ht.sound, fun a' ha' => ?_⟩
    exact Option.some.inj ha' ▸ ht
  | copyData data =>
    unfold Call.prog
    cases hl : s.located with
    | none => exact (Runs.pure _ s.env).post (nothing hi.sound)
    | some a =>
      refine .bind ((JournalWriter.copyData_sound (hi.located a hl) (Nat.le_of_lt (hc a hl))).mono
        (fun _ t ht => ?_) fun _ t ht => ⟨rows, ht⟩)
      refine (Runs.pure _ t).post ⟨rows, ht.sound, fun a' ha' => ?_⟩
      exact Option.some.inj ha' ▸ ht
  | passFrame length msgType lastFlag =>
    unfold Call.prog
    cases hl : s.located with
    | none => exact (Runs.pure _ s.env).post (nothing hi.sound)
    | some a =>
      refine .bind ((JournalWriter.passFrame_sound (hi.located a hl) msgType lastFlag (hc a hl)).mono
        (fun _ t ht => ?_) fun _ t ht => ht)
      obtain ⟨rows', ht⟩ := ht
      exact (Runs.pure _ t).post (nothing ht)

/-- A process that dies leaves what it has stored so far. -/
theorem Inv.died (he : SoundAt e rows) (s : State) (stores : ℕ) : ∃ rows', Inv (s.died e stores) rows' := by
  have hsplit := he.entered
  rw [← List.take_append_drop (s.env.trace.length + stores) e.trace] at hsplit
  obtain ⟨fs, rows', hs, -⟩ := hsplit.split
  obtain rfl : execAll ∅ (e.trace.take (s.env.trace.length + stores)) = fs := hs.exec_end
  exact ⟨rows', ⟨hs, rfl, fun p hp => by cases hp⟩, fun a ha => by cases ha⟩

/-- **One step**: the books stay right if the frame ends inside the page. -/
theorem Inv.step (hi : Inv s rows) (hc : EndsInside s a) (ht : step s a = some t) : ∃ rows', Inv t rows' := by
  cases a with
  | call h c =>
    simp only [PageBooks.step] at ht
    split at ht
    · obtain rfl := Option.some.inj ht
      have hpost := hi.prog (h := h) hc
      rcases runs_or_throws (c.prog h s.located) s.env with ⟨located, t, hx⟩ | ⟨e, t, hx⟩
      · obtain ⟨rows', hsound, hloc⟩ := hpost.of_runs hx
        have hexec : Prog.exec (c.prog h s.located) s.env = (.ok located, t) := hx
        rw [hexec]
        exact ⟨rows', hsound, hloc⟩
      · obtain ⟨rows', hsound⟩ := hpost.of_throws hx
        have hexec : Prog.exec (c.prog h s.located) s.env = (.error e, t) := hx
        rw [hexec]
        exact ⟨rows', hsound, fun a ha => by cases ha⟩
    · cases ht
  | die h c stores =>
    simp only [PageBooks.step] at ht
    split at ht
    · obtain rfl := Option.some.inj ht
      have hpost : Post (c.prog h s.located) s.env (fun _ t => ∃ rows', SoundAt t rows')
          fun _ t => ∃ rows', SoundAt t rows' := by
        refine (hi.prog hc).mono (fun _ _ hx => ?_) fun _ _ ht => ht
        obtain ⟨rows', hsound, -⟩ := hx
        exact ⟨rows', hsound⟩
      obtain ⟨rows', hsound⟩ := hpost.at_end
      exact Inv.died hsound s stores
    · cases ht
  | close =>
    simp only [PageBooks.step] at ht
    split at ht
    · obtain rfl := Option.some.inj ht
      exact ⟨rows, hi.sound, fun a ha => by cases ha⟩
    · cases ht

/-! ### The books are exact -/

theorem closedExactly_of_booked (hb : Booked b rs)
    (hend : Frame.getStatus b (pageInitPosition + framesSize rs) = journalFrameStatusPageEnd) :
    ClosedExactly b rs := by
  have hlt := hb.end_lt
  have hlen := length_le_framesSize rs
  have h20 : basicFrameHeaderLength = 20 := rfl
  rw [journalPageSize_eq] at hlt
  rw [h20] at hlen
  refine ⟨hend, ?_, ?_⟩
  · rw [hb.frameNum hend]
    exact Int32.toInt_ofNat_of_lt (by omega)
  · rw [hb.lastPos hend]
    exact Int32.toInt_ofNat_of_lt (by omega)

theorem exact_of_sound (hs : SoundAt e rows) : Exact e where
  cursor p hp := by
    obtain ⟨ss, ts, hrows, hpage⟩ := (hs.cursor p hp).passed
    have hchain := (hs.booked p.pageNum).chain
    rw [hrows] at hchain
    refine ⟨ss, (chain_append.mp hchain).1, ?_⟩
    rw [hpage]
    exact ⟨rfl, rfl, rfl⟩
  pages n := by
    have hb := hs.booked n
    exact ⟨rows n, hb.chain, hb.end_lt, hb.status.imp_right (closedExactly_of_booked hb)⟩
  finished before n a after htrace := by
    have hentered := hs.entered
    rw [htrace] at hentered
    obtain ⟨rows₁, rows₂, hnext, hk⟩ := hentered.at_effect
    obtain ⟨ha, hst⟩ := hnext.closes n a rfl
    have hfiles : execAll ∅ (before ++ [.frame n a (.status journalFrameStatusPageEnd)]) =
        Effect.exec (execAll ∅ before) (.frame n a (.status journalFrameStatusPageEnd)) := execAll_append _ _ _
    rw [hfiles]
    have hb := hk n
    have hlt := hb.end_lt
    refine ⟨rows₂ n, hb.chain, ha, by omega, closedExactly_of_booked hb ?_⟩
    rw [← ha]
    exact hst

theorem Inv.endsInside (hi : Inv s rows) (ha : a.Admissible) : EndsInside s a := by
  have hcall : ∀ c : Call, c.Admissible → c.EndsInside s := by
    intro c hc
    have hnext := hi.sound.nextPosition_lt
    have hroom : ∀ a, s.located = some a → a + pageMinHeadroom < journalPageSize := fun a hl =>
      (hi.located a hl).hasRoom
    cases c with
    | writeFrame data msgType lastFlag =>
      have hlen : basicFrameHeaderLength + data.length ≤ pageMinHeadroom := hc
      show s.env.nextPosition + basicFrameHeaderLength + data.length < journalPageSize
      omega
    | copyData data =>
      have hlen : basicFrameHeaderLength + data.length ≤ pageMinHeadroom := hc
      intro a hl
      have := hroom a hl
      omega
    | passFrame length msgType lastFlag =>
      have hlen : basicFrameHeaderLength + length ≤ pageMinHeadroom := hc
      intro a hl
      have := hroom a hl
      omega
    | _ => trivial
  cases a with
  | call h c => exact hcall c ha
  | die h c stores => exact hcall c ha
  | close => trivial

theorem eachStep_endsInside (as : List Action) (hadm : ∀ a ∈ as, a.Admissible) (hi : Inv s rows) :
    pageBooks.EachStep EndsInside s as := by
  induction as generalizing s rows with
  | nil => trivial
  | cons a as ih =>
    have ha := hi.endsInside (hadm a List.mem_cons_self)
    refine ⟨ha, fun t ht => ?_⟩
    obtain ⟨rows', hi'⟩ := hi.step ha ht
    exact ih (fun b hb => hadm b (List.mem_cons_of_mem a hb)) hi'

/-- **Closed-page bookkeeping is exact**, however the frames are split over sessions. -/
theorem books_exact (as : List Action) (hadm : ∀ a ∈ as, a.Admissible) :
    pageBooks.Always (fun s => Exact s.env) start as := by
  refine System.always_of_eachStep (I := fun s => ∃ rows, Inv s rows) (fun s a t hi hc ht => ?_)
    (fun s hi => ?_) as ⟨_, .start⟩ (eachStep_endsInside as hadm .start)
  · obtain ⟨rows, hi⟩ := hi
    exact hi.step hc ht
  · obtain ⟨rows, hi⟩ := hi
    exact exact_of_sound hi.sound

/-- Two sessions that use both write paths, and a third that dies in a write. -/
theorem books_exact_sessions : pageBooks.Always (fun s => Exact s.env) start
    [.call (hostWith Int64.ofNat) .create, .call (hostWith Int64.ofNat) (.writeFrame [1, 2, 3] 7 1), .close,
      .call (hostWith Int64.ofNat) .create, .call (hostWith Int64.ofNat) .locateFrame,
      .call (hostWith Int64.ofNat) (.copyData [4]), .call (hostWith Int64.ofNat) (.passFrame 1 7 1), .close,
      .call (hostWith Int64.ofNat) .create, .die (hostWith Int64.ofNat) (.writeFrame [5] 7 1) 3] := by
  refine books_exact _ ?_
  have h20 : basicFrameHeaderLength = 20 := rfl
  simp only [List.forall_mem_cons, Action.Admissible, Call.Admissible, Party.Admissible, List.length_cons,
    List.length_nil, true_and, List.not_mem_nil, false_implies, implies_true, and_true]
  rw [pageMinHeadroom_eq]
  omega

end PageBooks

end Yijinjing
