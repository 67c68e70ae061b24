import Yijinjing.Journal.Footprint
import Yijinjing.Journal.PageChange

/-!
# The books of the pages

A page keeps books of its frames: where they end, and, once it is closed, how many they are and where
its PAGE_END lies.  `Booked b rs` says that the books of a buffer with the frames `rs` are right, whatever
the number of the page is.  `Enters` is what one store of a writer may do to them, and `Entered` a list of
effects that does so: frames are only added, their bytes lie in the page and a PAGE_END goes behind them.
-/

namespace Yijinjing

open Lib

/-! ### The books of one page -/

/-- The written frames of the page are `rs`, and they end inside it.  If it is closed, there was no room
for another one, and the header has their number and the offset of PAGE_END. -/
structure Booked (b : Mem) (rs : List Record) : Prop where
  chain : Chain b pageInitPosition rs
  end_lt : pageInitPosition + framesSize rs < journalPageSize
  status : Frame.getStatus b (pageInitPosition + framesSize rs) = journalFrameStatusRaw ∨
    Frame.getStatus b (pageInitPosition + framesSize rs) = journalFrameStatusPageEnd
  frameNum : Frame.getStatus b (pageInitPosition + framesSize rs) = journalFrameStatusPageEnd →
    PageHeader.frameNum b = Int32.ofNat rs.length
  lastPos : Frame.getStatus b (pageInitPosition + framesSize rs) = journalFrameStatusPageEnd →
    PageHeader.lastPos b = Int32.ofNat (pageInitPosition + framesSize rs)
  full : Frame.getStatus b (pageInitPosition + framesSize rs) = journalFrameStatusPageEnd →
    ¬ HasRoom (pageInitPosition + framesSize rs)

variable {b b' : Mem} {rs : List Record} {r : Record} {a : ℕ} {h : Host} {n : Int16} {f : Mem → Mem}

theorem Booked.zeroPage : Booked zeroPage [] where
  chain := trivial
  end_lt := by decide
  status := .inl rfl
  frameNum hend := absurd hend (by decide)
  lastPos hend := absurd hend (by decide)
  full hend := absurd hend (by decide)

theorem Booked.not_written (hb : Booked b rs) :
    Frame.getStatus b (pageInitPosition + framesSize rs) ≠ journalFrameStatusWritten := by
  rcases hb.status with hst | hst <;> rw [hst] <;> decide

/-- The books are the two header fields, the frames and the status behind them. -/
theorem Booked.congr (hb : Booked b rs) (heq : ∀ i, 49 ≤ i → i < 57 ∨ 137 ≤ i →
    i ≤ pageInitPosition + framesSize rs → b i = b' i) : Booked b' rs := by
  have h137 : pageInitPosition = 137 := rfl
  have hst : Frame.getStatus b' (pageInitPosition + framesSize rs) =
      Frame.getStatus b (pageInitPosition + framesSize rs) :=
    (heq _ (by omega) (.inr (by omega)) (Nat.le_refl _)).symm
  refine ⟨hb.chain.congr fun i h1 h2 => heq i (by omega) (.inr (by omega)) (by omega), hb.end_lt, ?_, ?_, ?_, ?_⟩
  · rw [hst]
    exact hb.status
  · rw [hst]
    intro hend
    rw [← hb.frameNum hend]
    exact (Mem.loadAs_congr fun i h1 h2 => by simp at h2; exact heq i (by omega) (.inl (by omega)) (by omega)).symm
  · rw [hst]
    intro hend
    rw [← hb.lastPos hend]
    exact (Mem.loadAs_congr fun i h1 h2 => by simp at h2; exact heq i (by omega) (.inl (by omega)) (by omega)).symm
  · rw [hst]
    exact hb.full

/-! ### Stores into one page -/

theorem Booked.exec_field {s : FrameStore} (hb : Booked b rs) (hs : s.IsField) :
    Booked (s.exec (pageInitPosition + framesSize rs) b) rs :=
  hb.congr fun _ _ _ hi => (hs.outside hi).symm

/-- The status behind the frame that is being written. -/
theorem Booked.exec_nextStatus (hb : Booked b rs) {v : UInt8}
    (hnext : pageInitPosition + framesSize rs < Frame.getNextEntry b (pageInitPosition + framesSize rs)) :
    Booked ((FrameStore.nextStatus v).exec (pageInitPosition + framesSize rs) b) rs :=
  hb.congr fun _ _ _ hi => (b.storeAs_outside _ (by omega)).symm

/-- The frame behind the last one becomes WRITTEN. -/
theorem Booked.exec_written (hb : Booked b rs) (hf : Frame.Filled b (pageInitPosition + framesSize rs) r)
    (hlt : pageInitPosition + framesSize rs + r.size < journalPageSize)
    (hraw : Frame.getStatus b (pageInitPosition + framesSize rs + r.size) = journalFrameStatusRaw) :
    Booked ((FrameStore.status journalFrameStatusWritten).exec (pageInitPosition + framesSize rs) b)
      (rs ++ [r]) := by
  have hpos := size_pos r
  have h20 : basicFrameHeaderLength = 20 := rfl
  have hout : ∀ i, i ≠ pageInitPosition + framesSize rs →
      (FrameStore.status journalFrameStatusWritten).exec (pageInitPosition + framesSize rs) b i = b i :=
    fun i hi => b.storeAs_outside _ (by simp; omega)
  have hend : pageInitPosition + framesSize (rs ++ [r]) = pageInitPosition + framesSize rs + r.size := by
    simp [Nat.add_assoc]
  have hst : Frame.getStatus ((FrameStore.status journalFrameStatusWritten).exec
      (pageInitPosition + framesSize rs) b) (pageInitPosition + framesSize (rs ++ [r])) =
        journalFrameStatusRaw := by
    rw [hend, ← hraw]
    exact hout _ (by omega)
  refine ⟨?_, hend ▸ hlt, .inl hst, fun hclosed => ?_, fun hclosed => ?_, fun hclosed => ?_⟩
  · refine chain_snoc.mpr ⟨hb.chain.congr fun i _ hi => (hout i (by omega)).symm, ?_, ?_⟩
    · exact b.storeAs_byte _ _
    · exact hf.congr fun i hi _ => (hout i (by omega)).symm
  all_goals exact absurd (hst.symm.trans hclosed) (by decide)

/-- The header fields of a closed page are stored again as they are. -/
theorem Booked.exec_closing (hb : Booked b rs) {s : HeaderStore} {nano : Int64}
    (hs : s ∈ [HeaderStore.closeNano nano, .frameNum (Int32.ofNat rs.length),
      .lastPos (Int32.ofNat (pageInitPosition + framesSize rs))]) : Booked (s.exec b) rs := by
  have h137 : pageInitPosition = 137 := rfl
  simp only [List.mem_cons, List.not_mem_nil, or_false] at hs
  rcases hs with rfl | rfl | rfl
  · exact hb.congr fun i h1 _ _ => (b.storeAs_outside _ (by simp; omega)).symm
  · have hout : ∀ i, i < 49 ∨ 53 ≤ i → HeaderStore.exec b (.frameNum (Int32.ofNat rs.length)) i = b i :=
      fun i hi => b.storeAs_outside _ (by simp; omega)
    have hst := hout (pageInitPosition + framesSize rs) (by omega)
    refine ⟨hb.chain.congr fun i _ _ => (hout i (by omega)).symm, hb.end_lt, ?_, ?_, ?_, ?_⟩
    · exact hb.status.imp hst.trans hst.trans
    · exact fun _ => b.loadAs_storeAs 49 (Int32.ofNat rs.length)
    · intro hend
      rw [← hb.lastPos (hst.symm.trans hend)]
      exact Mem.loadAs_congr fun i _ _ => hout i (by omega)
    · exact fun hend => hb.full (hst.symm.trans hend)
  · have hout : ∀ i, i < 53 ∨ 57 ≤ i →
        HeaderStore.exec b (.lastPos (Int32.ofNat (pageInitPosition + framesSize rs))) i = b i :=
      fun i hi => b.storeAs_outside _ (by simp; omega)
    have hst := hout (pageInitPosition + framesSize rs) (by omega)
    refine ⟨hb.chain.congr fun i _ _ => (hout i (by omega)).symm, hb.end_lt, ?_, ?_, ?_, ?_⟩
    · exact hb.status.imp hst.trans hst.trans
    · intro hend
      rw [← hb.frameNum (hst.symm.trans hend)]
      exact Mem.loadAs_congr fun i _ h2 => hout i (by simp at h2; omega)
    · exact fun _ => b.loadAs_storeAs 53 (Int32.ofNat (pageInitPosition + framesSize rs))
    · exact fun hend => hb.full (hst.symm.trans hend)

/-- PAGE_END behind the last frame, when the header has been stored. -/
theorem Booked.exec_pageEnd (hb : Booked b rs) (hnum : PageHeader.frameNum b = Int32.ofNat rs.length)
    (hpos : PageHeader.lastPos b = Int32.ofNat (pageInitPosition + framesSize rs))
    (hfull : ¬ HasRoom (pageInitPosition + framesSize rs)) :
    Booked ((FrameStore.status journalFrameStatusPageEnd).exec (pageInitPosition + framesSize rs) b) rs := by
  have h137 : pageInitPosition = 137 := rfl
  have hout : ∀ i, i ≠ pageInitPosition + framesSize rs →
      (FrameStore.status journalFrameStatusPageEnd).exec (pageInitPosition + framesSize rs) b i = b i :=
    fun i hi => b.storeAs_outside _ (by simp; omega)
  refine ⟨hb.chain.congr fun i _ hi => (hout i (by omega)).symm, hb.end_lt, .inr (b.storeAs_byte _ _),
    fun _ => ?_, fun _ => ?_, fun _ => hfull⟩
  · rw [← hnum]
    exact Mem.loadAs_congr fun i _ h2 => hout i (by simp at h2; omega)
  · rw [← hpos]
    exact Mem.loadAs_congr fun i _ h2 => hout i (by simp at h2; omega)

/-- The zero at the last byte: at most a page that ends right there is open again. -/
theorem Booked.exec_lastByte (hb : Booked b rs) : Booked (b.storeAs (journalPageSize - 1) (0 : UInt8)) rs := by
  have hlt := hb.end_lt
  have hp := journalPageSize_eq
  have h137 : pageInitPosition = 137 := rfl
  rcases Nat.lt_or_ge (pageInitPosition + framesSize rs) (journalPageSize - 1) with hbefore | hat
  · exact hb.congr fun i _ _ hi => (b.storeAs_outside _ (.inl (by omega))).symm
  · have hend : pageInitPosition + framesSize rs = journalPageSize - 1 := by omega
    have hst : Frame.getStatus (b.storeAs (journalPageSize - 1) (0 : UInt8)) (pageInitPosition + framesSize rs) =
        journalFrameStatusRaw := by
      rw [hend]
      exact b.storeAs_byte _ _
    refine ⟨hb.chain.congr fun i _ hi => (b.storeAs_outside _ (.inl (by omega))).symm, hb.end_lt, .inl hst,
      fun hclosed => ?_, fun hclosed => ?_, fun hclosed => ?_⟩
    all_goals exact absurd (hst.symm.trans hclosed) (by decide)

/-- The stores that initialize a page do not touch its books. -/
theorem Booked.exec_initStore (hb : Booked b rs) {s : HeaderStore} {t : Int64} (hs : s ∈ initStores h n t) :
    Booked (s.exec b) rs := by
  have hname := initStores_name hs
  simp only [initStores, List.cons_append, List.nil_append, List.mem_cons, List.not_mem_nil, or_false] at hs
  refine hb.congr fun i h1 h2 _ => ?_
  rcases hs with rfl | rfl | rfl | rfl | rfl | rfl
  · have := hname _ rfl
    exact (b.store_outside (by omega)).symm
  all_goals exact (b.storeAs_outside _ (by simp; omega)).symm

/-! ### The books of all pages -/

/-- The frames of every page. -/
abbrev Rows := Int16 → List Record

/-- The books of all pages are right; a page file that is not there reads like a new one. -/
def AllBooked (fs : Files) (rows : Rows) : Prop := ∀ n, Booked (fs.buffer n) (rows n)

variable {fs fs' : Files} {rows rows' : Rows} {es : List Effect} {e : Effect}

theorem AllBooked.empty : AllBooked ∅ fun _ => [] := fun _ => .zeroPage

theorem AllBooked.create (hk : AllBooked fs rows) (n : Int16) : AllBooked (Effect.exec fs (.create n)) rows := by
  intro m
  rw [Files.buffer_create]
  exact hk m

/-- A store that leaves the frames of its page as they are. -/
theorem AllBooked.update (hk : AllBooked fs rows) (hf : Booked (f (fs.buffer n)) (rows n)) :
    AllBooked (fs.update n f) rows := by
  intro m
  by_cases hmn : m = n
  · subst hmn
    cases hb : fs.lookup m with
    | none =>
      have hsame : fs.update m f = fs := by
        unfold Files.update
        rw [hb]
      rw [hsame]
      exact hk m
    | some b =>
      rw [Files.buffer_update_self hb, ← Files.buffer_of_lookup hb]
      exact hf
  · rw [Files.buffer_update_ne _ hmn]
    exact hk m

/-- A store that makes the frames of its page others. -/
theorem AllBooked.update_row (hk : AllBooked fs rows) (hn : (fs.lookup n).isSome)
    (hf : Booked (f (fs.buffer n)) rs) : AllBooked (fs.update n f) (Function.update rows n rs) := by
  obtain ⟨b, hb⟩ := Option.isSome_iff_exists.mp hn
  intro m
  by_cases hmn : m = n
  · subst hmn
    rw [Files.buffer_update_self hb, Function.update_self, ← Files.buffer_of_lookup hb]
    exact hf
  · rw [Files.buffer_update_ne _ hmn, Function.update_of_ne hmn]
    exact hk m

/-! ### What a writer enters -/

/-- The bytes that a store into a frame writes lie in the page, behind its header. -/
def Effect.Inside (fs : Files) : Effect → Prop
  | .frame n a s => pageInitPosition ≤ s.address (fs.buffer n) a ∧
      s.address (fs.buffer n) a + s.bytes.length ≤ journalPageSize
  | _ => True

/-- What one effect of a writer does to the frames. -/
structure Enters (fs : Files) (rows : Rows) (e : Effect) (rows' : Rows) : Prop where
  grows : ∀ n, rows n <+: rows' n
  inside : e.Inside fs
  closes : ∀ n a, e = .frame n a (.status journalFrameStatusPageEnd) →
    a = pageInitPosition + framesSize (rows' n) ∧
      Frame.getStatus ((e.exec fs).buffer n) a = journalFrameStatusPageEnd

/-- Effects of a writer that keep the books. -/
abbrev Entered (fs : Files) (rows : Rows) (es : List Effect) (fs' : Files) (rows' : Rows) : Prop :=
  Script Effect.exec AllBooked Enters fs rows es fs' rows'

/-- An effect that is no store into a frame. -/
theorem Enters.other (he : ∀ n a s, e ≠ .frame n a s) : Enters fs rows e rows := by
  refine ⟨fun _ => List.prefix_rfl, ?_, fun n a hpage => absurd hpage (he n a _)⟩
  cases e with
  | frame n a s => exact absurd rfl (he n a s)
  | _ => trivial

theorem Entered.grows (he : Entered fs rows es fs' rows') (n : Int16) : rows n <+: rows' n := by
  induction he with
  | done _ => exact List.prefix_rfl
  | step _ hn _ ih => exact (hn.grows n).trans ih

/-! ### Opening a page -/

theorem entered_create (hk : AllBooked fs rows) (n : Int16) :
    Entered fs rows [.create n] (execAll fs [.create n]) rows :=
  .single hk (.other fun _ _ _ => by simp) (hk.create n)

theorem entered_load (hk : AllBooked fs rows) (n : Int16) :
    Entered fs rows (loadEffects n) (execAll fs (loadEffects n)) rows :=
  .step hk (.other fun _ _ _ => by simp) (.single (hk.create n) (.other fun _ _ _ => by simp)
    ((hk.create n).update (hk.create n n).exec_lastByte))

theorem entered_init {t : Int64} (hk : AllBooked fs rows) {ss : List HeaderStore}
    (hss : ∀ s ∈ ss, s ∈ initStores h n t) :
    Entered fs rows (ss.map (.header n)) (execAll fs (ss.map (.header n))) rows := by
  refine (Script.of_invariant _ _ _ _ (AllBooked · rows) (fun _ hm => hm) (fun e he m hm => ?_) hk).1
  obtain ⟨s, hs, rfl⟩ := List.mem_map.mp he
  exact ⟨.other fun _ _ _ => by simp, hm.update ((hm n).exec_initStore (hss s hs))⟩

/-! ### Writing a frame -/

/-- A field lies in the header of its frame, or is the data. -/
theorem FrameStore.IsField.inside {s : FrameStore} (hs : s.IsField) (ha : pageInitPosition ≤ a)
    (hlt : a + basicFrameHeaderLength ≤ journalPageSize)
    (hdata : ∀ bs, s = .data bs → a + basicFrameHeaderLength + bs.length ≤ journalPageSize) :
    Effect.Inside fs (.frame n a s) := by
  have h20 : basicFrameHeaderLength = 20 := rfl
  cases s with
  | nextStatus v => exact hs.elim
  | status v => exact hs.elim
  | data bs =>
    have := hdata bs rfl
    exact ⟨by simp only [address]; omega, by simp only [address, bytes]; omega⟩
  | _ => exact ⟨by simp only [address]; omega, by simp only [address, bytes]; simp; omega⟩

/-- The stores into the fields of the frame behind the last one. -/
theorem entered_fields {ss : List FrameStore} (hk : AllBooked fs rows) (hss : ∀ s ∈ ss, s.IsField)
    (hlt : pageInitPosition + framesSize (rows n) + basicFrameHeaderLength ≤ journalPageSize)
    (hdata : ∀ bs, .data bs ∈ ss →
      pageInitPosition + framesSize (rows n) + basicFrameHeaderLength + bs.length ≤ journalPageSize) :
    Entered fs rows (ss.map (.frame n (pageInitPosition + framesSize (rows n))))
      (execAll fs (ss.map (.frame n (pageInitPosition + framesSize (rows n))))) rows := by
  refine (Script.of_invariant _ _ _ _ (AllBooked · rows) (fun _ hm => hm) (fun e he m hm => ?_) hk).1
  obtain ⟨s, hs, rfl⟩ := List.mem_map.mp he
  have hfield := hss s hs
  refine ⟨⟨fun _ => List.prefix_rfl, ?_, ?_⟩, hm.update ((hm n).exec_field hfield)⟩
  · exact hfield.inside (by omega) hlt fun bs hbs => hdata bs (hbs ▸ hs)
  · rintro m a heq
    cases heq
    exact hfield.elim

/-- `setStatusWritten` on the frame behind the last one. -/
theorem entered_written (hk : AllBooked fs rows) (hn : (fs.lookup n).isSome)
    (hf : Frame.Filled (fs.buffer n) (pageInitPosition + framesSize (rows n)) r)
    (hlt : pageInitPosition + framesSize (rows n) + r.size < journalPageSize) :
    Entered fs rows (Frame.setStatusWritten.map (.frame n (pageInitPosition + framesSize (rows n))))
      (execAll fs (Frame.setStatusWritten.map (.frame n (pageInitPosition + framesSize (rows n)))))
      (Function.update rows n (rows n ++ [r])) := by
  obtain ⟨b, hb⟩ := Option.isSome_iff_exists.mp hn
  have hbuf := Files.buffer_of_lookup hb
  have hpos := size_pos r
  have h20 : basicFrameHeaderLength = 20 := rfl
  have hnext := hf.getNextEntry_of_le hlt.le
  let a := pageInitPosition + framesSize (rows n)
  -- the status behind the frame
  let b₁ := (FrameStore.nextStatus journalFrameStatusRaw).exec a (fs.buffer n)
  have hk₁ : AllBooked (Effect.exec fs (.frame n a (.nextStatus journalFrameStatusRaw))) rows :=
    hk.update ((hk n).exec_nextStatus (by omega))
  have hbuf₁ : (Effect.exec fs (.frame n a (.nextStatus journalFrameStatusRaw))).buffer n = b₁ := by
    simp only [Effect.exec]
    rw [Files.buffer_update_self hb, ← hbuf]
  have hout : ∀ i, i < a + r.size → b₁ i = fs.buffer n i := by
    intro i hi
    refine (fs.buffer n).storeAs_outside _ (.inl ?_)
    rw [hnext]
    exact hi
  have hraw : Frame.getStatus b₁ (a + r.size) = journalFrameStatusRaw := by
    have hat : a + r.size = Frame.getNextEntry (fs.buffer n) a := hnext.symm
    have hb₁ : b₁ = (fs.buffer n).storeAs (Frame.getNextEntry (fs.buffer n) a) journalFrameStatusRaw := rfl
    unfold Frame.getStatus
    rw [hat, hb₁, Mem.storeAs_byte]
  -- the status of the frame itself
  have hwritten : Booked ((FrameStore.status journalFrameStatusWritten).exec a
      ((Effect.exec fs (.frame n a (.nextStatus journalFrameStatusRaw))).buffer n)) (rows n ++ [r]) := by
    refine (hk₁ n).exec_written ?_ hlt ?_
    · rw [hbuf₁]
      exact hf.congr fun i _ hi => (hout i hi).symm
    · rw [hbuf₁]
      exact hraw
  refine .step hk ⟨fun _ => List.prefix_rfl, ?_, fun _ _ heq => by cases heq⟩
    (.single hk₁ ⟨fun m => ?_, ?_, fun _ _ heq => ?_⟩ (hk₁.update_row (Effect.lookup_isSome _ hn) hwritten))
  · exact ⟨by simp only [FrameStore.address]; omega, by simp only [FrameStore.address, FrameStore.bytes]; simp; omega⟩
  · by_cases hmn : m = n
    · subst hmn
      rw [Function.update_self]
      exact List.prefix_append _ _
    · rw [Function.update_of_ne hmn]
  · exact ⟨by simp only [FrameStore.address]; omega, by simp only [FrameStore.address, FrameStore.bytes]; simp; omega⟩
  · exact absurd heq (by simp [journalFrameStatusWritten, journalFrameStatusPageEnd])

/-! ### Closing a page -/

/-- `finishPage` at the end of a page without room. -/
theorem entered_finish (hk : AllBooked fs rows) (hn : (fs.lookup n).isSome) (nano : Int64)
    (hfull : ¬ HasRoom (pageInitPosition + framesSize (rows n))) :
    Entered fs rows
      (finishEffects n (pageInitPosition + framesSize (rows n)) nano (Int32.ofNat (rows n).length)
        (Int32.ofNat (pageInitPosition + framesSize (rows n))))
      (execAll fs (finishEffects n (pageInitPosition + framesSize (rows n)) nano
        (Int32.ofNat (rows n).length) (Int32.ofNat (pageInitPosition + framesSize (rows n))))) rows := by
  let ss := [HeaderStore.closeNano nano, .frameNum (Int32.ofNat (rows n).length),
    .lastPos (Int32.ofNat (pageInitPosition + framesSize (rows n)))]
  have hheader : Entered fs rows (ss.map (.header n)) (execAll fs (ss.map (.header n))) rows := by
    refine (Script.of_invariant _ _ _ _ (AllBooked · rows) (fun _ hm => hm) (fun e he m hm => ?_) hk).1
    obtain ⟨s, hs, rfl⟩ := List.mem_map.mp he
    exact ⟨.other fun _ _ _ => by simp, hm.update ((hm n).exec_closing hs)⟩
  have hk₁ := hheader.rep_end
  obtain ⟨b, hb⟩ := Option.isSome_iff_exists.mp hn
  have hlookup : (execAll fs (ss.map (.header n))).lookup n = some (ss.foldl HeaderStore.exec b) := by
    rw [lookup_execAll_header, hb]
    rfl
  have hbuf := Files.buffer_of_lookup hlookup
  have hpage : Booked ((FrameStore.status journalFrameStatusPageEnd).exec
      (pageInitPosition + framesSize (rows n)) ((execAll fs (ss.map (.header n))).buffer n)) (rows n) := by
    refine (hk₁ n).exec_pageEnd ?_ ?_ hfull
    · rw [hbuf]
      simp (disch := simp) only [ss, List.foldl_cons, List.foldl_nil, HeaderStore.exec, PageHeader.frameNum,
        Mem.loadAs_storeAs_disjoint, Mem.loadAs_storeAs]
    · rw [hbuf]
      simp only [ss, List.foldl_cons, List.foldl_nil, HeaderStore.exec, PageHeader.lastPos, Mem.loadAs_storeAs]
  have hlt := (hk n).end_lt
  unfold finishEffects
  rw [execAll_append]
  refine hheader.append (.single hk₁ ⟨fun _ => List.prefix_rfl, ?_, fun m a heq => ?_⟩ (hk₁.update hpage))
  · exact ⟨by simp only [FrameStore.address]; omega, by simp only [FrameStore.address, FrameStore.bytes]; simp; omega⟩
  · cases heq
    refine ⟨rfl, ?_⟩
    simp only [Effect.exec]
    rw [Files.buffer_update_self hlookup]
    exact (ss.foldl HeaderStore.exec b).storeAs_byte _ _

end Yijinjing
