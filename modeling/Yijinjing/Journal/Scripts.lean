import Yijinjing.Journal.Effects

/-!
# The effects of a writer as scripts

`Next` is what one effect of a writer may do to the view: at the store of WRITTEN the record being
written comes in, while the page behind an open one is there, nothing happens but the store of
PAGE_END, and no byte of a frame or of a PAGE_END is ever changed (`Spares`).  `Publishes` is a list of
such effects.  Below, the lists that the calls of a writer are made of:
the stores of the fields of a frame, the two stores of `setStatusWritten`, the stores that open a page
and the stores of `finishPage`.
-/

namespace Yijinjing

open Lib

variable {fs fs' : Files} {v w : View} {ps : List PageLog} {p : PageLog} {b : Mem} {ρ : Option Record}
  {es : List Effect} {e : Effect} {f : Mem → Mem} {o : Bool} {i x : ℕ}

/-- The records that an effect publishes: the one being written, at the store of WRITTEN. -/
def writtenBy (ρ : Option Record) : Effect → List Record
  | .frame _ _ (.status v) => if v = journalFrameStatusWritten then ρ.toList else []
  | _ => []

theorem writtenBy_pageEnd (ρ : Option Record) (n : Int16) (a : ℕ) :
    writtenBy ρ (.frame n a (.status journalFrameStatusPageEnd)) = [] := rfl

/-- The store of PAGE_END on the last page of the view. -/
def ClosesLast (v : View) (e : Effect) : Prop :=
  ∃ a, e = .frame (pageNo (v.pages.length - 1)) a (.status journalFrameStatusPageEnd)

/-- The byte `x` of the page with index `i` belongs to a frame, or is the PAGE_END behind the frames. -/
def View.Written (v : View) (i x : ℕ) : Prop :=
  ∃ hi : i < v.pages.length, pageInitPosition ≤ x ∧
    (x < v.pages[i].endPos ∨ x = v.pages[i].endPos ∧ i + 1 < v.pages.length)

/-- The effect leaves the written bytes alone. -/
def Spares (fs : Files) (v : View) (e : Effect) : Prop :=
  ∀ i x, v.Written i x → (e.exec fs).buffer (pageNo i) x = fs.buffer (pageNo i) x

/-- What a store leaves of a page header: an initialized page stays so, and `start_nano` is stored once. -/
structure KeepsHeader (b b' : Mem) : Prop where
  inited : PageHeader.status b ≠ journalPageStatusRaw → PageHeader.status b' ≠ journalPageStatusRaw
  startNano : PageHeader.startNano b ≠ 0 → PageHeader.startNano b' = PageHeader.startNano b

def KeepsHeaders (fs : Files) (e : Effect) : Prop :=
  ∀ n, KeepsHeader (fs.buffer n) ((e.exec fs).buffer n)

/-- What one effect may do to the files and the view. -/
structure Next (ρ : Option Record) (fs : Files) (v : View) (e : Effect) (w : View) : Prop where
  grows : Grows (recordRows v.pages) (writtenBy ρ e) (recordRows w.pages)
  opening : v.opening = true → v.pages ≠ [] → (w.opening = true ∧ w.pages = v.pages) ∨ ClosesLast v e
  spares : Spares fs v e
  -- a first page that a dead writer has left is initialized again
  headers : v.pages ≠ [] → KeepsHeaders fs e

abbrev Publishes (ρ : Option Record) (fs : Files) (v : View) (es : List Effect) (fs' : Files)
    (w : View) : Prop :=
  Script Effect.exec Rep (Next ρ) fs v es fs' w

theorem Next.same (h : writtenBy ρ e = []) (hs : Spares fs v e) (hk : v.pages ≠ [] → KeepsHeaders fs e) :
    Next ρ fs v e v where
  grows := by rw [h]; exact .same _
  opening ho _ := .inl ⟨ho, rfl⟩
  spares := hs
  headers := hk

/-- In the middle of a page change the store of PAGE_END is still to come. -/
theorem Publishes.closes_mem (h : Publishes ρ fs v es fs' w) (hv : v.opening = true)
    (hne : v.pages ≠ []) (hw : w.opening = false) : ∃ e ∈ es, ClosesLast v e := by
  induction h with
  | done _ => rw [hv] at hw; cases hw
  | step _ hn _ ih =>
    rcases hn.opening hv hne with ⟨ho, hp⟩ | hc
    · obtain ⟨e', he', hc⟩ := ih ho (hp ▸ hne) hw
      refine ⟨e', List.mem_cons_of_mem _ he', ?_⟩
      unfold ClosesLast at hc ⊢
      rwa [hp] at hc
    · exact ⟨_, List.mem_cons_self .., hc⟩

/-! ### Effects that leave the written bytes alone -/

theorem Files.buffer_update_ne (fs : Files) {n m : Int16} (hne : m ≠ n) :
    (fs.update n f).buffer m = fs.buffer m := by
  unfold Files.buffer
  rw [Files.lookup_update, if_neg hne]

theorem Files.buffer_update_self {n : Int16} (hb : fs.lookup n = some b) : (fs.update n f).buffer n = f b := by
  refine Files.buffer_of_lookup ?_
  rw [Files.lookup_update, if_pos rfl, hb]
  rfl

/-- A new page file reads like one that is not there. -/
theorem Files.buffer_create (fs : Files) (n m : Int16) :
    (Effect.exec fs (.create n)).buffer m = fs.buffer m := by
  cases hb : fs.lookup n with
  | some b => rw [Files.exec_create_of_isSome (by rw [hb]; rfl)]
  | none =>
    unfold Files.buffer
    rw [Files.lookup_create hb]
    split
    · rename_i hmn
      rw [hmn, hb]
      rfl
    · rfl

theorem Spares.create (fs : Files) (v : View) (n : Int16) : Spares fs v (.create n) := by
  intro i x _
  rw [Files.buffer_create]

/-- Nothing is written yet. -/
theorem Spares.of_nil : Spares fs ⟨[], o⟩ e := by
  rintro i x ⟨hi, -⟩
  exact absurd hi (Nat.not_lt_zero i)

theorem Spares.update {j : ℕ} (h : Rep fs v) (hj : j < v.numFiles) (he : e.exec fs = fs.update (pageNo j) f)
    (hf : ∀ b, fs.lookup (pageNo j) = some b → ∀ x, v.Written j x → f b x = b x) : Spares fs v e := by
  intro i x hx
  have hle := h.numFiles_le
  have hi : i < v.pages.length := hx.1
  have hnum : v.numFiles = v.pages.length + v.opening.toNat := rfl
  rw [he]
  by_cases hij : i = j
  · subst hij
    obtain ⟨b, hb, -⟩ := h.page i hi
    rw [Files.buffer_update_self hb, Files.buffer_of_lookup hb]
    exact hf b hb x hx
  · rw [Files.buffer_update_ne]
    intro hn
    exact hij ((pageNo_inj (by omega) (by omega)).mp hn)

/-- A store into the file behind the last page. -/
theorem Spares.next (h : Rep fs ⟨ps, true⟩) (he : e.exec fs = fs.update (pageNo ps.length) f) :
    Spares fs ⟨ps, true⟩ e := by
  refine .update h (by simp [View.numFiles]) he fun b _ x hx => ?_
  obtain ⟨hi, -⟩ := hx
  exact absurd hi (Nat.lt_irrefl _)

/-- A store into the last page that leaves its frames alone. -/
theorem Spares.last (h : Rep fs ⟨ps ++ [p], o⟩) (he : e.exec fs = fs.update (pageNo ps.length) f)
    (hf : ∀ b, fs.lookup (pageNo ps.length) = some b →
      ∀ x, pageInitPosition ≤ x → x < p.endPos → f b x = b x) : Spares fs ⟨ps ++ [p], o⟩ e := by
  refine .update h (by simp [View.numFiles]; omega) he fun b hb x hx => ?_
  obtain ⟨hi, hpos, hend⟩ := hx
  have hp : (ps ++ [p])[ps.length] = p := List.getElem_concat_length rfl _
  rw [hp] at hend
  rcases hend with hlt | ⟨-, hlast⟩
  · exact hf b hb x hpos hlt
  · rw [List.length_append, List.length_singleton] at hlast
    exact absurd hlast (Nat.lt_irrefl _)

/-! ### Effects that leave the headers alone -/

theorem KeepsHeader.refl (b : Mem) : KeepsHeader b b := ⟨id, fun _ => rfl⟩

/-- A store that touches neither the status nor `start_nano`. -/
theorem KeepsHeader.of_outside {b' : Mem} (hout : ∀ i, i = 0 ∨ 33 ≤ i ∧ i < 41 → b' i = b i) :
    KeepsHeader b b' := by
  have hstatus : PageHeader.status b' = PageHeader.status b := hout 0 (.inl rfl)
  have hstart : PageHeader.startNano b' = PageHeader.startNano b :=
    Mem.loadAs_congr fun i h1 h2 => hout i (.inr ⟨h1, h2⟩)
  exact ⟨fun h => by rwa [hstatus], fun _ => hstart⟩

theorem KeepsHeaders.create (fs : Files) (n : Int16) : KeepsHeaders fs (.create n) := by
  intro m
  rw [Files.buffer_create]
  exact .refl _

theorem KeepsHeaders.update {n : Int16} (he : e.exec fs = fs.update n f)
    (hf : ∀ b, fs.lookup n = some b → KeepsHeader b (f b)) : KeepsHeaders fs e := by
  intro m
  rw [he]
  by_cases hmn : m = n
  · subst hmn
    cases hb : fs.lookup m with
    | none =>
      unfold Files.buffer
      rw [Files.lookup_update, if_pos rfl, hb]
      exact .refl _
    | some b =>
      rw [Files.buffer_update_self hb, Files.buffer_of_lookup hb]
      exact hf b hb
  · rw [Files.buffer_update_ne fs hmn]
    exact .refl _

theorem KeepsHeaders.lastByte (fs : Files) (n : Int16) : KeepsHeaders fs (.lastByte n) := by
  have hp := journalPageSize_eq
  exact .update rfl fun b _ => .of_outside fun i hi => b.storeAs_outside _ (by omega)

/-! ### Stores into one page -/

theorem lookup_execAll_header (fs : Files) (n : Int16) (ss : List HeaderStore) :
    (execAll fs (ss.map (.header n))).lookup n =
      (fs.lookup n).map fun b => ss.foldl HeaderStore.exec b := by
  induction ss generalizing fs with
  | nil => simp [execAll]
  | cons s ss ih =>
    have e : execAll fs ((s :: ss).map (.header n)) =
        execAll (fs.update n s.exec) (ss.map (.header n)) := rfl
    rw [e, ih, Files.lookup_update, if_pos rfl, Option.map_map]
    rfl

theorem lookup_execAll_frame (fs : Files) (n : Int16) (a : ℕ) (ss : List FrameStore) :
    (execAll fs (ss.map (.frame n a))).lookup n =
      (fs.lookup n).map fun b => ss.foldl (FrameStore.exec a) b := by
  induction ss generalizing fs with
  | nil => simp [execAll]
  | cons s ss ih =>
    have e : execAll fs ((s :: ss).map (.frame n a)) =
        execAll (fs.update n fun b => s.exec a b) (ss.map (.frame n a)) := rfl
    rw [e, ih, Files.lookup_update, if_pos rfl, Option.map_map]
    rfl

/-- A store into a field of the frame, not a status. -/
def FrameStore.IsField : FrameStore → Prop
  | .nextStatus _ => False
  | .status _ => False
  | _ => True

theorem FrameStore.IsField.outside {s : FrameStore} (hs : s.IsField) {a i : ℕ} (hi : i ≤ a) :
    s.exec a b i = b i := by
  cases s <;> simp only [FrameStore.exec]
  case nextStatus => exact hs.elim
  case status => exact hs.elim
  case data => exact b.store_outside (by have : basicFrameHeaderLength = 20 := rfl; omega)
  all_goals exact b.storeAs_outside _ (by omega)

theorem PageRep.exec_field {st : UInt8} {s : FrameStore} (h : PageRep b p st) (hs : s.IsField) :
    PageRep (s.exec p.endPos b) p st :=
  h.congr fun _ _ hi => (hs.outside hi).symm

/-- Stores into the fields of the frame behind the last one are not visible. -/
theorem publishes_fields {ss : List FrameStore} (h : Rep fs ⟨ps ++ [p], false⟩)
    (hss : ∀ s ∈ ss, s.IsField) :
    Publishes ρ fs ⟨ps ++ [p], false⟩ (ss.map (.frame (pageNo ps.length) p.endPos))
      (execAll fs (ss.map (.frame (pageNo ps.length) p.endPos))) ⟨ps ++ [p], false⟩ := by
  refine (Script.of_invariant _ _ _ _ (Rep · ⟨ps ++ [p], false⟩) (fun _ h => h) (fun e he m hm => ?_) h).1
  obtain ⟨s, hs, rfl⟩ := List.mem_map.mp he
  have hspares : Spares m ⟨ps ++ [p], false⟩ (.frame (pageNo ps.length) p.endPos s) :=
    .last hm rfl fun b _ x _ hx => (hss s hs).outside (Nat.le_of_lt hx)
  have h137 := p.le_endPos
  have hkeeps : KeepsHeaders m (.frame (pageNo ps.length) p.endPos s) :=
    .update rfl fun b _ => .of_outside fun i hi => (hss s hs).outside (by omega)
  refine ⟨Next.same ?_ hspares fun _ => hkeeps, hm.update_last hm.ok fun _ _ hp => hp.exec_field (hss s hs)⟩
  cases s with
  | status => exact (hss _ hs).elim
  | _ => rfl

/-! ### The frame of a record -/

section Frame

variable {a : ℕ} {r : Record}

/-- The fields that `write_frame` stores make up the frame of the record. -/
theorem Frame.filled_write (autoHash : Bool) (data : List UInt8) (nano : Int64) (msgType : Int16)
    (lastFlag : UInt8) :
    Frame.Filled ((Frame.setMsgType msgType ++ Frame.setLastFlag lastFlag ++
        Frame.setData autoHash data ++ Frame.setNano nano).foldl (FrameStore.exec a) b)
      a ⟨data, nano, msgType, lastFlag⟩ := by
  have h20 : basicFrameHeaderLength = 20 := rfl
  constructor <;> cases autoHash <;>
    simp (disch := simp; try omega) only [Frame.setMsgType, Frame.setLastFlag, Frame.setData,
      Frame.setNano, Frame.setFrameLength, Frame.autoHashCode, List.foldl_append, List.foldl_cons,
      List.foldl_nil, if_true, if_false, FrameStore.exec, Frame.getFrameLength, Frame.getNano,
      Frame.getMsgType, Frame.getLastFlag, Mem.loadAs_storeAs, Mem.loadAs_storeAs_disjoint,
      Mem.loadAs_store_disjoint, Mem.load_storeAs_disjoint, Mem.load_store, Record.size,
      Bool.false_eq_true]

/-- So do the fields that `locateFrame`, the copy of the payload and `passFrame` store. -/
theorem Frame.filled_pass (autoHash : Bool) (b' : Mem) (msgType : Int16) (lastFlag : UInt8)
    (hnano : Frame.getNano b a = r.nano)
    (hdata : b.load (a + basicFrameHeaderLength) r.data.length = r.data) :
    Frame.Filled ((Frame.setMsgType msgType ++ Frame.setLastFlag lastFlag ++
        Frame.setDataLength autoHash b' a r.data.length).foldl (FrameStore.exec a) b)
      a { r with msgType := msgType, lastFlag := lastFlag } := by
  have h20 : basicFrameHeaderLength = 20 := rfl
  unfold Frame.getNano at hnano
  constructor <;> cases autoHash <;>
    simp (disch := simp; try omega) only [Frame.setMsgType, Frame.setLastFlag, Frame.setDataLength,
      Frame.setFrameLength, Frame.autoHashCode, List.foldl_append, List.foldl_cons,
      List.foldl_nil, if_true, if_false, FrameStore.exec, Frame.getFrameLength, Frame.getNano,
      Frame.getMsgType, Frame.getLastFlag, Mem.loadAs_storeAs, Mem.loadAs_storeAs_disjoint,
      Mem.load_storeAs_disjoint, Record.size, Bool.false_eq_true, hnano, hdata]

theorem isField_write {data : List UInt8} {nano : Int64} {msgType : Int16} {lastFlag : UInt8} :
    ∀ s ∈ Frame.setMsgType msgType ++ Frame.setLastFlag lastFlag ++
      Frame.setData autoHash data ++ Frame.setNano nano, s.IsField := by
  cases autoHash <;>
    simp [Frame.setMsgType, Frame.setLastFlag, Frame.setData, Frame.setNano, Frame.setFrameLength,
      Frame.autoHashCode, FrameStore.IsField]

theorem isField_pass {len : ℕ} {msgType : Int16} {lastFlag : UInt8} :
    ∀ s ∈ Frame.setMsgType msgType ++ Frame.setLastFlag lastFlag ++
      Frame.setDataLength autoHash b a len, s.IsField := by
  cases autoHash <;>
    simp [Frame.setMsgType, Frame.setLastFlag, Frame.setDataLength, Frame.setFrameLength,
      Frame.autoHashCode, FrameStore.IsField]

end Frame

theorem LayoutOk.push {r : Record} (h : LayoutOk (ps ++ [p])) (hroom : HasRoom p.endPos)
    (hfit : r.Fits) : LayoutOk (ps ++ [p.push r]) := by
  refine ⟨by simpa using h.length_le, fun q hq => ?_, fun i hi => ?_⟩
  · rcases List.mem_append.mp hq with hq | hq
    · exact h.roomy q (List.mem_append_left _ hq)
    · rw [List.mem_singleton.mp hq, PageLog.push_records, roomy_snoc]
      exact ⟨h.roomy p (by simp), hroom, hfit⟩
  · have hi' : i < ps.length := by simpa using hi
    have hfull := h.full i (by simpa using hi)
    rwa [List.getElem_append_left hi'] at hfull ⊢

/-- `setStatusWritten` on a filled frame: the status of the next entry first, which nobody looks at,
then the status of the frame. -/
theorem publishes_setStatusWritten {r : Record} (h : Rep fs ⟨ps ++ [p], false⟩)
    (hb : fs.lookup (pageNo ps.length) = some b) (hfill : Frame.Filled b p.endPos r)
    (hroom : HasRoom p.endPos) (hfit : r.Fits) :
    Publishes (some r) fs ⟨ps ++ [p], false⟩
      (Frame.setStatusWritten.map (.frame (pageNo ps.length) p.endPos))
      (execAll fs (Frame.setStatusWritten.map (.frame (pageNo ps.length) p.endPos)))
      ⟨ps ++ [p.push r], false⟩ := by
  have hnext := hfill.getNextEntry hroom hfit
  have hsize : basicFrameHeaderLength ≤ r.size := size_pos r
  have h20 : basicFrameHeaderLength = 20 := rfl
  let b₁ := b.storeAs (p.endPos + r.size) journalFrameStatusRaw
  have hb₁ : (fs.update (pageNo ps.length) fun b =>
      (FrameStore.nextStatus journalFrameStatusRaw).exec p.endPos b).lookup (pageNo ps.length) = some b₁ := by
    rw [Files.lookup_update, if_pos rfl, hb]
    simp only [Option.map_some, FrameStore.exec, hnext, b₁]
  have hrep₁ : Rep (fs.update (pageNo ps.length) fun b =>
      (FrameStore.nextStatus journalFrameStatusRaw).exec p.endPos b) ⟨ps ++ [p], false⟩ := by
    refine h.update_last h.ok fun b' hb' hp => ?_
    obtain rfl : b = b' := Option.some.inj (hb.symm.trans hb')
    simp only [FrameStore.exec, hnext]
    exact hp.congr fun i _ hi => (b.storeAs_outside _ (by omega)).symm
  have hspares : Spares fs ⟨ps ++ [p], false⟩
      (.frame (pageNo ps.length) p.endPos (.nextStatus journalFrameStatusRaw)) := by
    refine .last h rfl fun b' hb' x _ hx => ?_
    obtain rfl : b = b' := Option.some.inj (hb.symm.trans hb')
    simp only [FrameStore.exec, hnext]
    exact b.storeAs_outside _ (by omega)
  have h137 := p.le_endPos
  have hkeeps : KeepsHeaders fs (.frame (pageNo ps.length) p.endPos (.nextStatus journalFrameStatusRaw)) := by
    refine .update rfl fun b' hb' => .of_outside fun i hi => ?_
    obtain rfl : b = b' := Option.some.inj (hb.symm.trans hb')
    simp only [FrameStore.exec, hnext]
    exact b.storeAs_outside _ (by omega)
  refine .step h (.same rfl hspares fun _ => hkeeps) (.single hrep₁ ?_ ?_)
  · refine ⟨?_, fun ho => Bool.noConfusion ho, .last hrep₁ rfl fun b' _ x _ hx =>
      b'.storeAs_outside _ (.inl hx), fun _ => .update rfl fun b' _ => .of_outside fun i hi =>
      b'.storeAs_outside _ (by omega)⟩
    simpa [recordRows, writtenBy] using Grows.push (recordRows ps) p.records r
  · refine hrep₁.update_last (h.ok.push hroom hfit) fun b' hb' hp => ?_
    obtain rfl : b₁ = b' := Option.some.inj (hb₁.symm.trans hb')
    have hout : ∀ i, i ≠ p.endPos → (b₁.storeAs p.endPos journalFrameStatusWritten) i = b₁ i :=
      fun i hi => b₁.storeAs_outside _ (by simp; omega)
    have hpage : PageRep b₁ p journalFrameStatusRaw := hp
    have hfill₁ : Frame.Filled b₁ p.endPos r :=
      hfill.congr fun i _ hi => (b.storeAs_outside _ (by omega)).symm
    refine ⟨?_, ?_, ?_, ?_, ?_⟩
    · rw [← hpage.inited]
      exact hout 0 (by omega)
    · have e : PageHeader.frameVersion (b₁.storeAs p.endPos journalFrameStatusWritten) =
          PageHeader.frameVersion b₁ := Mem.loadAs_congr fun i _ hi => hout i (by simp at hi; omega)
      simp only [FrameStore.exec]
      rw [e]
      exact hpage.version
    · rw [PageLog.push_startNano, ← hpage.startNano]
      exact Mem.loadAs_congr fun i _ hi => hout i (by simp at hi; omega)
    · rw [PageLog.push_records, chain_snoc]
      refine ⟨hpage.chain.congr fun i _ hi => (hout i ?_).symm, ?_, ?_⟩
      · unfold PageLog.endPos
        omega
      · exact b₁.storeAs_byte _ _
      · exact hfill₁.congr fun i hi _ => (hout i (Nat.ne_of_gt hi)).symm
    · rw [PageLog.push_endPos]
      have e := hout (p.endPos + r.size) (by omega)
      have e' : b₁ (p.endPos + r.size) = journalFrameStatusRaw := b.storeAs_byte _ _
      exact e.trans e'

end Yijinjing
