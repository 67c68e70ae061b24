import Yijinjing.Journal.Scripts

/-!
# Opening and closing pages

The effects of `LoadPageBuffer` and `Page::load` on a raw page, and of `Page::finishPage`.  The first
page of a journal comes in at the store of its status; any later page is initialized behind the open
page and comes in at the store of PAGE_END on that one, so in between nobody sees it.
-/

namespace Yijinjing

open Lib

variable {h : Host} {fs : Files} {ps : List PageLog} {p p' : PageLog} {b : Mem} {n : Int16} {t : Int64}
  {o : Bool} {ρ : Option Record}

/-! ### The header of a new page -/

/-- The header stores of `Page::load` on a raw page. -/
def initStores (h : Host) (n : Int16) (t : Int64) : List HeaderStore :=
  [.journalName h.nameBytes, .startNano t, .closeNano (-1), .pageNum n] ++
    [.status journalPageStatusInited, .frameVersion frameHeaderVersion]

theorem Host.length_nameBytes_le (h : Host) : h.nameBytes.length ≤ 31 := by
  have := h.name_fits
  unfold Host.nameBytes
  unfold journalShortNameMaxLength at this
  simp
  omega

theorem blank_lastByte (hb : Blank b) : Blank (b.storeAs (journalPageSize - 1) (0 : UInt8)) := by
  have hp := journalPageSize_eq
  have h137 : pageInitPosition = 137 := rfl
  constructor
  · rw [← hb.raw]
    exact b.storeAs_outside _ (by omega)
  · rw [← hb.version]
    exact Mem.loadAs_storeAs_disjoint _ _ (by simp; omega)
  · rw [← hb.status]
    exact b.storeAs_outside _ (by omega)

/-- The stores before the status leave the page blank. -/
theorem blank_headerStore {s : HeaderStore} (hb : Blank b)
    (hs : s ∈ [.journalName h.nameBytes, .startNano t, .closeNano (-1), .pageNum n]) :
    Blank (s.exec b) := by
  have hname := h.length_nameBytes_le
  have h137 : pageInitPosition = 137 := rfl
  -- none of them touches the status, the version or the first frame
  have hout : ∀ i, i = 0 ∨ 57 ≤ i → s.exec b i = b i := by
    intro i hi
    simp only [List.mem_cons, List.not_mem_nil, or_false] at hs
    rcases hs with rfl | rfl | rfl | rfl
    · exact b.store_outside (by omega)
    · exact b.storeAs_outside _ (by simp; omega)
    · exact b.storeAs_outside _ (by simp; omega)
    · exact b.storeAs_outside _ (by simp; omega)
  constructor
  · rw [← hb.raw]
    exact hout 0 (by omega)
  · rw [← hb.version]
    exact Mem.loadAs_congr fun i hi _ => hout i (by omega)
  · rw [← hb.status]
    exact hout _ (by omega)

/-- The store of the status makes a blank page an empty page of the journal. -/
theorem pageRep_inited (hb : Blank b) (hstart : PageHeader.startNano b = t) :
    PageRep (HeaderStore.exec b (.status journalPageStatusInited)) (.fresh t)
      journalFrameStatusRaw := by
  have h137 : pageInitPosition = 137 := rfl
  have hout : ∀ i, 0 < i → HeaderStore.exec b (.status journalPageStatusInited) i = b i :=
    fun i hi => b.storeAs_outside _ (by simp; omega)
  refine ⟨?_, .inl ?_, ?_, trivial, ?_⟩
  · exact b.storeAs_byte 0 journalPageStatusInited
  · rw [← hb.version]
    exact Mem.loadAs_congr fun i hi _ => hout i (by omega)
  · rw [PageLog.fresh_startNano, ← hstart]
    exact Mem.loadAs_congr fun i hi _ => hout i (by omega)
  · rw [← hb.status]
    exact hout pageInitPosition (by omega)

theorem pageRep_frameVersion (hp : PageRep b (.fresh t) journalFrameStatusRaw) :
    PageRep (HeaderStore.exec b (.frameVersion frameHeaderVersion)) (.fresh t)
      journalFrameStatusRaw := by
  have h137 : pageInitPosition = 137 := rfl
  have hout : ∀ i, i < 57 ∨ 59 ≤ i →
      HeaderStore.exec b (.frameVersion frameHeaderVersion) i = b i :=
    fun i hi => b.storeAs_outside _ (by simp; omega)
  refine ⟨?_, .inr (b.loadAs_storeAs 57 frameHeaderVersion), ?_, trivial, ?_⟩
  · rw [← hp.inited]
    exact hout 0 (by omega)
  · rw [← hp.startNano]
    exact Mem.loadAs_congr fun i _ hi => hout i (by simp at hi; omega)
  · rw [← hp.status]
    exact hout _ (by rw [PageLog.fresh_endPos]; omega)

theorem blank_before_status (hb : Blank b) :
    Blank ([.journalName h.nameBytes, .startNano t, .closeNano (-1), .pageNum n].foldl
      HeaderStore.exec b) := by
  have key : ∀ ss : List HeaderStore, (∀ s ∈ ss, s ∈ ([.journalName h.nameBytes, .startNano t,
      .closeNano (-1), .pageNum n] : List HeaderStore)) → ∀ b, Blank b → Blank (ss.foldl HeaderStore.exec b) := by
    intro ss
    induction ss with
    | nil => exact fun _ b hb => hb
    | cons s ss ih =>
      intro hss b hb
      exact ih (fun s' hs' => hss s' (List.mem_cons_of_mem _ hs')) _
        (blank_headerStore hb (hss s (List.mem_cons_self ..)))
  exact key _ (fun _ hs => hs) b hb

theorem startNano_before_status : PageHeader.startNano
    ([.journalName h.nameBytes, .startNano t, .closeNano (-1), .pageNum n].foldl
      HeaderStore.exec b) = t := by
  simp (disch := simp) only [List.foldl_cons, List.foldl_nil, HeaderStore.exec, PageHeader.startNano,
    Mem.loadAs_storeAs_disjoint, Mem.loadAs_storeAs]

theorem pageRep_initStores (hb : Blank b) :
    PageRep ((initStores h n t).foldl HeaderStore.exec b) (.fresh t) journalFrameStatusRaw := by
  unfold initStores
  rw [List.foldl_append]
  exact pageRep_frameVersion (pageRep_inited (blank_before_status hb) startNano_before_status)

/-- A store into the header leaves the frames alone. -/
theorem headerStore_outside {s : HeaderStore} (hs : ∀ cs, s = .journalName cs → cs.length ≤ 31) {i : ℕ}
    (hi : pageInitPosition ≤ i) : s.exec b i = b i := by
  have h137 : pageInitPosition = 137 := rfl
  cases s with
  | journalName cs =>
    have := hs cs rfl
    exact b.store_outside (by omega)
  | _ => exact b.storeAs_outside _ (by simp; omega)

theorem initStores_name {s : HeaderStore} (hs : s ∈ initStores h n t) :
    ∀ cs, s = .journalName cs → cs.length ≤ 31 := by
  rintro cs rfl
  have hname := h.length_nameBytes_le
  simp only [initStores, List.cons_append, List.nil_append, List.mem_cons, List.not_mem_nil, or_false,
    HeaderStore.journalName.injEq, reduceCtorEq] at hs
  rwa [hs]

/-- The stores into the header of a new page do not make it a used one. -/
theorem unused_initStore {s : HeaderStore} (hb : Unused b) (hs : s ∈ initStores h n t) :
    Unused (s.exec b) := by
  have hname := h.length_nameBytes_le
  refine ⟨?_, (headerStore_outside (initStores_name hs) (Nat.le_refl _)).trans hb.status⟩
  have hkept : (∀ i, 57 ≤ i → i < 59 → s.exec b i = b i) →
      PageHeader.frameVersion (s.exec b) = PageHeader.frameVersion b :=
    fun hout => Mem.loadAs_congr fun i h1 h2 => hout i h1 (by simp at h2; omega)
  simp only [initStores, List.cons_append, List.nil_append, List.mem_cons, List.not_mem_nil, or_false] at hs
  rcases hs with rfl | rfl | rfl | rfl | rfl | rfl
  · rw [hkept fun i _ _ => b.store_outside (by omega)]
    exact hb.version
  · rw [hkept fun i _ _ => b.storeAs_outside _ (by simp; omega)]
    exact hb.version
  · rw [hkept fun i _ _ => b.storeAs_outside _ (by simp; omega)]
    exact hb.version
  · rw [hkept fun i _ _ => b.storeAs_outside _ (by simp; omega)]
    exact hb.version
  · rw [hkept fun i _ _ => b.storeAs_outside _ (by simp; omega)]
    exact hb.version
  · exact .inr (b.loadAs_storeAs 57 frameHeaderVersion)

theorem unused_lastByte (hb : Unused b) : Unused (b.storeAs (journalPageSize - 1) (0 : UInt8)) := by
  have hp := journalPageSize_eq
  have h137 : pageInitPosition = 137 := rfl
  refine ⟨?_, (b.storeAs_outside _ (by omega)).trans hb.status⟩
  have e : PageHeader.frameVersion (b.storeAs (journalPageSize - 1) (0 : UInt8)) = PageHeader.frameVersion b :=
    Mem.loadAs_storeAs_disjoint _ _ (by simp; omega)
  rw [e]
  exact hb.version

/-- The stores into the header of a new page keep what has been stored there. -/
theorem keepsHeader_initStore {s : HeaderStore} (hs : s ∈ initStores h n t)
    (hzero : s = .startNano t → PageHeader.startNano b = 0) : KeepsHeader b (s.exec b) := by
  have hname := h.length_nameBytes_le
  simp only [initStores, List.cons_append, List.nil_append, List.mem_cons, List.not_mem_nil, or_false] at hs
  rcases hs with rfl | rfl | rfl | rfl | rfl | rfl
  · exact .of_outside fun i hi => b.store_outside (by omega)
  · refine ⟨fun h => ?_, fun h => absurd (hzero rfl) h⟩
    have hout : HeaderStore.exec b (.startNano t) 0 = b 0 := b.storeAs_outside t (.inl (by omega))
    show HeaderStore.exec b (.startNano t) 0 ≠ _
    rwa [hout]
  · exact .of_outside fun i hi => b.storeAs_outside _ (by simp; omega)
  · exact .of_outside fun i hi => b.storeAs_outside _ (by simp; omega)
  · refine ⟨fun _ => ?_, fun _ => Mem.loadAs_congr fun i hi _ => b.storeAs_outside _ (by simp; omega)⟩
    rw [show PageHeader.status (HeaderStore.exec b (.status journalPageStatusInited)) =
      journalPageStatusInited from b.storeAs_byte 0 _]
    decide
  · exact .of_outside fun i hi => b.storeAs_outside _ (by simp; omega)

/-! ### Scripts -/

/-- The effects of `LoadPageBuffer` in write mode. -/
def loadEffects (n : Int16) : List Effect := [.create n, .lastByte n]

/-- The effects of mapping a raw page and of initializing it. -/
def openEffects (h : Host) (n : Int16) (t : Int64) : List Effect :=
  loadEffects n ++ (initStores h n t).map (.header n)

theorem lookup_execAll_header_ne (fs : Files) {n m : Int16} (hne : m ≠ n) (ss : List HeaderStore) :
    (execAll fs (ss.map (.header n))).lookup m = fs.lookup m := by
  induction ss generalizing fs with
  | nil => rfl
  | cons s ss ih =>
    have e : execAll fs ((s :: ss).map (.header n)) =
        execAll (fs.update n s.exec) (ss.map (.header n)) := rfl
    rw [e, ih, Files.lookup_update, if_neg hne]

theorem execAll_append (fs : Files) (es es' : List Effect) :
    execAll fs (es ++ es') = execAll (execAll fs es) es' := List.foldl_append ..

/-- The first mapping of a page file zeroes its last byte. -/
theorem lookup_loadEffects {fs : Files} (hb : fs.lookup n = some b) :
    (execAll fs (loadEffects n)).lookup n = some (b.storeAs (journalPageSize - 1) (0 : UInt8)) := by
  have e : execAll fs (loadEffects n) = Effect.exec (Effect.exec fs (.create n)) (.lastByte n) := rfl
  rw [e, Files.exec_create_of_isSome (by rw [hb]; rfl)]
  simp only [Effect.exec]
  rw [Files.lookup_update, if_pos rfl, hb]
  rfl

/-- One effect of opening the page behind an open one. -/
theorem next_open {e : Effect} (hr : Rep fs ⟨ps, true⟩) (hne : ps ≠ [])
    (he : e ∈ openEffects h (pageNo ps.length) t)
    (hzero : e = .header (pageNo ps.length) (.startNano t) → PageHeader.startNano (fs.buffer (pageNo ps.length)) = 0) :
    Next ρ fs ⟨ps, true⟩ e ⟨ps, true⟩ ∧ Rep (e.exec fs) ⟨ps, true⟩ := by
  simp only [openEffects, loadEffects, List.cons_append, List.nil_append, List.mem_cons, List.mem_map] at he
  rcases he with rfl | rfl | ⟨s, hs, rfl⟩
  · refine ⟨.same rfl (.create fs _ _) fun _ => .create fs _, ?_⟩
    rw [Files.exec_create_of_isSome]
    · exact hr
    · exact (hr.lookup_isSome hr.numFiles_le).mpr (by simp [View.numFiles])
  · exact ⟨.same rfl (.next hr rfl) fun _ => .lastByte fs _, hr.update_next hne fun _ => unused_lastByte⟩
  · refine ⟨.same rfl (.next hr rfl) fun _ => .update rfl fun b hb => ?_,
      hr.update_next hne fun _ hb => unused_initStore hb hs⟩
    refine keepsHeader_initStore hs fun hst => ?_
    rw [← Files.buffer_of_lookup hb]
    exact hzero (by rw [hst])

/-- Opening the page behind an open one is not visible. -/
theorem publishes_open_next (hr : Rep fs ⟨ps, true⟩) (hne : ps ≠ [])
    (hb : fs.lookup (pageNo ps.length) = some b) (hblank : Blank b) (hstart : PageHeader.startNano b = 0) :
    Publishes ρ fs ⟨ps, true⟩ (openEffects h (pageNo ps.length) t)
      (execAll fs (openEffects h (pageNo ps.length) t)) ⟨ps, true⟩ ∧
    ∃ b', (execAll fs (openEffects h (pageNo ps.length) t)).lookup (pageNo ps.length) = some b' ∧
      PageRep b' (.fresh t) journalFrameStatusRaw := by
  have hload := lookup_loadEffects hb
  constructor
  · -- `start_nano` is zero until it is stored
    let m₁ := execAll fs (loadEffects (pageNo ps.length))
    let m₂ := Effect.exec m₁ (.header (pageNo ps.length) (.journalName h.nameBytes))
    have hzero : PageHeader.startNano (m₂.buffer (pageNo ps.length)) = 0 := by
      have hname := h.length_nameBytes_le
      have hp := journalPageSize_eq
      rw [show m₂.buffer (pageNo ps.length) = _ from Files.buffer_update_self hload, ← hstart]
      exact Mem.loadAs_congr fun i h1 h2 =>
        (Mem.store_outside _ (by simp at h2; omega)).trans (b.storeAs_outside _ (by simp at h2; omega))
    obtain ⟨hn₁, hr₁⟩ := next_open (ρ := ρ) (h := h) (t := t) (e := .create (pageNo ps.length)) hr hne
      (by simp [openEffects, loadEffects]) (fun he => by cases he)
    obtain ⟨hn₂, hr₂⟩ := next_open (ρ := ρ) (h := h) (t := t) (e := .lastByte (pageNo ps.length)) hr₁ hne
      (by simp [openEffects, loadEffects]) (fun he => by cases he)
    obtain ⟨hn₃, hr₃⟩ := next_open (ρ := ρ) (h := h) (t := t)
      (e := .header (pageNo ps.length) (.journalName h.nameBytes)) hr₂ hne
      (by simp [openEffects, initStores]) (fun he => by cases he)
    obtain ⟨hn₄, hr₄⟩ := next_open (ρ := ρ) (h := h) (t := t)
      (e := .header (pageNo ps.length) (.startNano t)) hr₃ hne
      (by simp [openEffects, initStores]) fun _ => hzero
    have hrest := (Script.of_invariant Effect.exec Rep (Next ρ) ((openEffects h (pageNo ps.length) t).drop 4)
      (Rep · ⟨ps, true⟩) (fun _ h => h) (fun e he m hm => by
        refine next_open (h := h) (t := t) hm hne (List.mem_of_mem_drop he) fun heq => ?_
        rw [heq] at he
        simp [openEffects, loadEffects, initStores] at he) hr₄).1
    have hall := Script.step hr hn₁ (Script.step hr₁ hn₂ (Script.step hr₂ hn₃ (Script.step hr₃ hn₄ hrest)))
    have hend : execAll fs (openEffects h (pageNo ps.length) t) = _ := hall.exec_end
    rw [hend]
    exact hall
  · unfold openEffects
    rw [execAll_append, lookup_execAll_header, hload]
    exact ⟨_, rfl, pageRep_initStores (blank_lastByte hblank)⟩

/-- The last two stores of `Page::load` on the first page. -/
theorem publishes_inited_first (hr : Rep fs ⟨[], true⟩)
    (hstart : ∀ b, fs.lookup (pageNo 0) = some b → PageHeader.startNano b = t) :
    Publishes ρ fs ⟨[], true⟩ [.header (pageNo 0) (.status journalPageStatusInited),
        .header (pageNo 0) (.frameVersion frameHeaderVersion)]
      (execAll fs [.header (pageNo 0) (.status journalPageStatusInited),
        .header (pageNo 0) (.frameVersion frameHeaderVersion)]) ⟨[.fresh t], false⟩ := by
  have hstat : Rep (Effect.exec fs (.header (pageNo 0) (.status journalPageStatusInited)))
      ⟨[.fresh t], false⟩ :=
    hr.init_first rfl fun b hb => pageRep_inited (hr.blank rfl b hb) (hstart b hb)
  have hver : Rep (Effect.exec (Effect.exec fs (.header (pageNo 0) (.status journalPageStatusInited)))
      (.header (pageNo 0) (.frameVersion frameHeaderVersion))) ⟨[.fresh t], false⟩ :=
    Rep.update_last (show Rep _ ⟨[] ++ [_], _⟩ from hstat) hstat.ok fun b _ hp => pageRep_frameVersion hp
  have hgrow : Next ρ fs ⟨[], true⟩ (.header (pageNo 0) (.status journalPageStatusInited))
      ⟨[.fresh t], false⟩ := by
    refine ⟨?_, fun _ hnil => absurd rfl hnil, .of_nil, fun hnil => absurd rfl hnil⟩
    simpa [recordRows, writtenBy] using Grows.page (α := Record) []
  have hspares : Spares (Effect.exec fs (.header (pageNo 0) (.status journalPageStatusInited)))
      ⟨[.fresh t], false⟩ (.header (pageNo 0) (.frameVersion frameHeaderVersion)) :=
    Spares.last (show Rep _ ⟨[] ++ [_], _⟩ from hstat) rfl fun b _ x hx _ =>
      headerStore_outside (fun _ hs => by cases hs) hx
  have hkeeps : KeepsHeaders (Effect.exec fs (.header (pageNo 0) (.status journalPageStatusInited)))
      (.header (pageNo 0) (.frameVersion frameHeaderVersion)) :=
    .update rfl fun b _ => .of_outside fun i hi => b.storeAs_outside _ (by simp; omega)
  exact .step hr hgrow (.step hstat (.same rfl hspares fun _ => hkeeps) (.done hver))

/-- Opening the first page brings it in. -/
theorem publishes_open_first (hr : Rep fs ⟨[], true⟩) :
    Publishes ρ fs ⟨[], true⟩ (openEffects h (pageNo 0) t)
      (execAll fs (openEffects h (pageNo 0) t)) ⟨[.fresh t], false⟩ := by
  have e : openEffects h (pageNo 0) t =
      (loadEffects (pageNo 0) ++ [HeaderStore.journalName h.nameBytes, .startNano t, .closeNano (-1),
        .pageNum (pageNo 0)].map (.header (pageNo 0))) ++
      [.header (pageNo 0) (.status journalPageStatusInited),
        .header (pageNo 0) (.frameVersion frameHeaderVersion)] := rfl
  -- the stores before the status
  obtain ⟨hscript, hrep⟩ := Script.of_invariant Effect.exec Rep (Next ρ)
    (loadEffects (pageNo 0) ++ [HeaderStore.journalName h.nameBytes, .startNano t, .closeNano (-1),
      .pageNum (pageNo 0)].map (.header (pageNo 0)))
    (Rep · ⟨[], true⟩) (fun _ h => h) (fun e he m hm => by
      simp only [loadEffects, List.cons_append, List.nil_append, List.mem_cons, List.mem_map] at he
      rcases he with rfl | rfl | ⟨s, hs, rfl⟩
      · refine ⟨.same rfl .of_nil fun hnil => absurd rfl hnil, ?_⟩
        rw [Files.exec_create_of_isSome]
        · exact hm
        · exact (hm.lookup_isSome (by simp [maxPages])).mpr (by simp [View.numFiles])
      · exact ⟨.same rfl .of_nil fun hnil => absurd rfl hnil, hm.update_blank fun b => blank_lastByte⟩
      · refine ⟨.same rfl .of_nil fun hnil => absurd rfl hnil, hm.update_blank fun b hb => ?_⟩
        exact blank_headerStore hb (by simpa using hs)) hr
  rw [e, execAll_append]
  refine hscript.append (publishes_inited_first hrep fun b hb => ?_)
  have hexec : ∀ es, es.foldl Effect.exec fs = execAll fs es := fun _ => rfl
  rw [hexec, execAll_append, lookup_execAll_header] at hb
  obtain ⟨b1, -, rfl⟩ := Option.map_eq_some_iff.mp hb
  exact startNano_before_status

/-- The effects of `Page::finishPage`. -/
def finishEffects (n : Int16) (a : ℕ) (nano : Int64) (frameNum lastPos : Int32) : List Effect :=
  [HeaderStore.closeNano nano, .frameNum frameNum, .lastPos lastPos].map (.header n) ++
    Frame.setStatusPageClosed.map (.frame n a)

theorem keepsHeader_closing {s : HeaderStore} {nano : Int64} {frameNum lastPos : Int32}
    (hs : s ∈ [HeaderStore.closeNano nano, .frameNum frameNum, .lastPos lastPos]) : KeepsHeader b (s.exec b) := by
  simp only [List.mem_cons, List.not_mem_nil, or_false] at hs
  rcases hs with rfl | rfl | rfl
  · exact .of_outside fun i hi => b.storeAs_outside _ (by simp; omega)
  · exact .of_outside fun i hi => b.storeAs_outside _ (by simp; omega)
  · exact .of_outside fun i hi => b.storeAs_outside _ (by simp; omega)

theorem PageRep.exec_closing {st : UInt8} {s : HeaderStore} {nano : Int64} {frameNum lastPos : Int32}
    (hp : PageRep b p st) (hs : s ∈ [HeaderStore.closeNano nano, .frameNum frameNum, .lastPos lastPos]) :
    PageRep (s.exec b) p st := by
  refine hp.congr fun i hi _ => ?_
  simp only [List.mem_cons, List.not_mem_nil, or_false] at hs
  rcases hs with rfl | rfl | rfl
  · exact (b.storeAs_outside _ (by simp; omega)).symm
  · exact (b.storeAs_outside _ (by simp; omega)).symm
  · exact (b.storeAs_outside _ (by simp; omega)).symm

theorem PageRep.exec_pageClosed (hp : PageRep b p journalFrameStatusRaw) :
    PageRep ((FrameStore.status journalFrameStatusPageEnd).exec p.endPos b) p journalFrameStatusPageEnd := by
  have h137 := p.le_endPos
  have hout : ∀ i, i ≠ p.endPos →
      (FrameStore.status journalFrameStatusPageEnd).exec p.endPos b i = b i :=
    fun i hi => b.storeAs_outside _ (by simp; omega)
  refine ⟨?_, ?_, ?_, ?_, b.storeAs_byte _ _⟩
  · rw [← hp.inited]
    exact hout 0 (by omega)
  · have e : PageHeader.frameVersion ((FrameStore.status journalFrameStatusPageEnd).exec p.endPos b) =
        PageHeader.frameVersion b := Mem.loadAs_congr fun i _ hi => hout i (by simp at hi; omega)
    rw [e]
    exact hp.version
  · rw [← hp.startNano]
    exact Mem.loadAs_congr fun i _ hi => hout i (by simp at hi; omega)
  · exact hp.chain.congr fun i _ hi => (hout i (by unfold PageLog.endPos; omega)).symm

/-- Closing the last page, when the page behind it is initialized, brings that one in. -/
theorem publishes_finish {nano : Int64} {frameNum lastPos : Int32} (hr : Rep fs ⟨ps ++ [p], true⟩)
    (hroom : ¬ HasRoom p.endPos) (hb : fs.lookup (pageNo (ps ++ [p]).length) = some b)
    (hp' : PageRep b p' journalFrameStatusRaw) (hnil : p'.records = []) :
    Publishes ρ fs ⟨ps ++ [p], true⟩ (finishEffects (pageNo ps.length) p.endPos nano frameNum lastPos)
      (execAll fs (finishEffects (pageNo ps.length) p.endPos nano frameNum lastPos))
      ⟨ps ++ [p] ++ [p'], false⟩ := by
  have hle := hr.numFiles_le
  have hlen : ps.length + 2 ≤ maxPages := by
    simp [View.numFiles] at hle
    omega
  obtain ⟨hscript, hrep⟩ := Script.of_invariant Effect.exec Rep (Next ρ)
    ([HeaderStore.closeNano nano, .frameNum frameNum, .lastPos lastPos].map
      (.header (pageNo ps.length)))
    (Rep · ⟨ps ++ [p], true⟩) (fun _ h => h) (fun e he m hm => by
      obtain ⟨s, hs, rfl⟩ := List.mem_map.mp he
      refine ⟨.same rfl (.last hm rfl fun b _ x hx _ => headerStore_outside ?_ hx) fun _ =>
        .update rfl fun b _ => keepsHeader_closing hs, hm.update_last hm.ok fun _ _ hp => hp.exec_closing hs⟩
      rintro cs rfl
      simp at hs) hr
  unfold finishEffects
  rw [execAll_append]
  refine hscript.append (.single hrep ⟨?_, fun _ _ => .inr ⟨p.endPos, ?_⟩,
      .last hrep rfl fun b _ x _ hx => b.storeAs_outside _ (.inl hx), fun _ => .update rfl fun b _ =>
      .of_outside fun i hi => b.storeAs_outside _ (.inl (by have := p.le_endPos; omega))⟩
    (hrep.close hroom hnil ⟨b, ?_, hp'⟩ fun b hb => hb.exec_pageClosed))
  · rw [writtenBy_pageEnd]
    simpa [recordRows, hnil] using Grows.page (recordRows ps ++ [p.records])
  · simp
  · have hexec : ∀ es, es.foldl Effect.exec fs = execAll fs es := fun _ => rfl
    rw [hexec, lookup_execAll_header_ne]
    · exact hb
    · intro e
      have := (pageNo_inj (by simp; omega) (by omega)).mp e
      simp at this

end Yijinjing
