import Yijinjing.Paged.Holders

/-!
# Grants of pages

With atomic requests: two writers never hold the same page, and the readers of a page are counted
exactly, as long as requests release what their slot holds and nothing else.  An answer releases the page
of the slot's last request, whether that had been granted or not, and grants without a look at what the
slot holds; the conditions `SparesGrant` and `SwapsPage` say when this does no harm.
-/

namespace Yijinjing.PageEngine

open Lib

variable {e t : PageEngine} {name : CStr} {idx i addr : ℕ} {w : Bool} {k : PageKey} {pageNum : Int16}

/-- What holds of the slots and the counts in every reachable state. -/
structure Counted (e : PageEngine) : Prop where
  slots : Slots e
  positive : Positive e
  lastGranted : LastGranted still e
  /-- a page is counted once for a writer -/
  once : ∀ k, e.units true k ≤ 1

theorem Counted.start (c : Setup) : Counted c.engine where
  slots := Slots.start
  positive := Positive.start _ _ _
  lastGranted i hi := by cases hi
  once k := by
    have hzero : c.engine.units true k = 0 := rfl
    omega

/-! ### Requests -/

/-- A request for the page releases the page that the slot asked for before. -/
def Releases (m : PageCommMsg) (pageNum : Int16) : Prop := 0 < m.lastPageNum ∧ m.lastPageNum ≠ pageNum

instance (m : PageCommMsg) (n : Int16) : Decidable (Releases m n) := by
  unfold Releases
  infer_instance

theorem request_units (hp : Positive e) (idx : ℕ) (pageNum : Int16) (addr : ℕ) (w : Bool) (k : PageKey) :
    ((e.ask idx pageNum).answer idx addr).units w k =
      (e.units w k -
        if Releases (e.comm idx) pageNum ∧ (e.comm idx).isWriter = w ∧ (e.comm idx).lastKey = k
          then 1 else 0) +
      if (((e.ask idx pageNum).answer idx addr).comm idx).Holds w k then 1 else 0 := by
  have hpos : Positive (e.ask idx pageNum) := hp.congr rfl
  have hu : (e.ask idx pageNum).units w k = e.units w k := units_congr rfl
  rw [units_answer hpos, ask_comm_self, hu]
  rfl

theorem request_holders (hs : Slots e) (hidx : idx ∈ e.owned) (pageNum : Int16) (addr : ℕ) (w : Bool)
    (k : PageKey) : ((e.ask idx pageNum).answer idx addr).holders still w k +
        (if (e.comm idx).Holds w k then 1 else 0) =
      e.holders still w k +
        if (((e.ask idx pageNum).answer idx addr).comm idx).Holds w k then 1 else 0 := by
  have h := holders_point (t := (e.ask idx pageNum).answer idx addr) (w := w) (k := k) still still
    hs (answer_owned _ idx addr) hidx (fun i hi => ?_) fun _ _ => rfl
  · simpa only [has_still] using h
  · rw [answer_comm_ne _ addr hi, ask_comm_ne e pageNum hi]

theorem holders_pos (hidx : idx ∈ e.owned) (h : (e.comm idx).Holds w k) : 0 < e.holders still w k :=
  countP_pos_of_mem hidx (has_still.mpr h)

/-- A slot that holds a page asked for it last. -/
theorem Counted.lastKey (hc : Counted e) (hidx : idx ∈ e.owned) (h : (e.comm idx).Holds w k) :
    (e.comm idx).lastKey = k := by
  obtain ⟨hst, -, rfl⟩ := h
  unfold PageCommMsg.lastKey PageCommMsg.key
  rw [hc.lastGranted idx hidx hst rfl]

theorem Counted.step (hc : Counted e) {a : Action} (h : e.step a = some t) : Counted t := by
  cases a with
  | event event =>
    have hd : Departs still e t := .apply hc.slots hc.positive (leavesStill_still e event) h
    obtain ⟨n, hn⟩ := hd.gone
    refine ⟨hc.slots.step h, hd.positive, hc.lastGranted.departs hd, fun k => ?_⟩
    rw [(hn true k).1]
    exact Nat.le_trans (Nat.sub_le ..) (hc.once k)
  | request idx pageNum addr =>
    have hslots := hc.slots.step h
    obtain ⟨hcan, -, rfl⟩ := step_request h
    have hask : Positive (e.ask idx pageNum) := hc.positive.congr rfl
    have hlast : LastGranted still (e.ask idx pageNum) := by
      intro i hi hst hm
      by_cases hi' : i = idx
      · subst hi'
        rw [ask_comm_self] at hst
        cases hst
      · rw [ask_comm_ne e pageNum hi'] at hst ⊢
        exact hc.lastGranted i hi hst hm
    refine ⟨hslots, hask.answer idx addr, hlast.answer idx addr, fun k => ?_⟩
    have hu := units_answer hask idx addr true k
    have hrel := units_releaseLast hask idx true k
    have hold : (e.ask idx pageNum).units true k ≤ 1 := hc.once k
    by_cases hg : (((e.ask idx pageNum).answer idx addr).comm idx).Holds true k
    · have hzero := answer_writer hask hg
      rw [hrel] at hzero
      rw [hu, hzero, if_pos hg]
    · rw [if_neg hg] at hu
      omega

/-! ### Writers -/

/-- No page has two writers, and what a writer holds is counted: nobody else is granted it. -/
structure WritersExclude (e : PageEngine) : Prop where
  exclusive : ∀ k, ∀ i ∈ e.owned, ∀ j ∈ e.owned,
    (e.comm i).Holds true k → (e.comm j).Holds true k → i = j
  counted : ∀ k, ∀ i ∈ e.owned, (e.comm i).Holds true k → (e.fileWriterCounts.lookup k).isSome

theorem writersExclude_iff (hc : Counted e) :
    WritersExclude e ↔ ∀ k, e.holders still true k ≤ e.units true k := by
  have one : ∀ k, e.holders still true k ≤ 1 ↔ ∀ i ∈ e.owned, ∀ j ∈ e.owned,
      (e.comm i).Holds true k → (e.comm j).Holds true k → i = j := by
    intro k
    unfold holders
    rw [countP_le_one_iff hc.slots.nodup]
    simp only [has_still]
  have counted : ∀ k, (e.fileWriterCounts.lookup k).isSome ↔ 0 < e.units true k := fun k =>
    lookup_isSome_iff (w := true) hc.positive
  constructor
  · intro hx k
    have hle := (one k).mpr (hx.exclusive k)
    by_cases hzero : e.holders still true k = 0
    · omega
    · obtain ⟨i, hi, hholds⟩ := List.countP_pos_iff.mp (Nat.pos_of_ne_zero hzero)
      have hpos := (counted k).mp (hx.counted k i hi (has_still.mp (of_decide_eq_true hholds)))
      omega
  · intro hall
    refine ⟨fun k => (one k).mp (Nat.le_trans (hall k) (hc.once k)), fun k i hi hholds => ?_⟩
    exact (counted k).mpr (Nat.lt_of_lt_of_le (holders_pos hi hholds) (hall k))

/-- The request does not release a page that another writer has been granted: the slot holds the page it
asked for last, or the request releases nothing, or nobody holds that page. -/
def SparesGrant (e : PageEngine) (a : Action) : Prop :=
  ∀ idx pageNum addr, a = .request idx pageNum addr → (e.comm idx).isWriter = true →
    (e.comm idx).status ≠ .allocated → Releases (e.comm idx) pageNum →
      ∀ i ∈ e.owned, ¬ (e.comm i).Holds true (e.comm idx).lastKey

theorem WritersExclude.step_iff (hc : Counted e) (hx : WritersExclude e) {a : Action}
    (h : e.step a = some t) : WritersExclude t ↔ SparesGrant e a := by
  have hall := (writersExclude_iff hc).mp hx
  rw [writersExclude_iff (hc.step h)]
  cases a with
  | event event =>
    have hd : Departs still e t := .apply hc.slots hc.positive (leavesStill_still e event) h
    obtain ⟨n, hn⟩ := hd.gone
    refine iff_of_true (fun k => ?_) fun idx pageNum addr ha => by cases ha
    have hle := hall k
    have hu := (hn true k).1
    have hh := (hn true k).2
    omega
  | request idx pageNum addr =>
    obtain ⟨hcan, -, rfl⟩ := step_request h
    have hu := fun k => request_units hc.positive idx pageNum addr true k
    have hh := fun k => request_holders hc.slots hcan.1 pageNum addr true k
    constructor
    · intro hall' idx' pageNum' addr' ha hw hst hrel i hi hholds
      obtain ⟨rfl, rfl, rfl⟩ := Action.request.inj ha
      have hu' := hu (e.comm idx).lastKey
      have hh' := hh (e.comm idx).lastKey
      rw [if_pos ⟨hrel, hw, rfl⟩] at hu'
      rw [if_neg fun hholds => hst hholds.1] at hh'
      have hpos := holders_pos hi hholds
      have hle := hall' (e.comm idx).lastKey
      have honce := hc.once (e.comm idx).lastKey
      omega
    · intro hspare k
      have hu' := hu k
      have hh' := hh k
      have hle := hall k
      by_cases hrel : Releases (e.comm idx) pageNum ∧ (e.comm idx).isWriter = true ∧ (e.comm idx).lastKey = k
      · rw [if_pos hrel] at hu'
        by_cases hst : (e.comm idx).status = .allocated
        · have hholds : (e.comm idx).Holds true k := by
            have hself : (e.comm idx).Holds true (e.comm idx).key := ⟨hst, hrel.2.1, rfl⟩
            rw [← hrel.2.2, hc.lastKey hcan.1 hself]
            exact hself
          rw [if_pos hholds] at hh'
          omega
        · have hnone : e.holders still true k = 0 := by
            refine List.countP_eq_zero.mpr fun i hi hholds => ?_
            refine hspare idx pageNum addr rfl hrel.2.1 hst hrel.1 i hi ?_
            rw [hrel.2.2]
            exact has_still.mp (of_decide_eq_true hholds)
          omega
      · rw [if_neg hrel] at hu'
        omega

/-- **Writers exclude each other all along a run exactly when no request of the run releases a page that
another writer has been granted.** -/
theorem writers_exclude_iff (c : Setup) (as : List Action) (hrun : ((service c).run c.engine as).isSome) :
    (service c).Always WritersExclude c.engine as ↔ (service c).EachStep SparesGrant c.engine as :=
  System.always_iff_eachStep (I := Counted) (fun _ _ _ hc h => hc.step h)
    (fun _ _ _ hc hx h => hx.step_iff hc h) as (.start c)
    ⟨fun _ i hi => (by cases hi), fun _ i hi => (by cases hi)⟩ hrun

/-- A writer is granted page 1, and another one is refused it. -/
def rivals : List Action :=
  [.event (.regClient ['a'] 1 true 0), .event (.regJournal ['a']), .event (.hold ['a'] 0 ['d'] ['j']),
    .event (.regClient ['b'] 2 true 0), .event (.regJournal ['b']), .event (.hold ['b'] 1 ['d'] ['j']),
    .request 0 1 10, .request 1 1 11]

theorem writers_exclude_iff_rivals : (service .bare).Always WritersExclude Setup.bare.engine rivals ↔
    (service .bare).EachStep SparesGrant Setup.bare.engine rivals :=
  writers_exclude_iff .bare rivals (by decide +kernel)

/-- A writer holds page 1.  Another one is refused page 1, is granted page 2, which releases page 1, and
is granted page 1. -/
theorem two_writers : ¬ (service .bare).Always WritersExclude Setup.bare.engine
    [.event (.regClient ['a'] 1 true 0), .event (.regJournal ['a']), .event (.hold ['a'] 0 ['d'] ['j']),
      .event (.regClient ['b'] 2 true 0), .event (.regJournal ['b']), .event (.hold ['b'] 1 ['d'] ['j']),
      .request 0 1 10, .request 1 1 11, .request 1 2 12, .request 1 1 13] := by
  refine System.not_always_of_test (fun e => decide (0 ∈ e.owned ∧ 1 ∈ e.owned ∧
    (e.comm 0).Holds true ⟨['d'], ['j'], 1⟩ ∧ (e.comm 1).Holds true ⟨['d'], ['j'], 1⟩))
    (by decide +kernel) fun e he hx => ?_
  obtain ⟨h0, h1, hold0, hold1⟩ := of_decide_eq_true he
  cases hx.exclusive _ 0 h0 1 h1 hold0 hold1

/-! ### Readers -/

/-- How many slots of readers hold the page. -/
def readers (e : PageEngine) (k : PageKey) : ℕ := e.owned.countP fun i => decide ((e.comm i).Holds false k)

/-- The readers of every page are counted, and only pages with readers are. -/
structure ReadersCounted (e : PageEngine) : Prop where
  exact : ∀ k, (e.fileReaderCounts.lookup k).getD 0 = e.readers k
  absent : ∀ k, e.fileReaderCounts.lookup k = none ↔ e.readers k = 0

theorem readers_eq (e : PageEngine) (k : PageKey) : e.readers k = e.holders still false k :=
  countP_congr_iff fun _ _ => has_still.symm

theorem readersCounted_iff (hp : Positive e) :
    ReadersCounted e ↔ ∀ k, e.units false k = e.holders still false k := by
  have hnonneg : ∀ k, 0 ≤ (e.fileReaderCounts.lookup k).getD 0 := by
    intro k
    cases h : e.fileReaderCounts.lookup k with
    | none => exact le_rfl
    | some n => exact (hp false k n h).le
  constructor
  · intro hr k
    rw [← readers_eq]
    exact Int.ofNat_inj.mp ((Int.toNat_of_nonneg (hnonneg k)).trans (hr.exact k))
  · intro hall
    refine ⟨fun k => ?_, fun k => ?_⟩
    · rw [readers_eq, ← hall k]
      exact (Int.toNat_of_nonneg (hnonneg k)).symm
    · rw [readers_eq, ← hall k]
      exact lookup_none_iff (w := false) hp

/-- A reader's request releases the page that its slot holds, and if the slot holds none it releases no
page that is counted. -/
def SwapsPage (e : PageEngine) (a : Action) : Prop :=
  ∀ idx pageNum addr, a = .request idx pageNum addr → (e.comm idx).isWriter = false →
    if (e.comm idx).status = .allocated then Releases (e.comm idx) pageNum
    else Releases (e.comm idx) pageNum → e.fileReaderCounts.lookup (e.comm idx).lastKey = none

theorem ReadersCounted.step_iff (hc : Counted e) (hr : ReadersCounted e) {a : Action}
    (h : e.step a = some t) : ReadersCounted t ↔ SwapsPage e a := by
  have hall := (readersCounted_iff hc.positive).mp hr
  rw [readersCounted_iff (hc.step h).positive]
  cases a with
  | event event =>
    have hd : Departs still e t := .apply hc.slots hc.positive (leavesStill_still e event) h
    obtain ⟨n, hn⟩ := hd.gone
    refine iff_of_true (fun k => ?_) fun idx pageNum addr ha => by cases ha
    have heq := hall k
    have hu := (hn false k).1
    have hh := (hn false k).2
    omega
  | request idx pageNum addr =>
    obtain ⟨hcan, -, rfl⟩ := step_request h
    have hu := fun k => request_units hc.positive idx pageNum addr false k
    have hh := fun k => request_holders hc.slots hcan.1 pageNum addr false k
    constructor
    · intro hall' idx' pageNum' addr' ha hw
      obtain ⟨rfl, rfl, rfl⟩ := Action.request.inj ha
      have hu' := hu (e.comm idx).lastKey
      have hh' := hh (e.comm idx).lastKey
      have heq := hall (e.comm idx).lastKey
      have heq' := hall' (e.comm idx).lastKey
      split
      · rename_i hst
        have hself : (e.comm idx).Holds false (e.comm idx).key := ⟨hst, hw, rfl⟩
        by_contra hrel
        rw [if_neg fun h => hrel h.1] at hu'
        rw [hc.lastKey hcan.1 hself, if_pos hself] at hh'
        rw [hc.lastKey hcan.1 hself] at hu' heq heq'
        omega
      · rename_i hst
        intro hrel
        rw [if_pos ⟨hrel, hw, rfl⟩] at hu'
        rw [if_neg fun hholds => hst hholds.1] at hh'
        exact (lookup_none_iff (w := false) hc.positive).mpr (by omega)
    · intro hswap k
      have hu' := hu k
      have hh' := hh k
      have heq := hall k
      by_cases hw : (e.comm idx).isWriter = false
      · have hs := hswap idx pageNum addr rfl hw
        by_cases hst : (e.comm idx).status = .allocated
        · rw [if_pos hst] at hs
          have hself : (e.comm idx).Holds false (e.comm idx).key := ⟨hst, hw, rfl⟩
          have hkey := hc.lastKey hcan.1 hself
          by_cases hk : (e.comm idx).key = k
          · have hpos := holders_pos hcan.1 hself
            rw [hk] at hkey hself hpos
            rw [if_pos ⟨hs, hw, hkey⟩] at hu'
            rw [if_pos hself] at hh'
            omega
          · rw [hkey, if_neg fun h => hk h.2.2] at hu'
            rw [if_neg fun h => hk h.2.2] at hh'
            omega
        · rw [if_neg hst] at hs
          rw [if_neg fun hholds => hst hholds.1] at hh'
          by_cases hrel : Releases (e.comm idx) pageNum ∧ (e.comm idx).isWriter = false ∧
              (e.comm idx).lastKey = k
          · have hzero := (lookup_none_iff (w := false) hc.positive).mp (hs hrel.1)
            rw [hrel.2.2] at hzero
            omega
          · rw [if_neg hrel] at hu'
            omega
      · rw [if_neg fun h => hw h.2.1] at hu'
        rw [if_neg fun h => hw h.2.1] at hh'
        omega

/-- **The counts of readers are exact all along a run exactly when every request of a reader in the run
swaps the page that its slot holds for another one.** -/
theorem readers_counted_iff (c : Setup) (as : List Action) (hrun : ((service c).run c.engine as).isSome) :
    (service c).Always ReadersCounted c.engine as ↔ (service c).EachStep SwapsPage c.engine as :=
  System.always_iff_eachStep (I := Counted) (fun _ _ _ hc h => hc.step h)
    (fun _ _ _ hc hr h => hr.step_iff hc h) as (.start c)
    ((readersCounted_iff (Counted.start c).positive).mpr fun _ => rfl) hrun

theorem readers_counted_iff_request : (service .bare).Always ReadersCounted Setup.bare.engine
      [.event (.disk [genPageFullPath ['d'] ['j'] 1] []), .event (.regClient ['a'] 1 false 0),
        .event (.regJournal ['a']), .event (.hold ['a'] 0 ['d'] ['j']), .request 0 1 10] ↔
    (service .bare).EachStep SwapsPage Setup.bare.engine
      [.event (.disk [genPageFullPath ['d'] ['j'] 1] []), .event (.regClient ['a'] 1 false 0),
        .event (.regJournal ['a']), .event (.hold ['a'] 0 ['d'] ['j']), .request 0 1 10] :=
  readers_counted_iff .bare _ (by decide +kernel)

/-- A reader asks for the page it has: it is counted twice. -/
theorem reader_counted_twice : ¬ (service .bare).Always ReadersCounted Setup.bare.engine
    [.event (.disk [genPageFullPath ['d'] ['j'] 1] []), .event (.regClient ['a'] 1 false 0),
      .event (.regJournal ['a']), .event (.hold ['a'] 0 ['d'] ['j']), .request 0 1 10, .request 0 1 11] := by
  refine System.not_always_of_test (fun e => decide (e.readers ⟨['d'], ['j'], 1⟩ = 1 ∧
    e.fileReaderCounts.lookup ⟨['d'], ['j'], 1⟩ = some 2)) (by decide +kernel) fun e he hr => ?_
  obtain ⟨hone, htwo⟩ := of_decide_eq_true he
  have hexact := hr.exact ⟨['d'], ['j'], 1⟩
  rw [hone, htwo] at hexact
  cases hexact

end Yijinjing.PageEngine
