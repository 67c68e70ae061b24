import Yijinjing.Served.Pages

/-!
# The only writer of a journal

What the server knows of the slot of the only writer, and of its pages: the other users of the engine
change neither (`Mine.others`), and a request of the writer releases at most the page it asked for before
and is granted only a page that is not counted (`Mine.request`).
-/

namespace Yijinjing.Served

open Lib Prog PageEngine

variable {c : Setting} {e t : PageEngine} {idx i : ℕ} {n k : Int16} {a : PageEngine.Action} {ev : Event}

/-! ### The only writer -/

/-- The slot is that of the only writer of the journal, who is not waiting for a page. -/
structure Mine (c : Setting) (e : PageEngine) (idx : ℕ) : Prop where
  counted : Counted e
  owned : idx ∈ e.owned
  writes : Writes c (e.comm idx)
  idle : (e.comm idx).status ≠ .requesting
  only : OnlyWriter c e idx

/-- How often the server counts a page of the journal for writers. -/
def writers (c : Setting) (e : PageEngine) (n : Int16) : ℕ := e.units true (c.key n)

/-- Only the writer's own slot can hold a page of the journal. -/
theorem Mine.holds (hm : Mine c e idx) (hi : i ∈ e.owned) (h : (e.comm i).Holds true (c.key n)) : i = idx := by
  by_contra hne
  obtain ⟨hst, hw, hkey⟩ := h
  refine hm.only i hi hne ⟨hw, congrArg PageKey.folder hkey, congrArg PageKey.name hkey, ?_, ?_⟩ <;>
    rw [hst] <;> exact CommStatus.noConfusion

theorem Mine.holders_le (hm : Mine c e idx) (n : Int16) : e.holders still true (c.key n) ≤ 1 := by
  unfold holders
  refine (countP_le_one_iff hm.counted.slots.nodup).mpr fun i hi j hj hhi hhj => ?_
  rw [has_still] at hhi hhj
  rw [hm.holds hi hhi, hm.holds hj hhj]

/-- The slot of the writer is the same, and so are the counts of its pages. -/
structure Untouched (c : Setting) (idx : ℕ) (e t : PageEngine) : Prop where
  comm : t.comm idx = e.comm idx
  writers : ∀ n, writers c t n = writers c e n

theorem Mine.event (hm : Mine c e idx) (h : e.apply ev = some t) (hc : Counted t) (howned : idx ∈ t.owned)
    (honly : OnlyWriter c t idx) : Mine c t idx ∧ Untouched c idx e t := by
  obtain ⟨-, -, -, hraw, hocc⟩ := hm.writes
  have hcomm : t.comm idx = e.comm idx := by
    cases apply_comm h idx with
    | kept hcomm => exact hcomm
    | freed hst => exact absurd hst (hc.slots.not_raw idx howned)
    | occupied hst _ => exact absurd hst hraw
    | held hst _ => exact absurd hst hocc
  have ht : Mine c t idx := ⟨hc, howned, hcomm ▸ hm.writes, hcomm ▸ hm.idle, honly⟩
  refine ⟨ht, hcomm, fun n => ?_⟩
  have hd : Departs still e t := .apply hm.counted.slots hm.counted.positive (leavesStill_still e ev) h
  obtain ⟨gone, hgone⟩ := hd.gone
  obtain ⟨hunits, hholders⟩ := hgone true (c.key n)
  -- the writer holds the page before and after, or nobody holds it
  have hzero : gone true (c.key n) = 0 := by
    by_cases hh : (e.comm idx).Holds true (c.key n)
    · have hle := hm.holders_le n
      have hpos := holders_pos howned (hcomm.symm ▸ hh)
      omega
    · have hnone : e.holders still true (c.key n) = 0 := by
        refine List.countP_eq_zero.mpr fun i hi hhi => hh ?_
        have hhi' := has_still.mp (of_decide_eq_true hhi)
        rwa [hm.holds hi hhi'] at hhi'
      omega
  unfold Served.writers
  rw [hunits, hzero, Nat.sub_zero]

theorem Mine.others (hm : Mine c e idx) (ha : asks idx a = false) (h : e.step a = some t) (howned : idx ∈ t.owned)
    (honly : OnlyWriter c t idx) : Mine c t idx ∧ Untouched c idx e t := by
  have hc := hm.counted.step h
  cases a with
  | event event => exact hm.event h hc howned honly
  | request i n addr =>
    have hne : i ≠ idx := fun hi => by simp [asks, hi] at ha
    obtain ⟨⟨hi, hst⟩, -, rfl⟩ := step_request h
    have hcomm : ((e.ask i n).answer i addr).comm idx = e.comm idx := by
      rw [answer_comm_ne _ addr hne.symm, ask_comm_ne e n hne.symm]
    refine ⟨⟨hc, howned, hcomm ▸ hm.writes, hcomm ▸ hm.idle, honly⟩, hcomm, fun k => ?_⟩
    -- the other slot is that of a reader, or of another journal
    simp only [List.mem_cons, List.not_mem_nil, or_false, not_or] at hst
    have hother : ∀ m, (e.comm i).isWriter = true → (⟨(e.comm i).folder, (e.comm i).name, m⟩ : PageKey) ≠ c.key k :=
      fun m hw hkey => hm.only i hi hne ⟨hw, congrArg PageKey.folder hkey, congrArg PageKey.name hkey, hst.1, hst.2.1⟩
    have hself : (((e.ask i n).answer i addr).comm i).isWriter = (e.comm i).isWriter ∧
        (((e.ask i n).answer i addr).comm i).key = ⟨(e.comm i).folder, (e.comm i).name, n⟩ := by
      rw [answer_comm_self, ask_comm_self]
      exact ⟨rfl, rfl⟩
    unfold writers
    rw [request_units hm.counted.positive, if_neg fun hrel => hother _ hrel.2.1 hrel.2.2,
      if_neg fun hholds => hother n (hself.1 ▸ hholds.2.1) (hself.2 ▸ hholds.2.2)]
    rfl

/-! ### The requests of the writer -/

/-- The engine after a request of the writer. -/
def after (c : Setting) (e : PageEngine) (idx : ℕ) (n : Int16) : PageEngine :=
  (e.ask idx n).answer idx (c.addr e)

/-- What a request of the writer has done. -/
structure Asked (c : Setting) (e : PageEngine) (idx : ℕ) (n : Int16) : Prop where
  mine : Mine c (after c e idx n) idx
  clients : (after c e idx n).clientJournals = e.clientJournals
  lastPageNum : ((after c e idx n).comm idx).lastPageNum = n
  /-- the page of the request before is released, and the page is counted if it is granted -/
  writers : ∀ k, writers c (after c e idx n) k =
    (writers c e k - if Releases (e.comm idx) n ∧ (e.comm idx).lastPageNum = k then 1 else 0) +
      if ((after c e idx n).comm idx).status = .allocated ∧ n = k then 1 else 0

theorem Mine.canAsk (hm : Mine c e idx) : e.CanAsk idx := by
  obtain ⟨-, -, -, hraw, hocc⟩ := hm.writes
  refine ⟨hm.owned, ?_⟩
  simp only [List.mem_cons, List.not_mem_nil, or_false, not_or]
  exact ⟨hraw, hocc, hm.idle⟩

theorem key_eq_iff {m n : Int16} : c.key m = c.key n ↔ m = n :=
  ⟨congrArg PageKey.pageNum, congrArg c.key⟩

theorem Mine.request (hm : Mine c e idx) (n : Int16) : Asked c e idx n := by
  have hstep : e.step (.request idx n (c.addr e)) = some (after c e idx n) := if_pos ⟨hm.canAsk, c.fresh e⟩
  have hself : (after c e idx n).comm idx = { PageProvider.ask (e.comm idx) n with
      status := (e.ask idx n).answerStatus idx (c.addr e), lastPageNum := n } := by
    unfold after
    rw [answer_comm_self, ask_comm_self]
    rfl
  obtain ⟨hw, hdir, hname, -, -⟩ := hm.writes
  obtain ⟨hraw, hocc, hreq⟩ := answerStatus_ne (e.ask idx n) idx (c.addr e)
  have hclients : (after c e idx n).clientJournals = e.clientJournals :=
    (keeps_answer (e.ask idx n) idx (c.addr e)).clientJournals
  have howned : (after c e idx n).owned = e.owned := answer_owned _ _ _
  refine ⟨⟨hm.counted.step hstep, howned ▸ hm.owned, ?_, ?_, fun i hi hne => ?_⟩, hclients, ?_, fun k => ?_⟩
  · rw [hself]
    exact ⟨hw, hdir, hname, hraw, hocc⟩
  · rw [hself]
    exact hreq
  · have hcomm : (after c e idx n).comm i = e.comm i :=
      (answer_comm_ne _ _ hne).trans (ask_comm_ne e n hne)
    rw [hcomm]
    exact hm.only i (howned ▸ hi) hne
  · rw [hself]
  · have hlast : (e.comm idx).lastKey = c.key k ↔ (e.comm idx).lastPageNum = k := by
      unfold PageCommMsg.lastKey
      rw [hdir, hname]
      exact key_eq_iff
    have hholds : ((after c e idx n).comm idx).Holds true (c.key k) ↔
        ((after c e idx n).comm idx).status = .allocated ∧ n = k := by
      rw [hself]
      unfold PageCommMsg.Holds PageCommMsg.key
      simp only [PageProvider.ask, PageProvider.storeStatus, PageProvider.storeNum, hw, hdir, hname, true_and]
      exact and_congr_right fun _ => key_eq_iff
    have hunits := request_units hm.counted.positive idx n (c.addr e) true (c.key k)
    simp only [hw, hlast, true_and] at hunits
    unfold writers
    rw [← if_congr hholds rfl rfl]
    exact hunits

namespace Asked

variable (ha : Asked c e idx n)

include ha

theorem once (k : Int16) : Served.writers c (after c e idx n) k ≤ 1 := ha.mine.counted.once _

/-- The page itself is not released. -/
theorem writers_self : Served.writers c (after c e idx n) n =
    Served.writers c e n + if ((after c e idx n).comm idx).status = .allocated then 1 else 0 := by
  have hunits := ha.writers n
  rw [if_neg fun h => h.1.2 h.2, Nat.sub_zero] at hunits
  simpa only [and_true] using hunits

/-- A page that is granted is counted. -/
theorem granted (hst : ((after c e idx n).comm idx).status = .allocated) :
    Served.writers c (after c e idx n) n = 1 := by
  have hself := ha.writers_self
  have honce := ha.once n
  rw [if_pos hst] at hself
  omega

/-- A page that is counted is not granted. -/
theorem refused (hn : Served.writers c e n = 1) : ((after c e idx n).comm idx).status ≠ .allocated := fun hst => by
  have hself := ha.writers_self
  have honce := ha.once n
  rw [if_pos hst] at hself
  omega

/-- The page that was asked for before is released. -/
theorem released (hlast : 0 < (e.comm idx).lastPageNum) (hne : (e.comm idx).lastPageNum ≠ n)
    (hone : Served.writers c e (e.comm idx).lastPageNum = 1) :
    Served.writers c (after c e idx n) (e.comm idx).lastPageNum = 0 := by
  rw [ha.writers, if_pos ⟨⟨hlast, hne⟩, rfl⟩, if_neg fun h => hne h.2.symm, hone]

/-- Pages up to 0 are not released. -/
theorem kept_of_le (hk : k ≤ 0) (hone : Served.writers c e k = 1) : Served.writers c (after c e idx n) k = 1 := by
  have hunits := ha.writers k
  have honce := ha.once k
  have hrel : ¬ (Releases (e.comm idx) n ∧ (e.comm idx).lastPageNum = k) := fun h =>
    absurd hk (Int16.not_le.mpr (h.2 ▸ h.1.1))
  rw [if_neg hrel] at hunits
  omega

/-- A page that is not counted, and not asked for, is not counted afterwards. -/
theorem zero_of_ne (hk : k ≠ n) (hzero : Served.writers c e k = 0) : Served.writers c (after c e idx n) k = 0 := by
  rw [ha.writers, hzero, Nat.zero_sub, Nat.zero_add, if_neg fun h => hk h.2.symm]

end Asked

end Yijinjing.Served
