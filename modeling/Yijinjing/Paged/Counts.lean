import Yijinjing.Lib.Tally
import Yijinjing.Paged.Service

/-!
# What is counted, and who holds it

`fileReaderCounts` and `fileWriterCounts` count the pages that are in use; a page is held by the slots
that were granted it.  Here is what every operation does to the counts (`units`) and to the number of
holders: events other than requests take both down alike (`Departs`), and a request releases and grants
at most one unit (`units_answer`).
-/

namespace Yijinjing

open Lib

/-- The key of the page that the slot was last answered for. -/
def PageCommMsg.lastKey (m : PageCommMsg) : PageKey := ⟨m.folder, m.name, m.lastPageNum⟩

/-- The slot has been granted the page. -/
def PageCommMsg.Holds (m : PageCommMsg) (isWriter : Bool) (k : PageKey) : Prop :=
  m.status = .allocated ∧ m.isWriter = isWriter ∧ m.key = k

instance (m : PageCommMsg) (w : Bool) (k : PageKey) : Decidable (m.Holds w k) := by
  unfold PageCommMsg.Holds
  infer_instance

namespace PageEngine

variable {e t u : PageEngine} {name : CStr} {info : PageClientInfo} {idx i addr : ℕ} {w : Bool} {k : PageKey}
  {msg : PageCommMsg} {moving : ℕ → Bool}

/-- How often a page is counted. -/
def units (e : PageEngine) (isWriter : Bool) (k : PageKey) : ℕ := (((e.counts isWriter).lookup k).getD 0).toNat

/-- Counts are at least 1. -/
def Positive (e : PageEngine) : Prop := ∀ w k n, (e.counts w).lookup k = some n → 0 < n

/-! ### Counts -/

theorem counts_setCounts (e : PageEngine) (w w' : Bool) (c : AList fun _ : PageKey => ℤ) :
    (e.setCounts w c).counts w' = if w' = w then c else e.counts w' := by
  cases w <;> cases w' <;> rfl

theorem counts_dropAddr (e : PageEngine) (path : CStr) (w : Bool) : (e.dropAddr path).counts w = e.counts w := by
  unfold dropAddr
  split <;> rfl

theorem Positive.start (tempPath commFile : CStr) (os : Os) : Positive (start tempPath commFile os) := by
  intro w k n h
  cases w <;> cases h

theorem Positive.congr (hp : Positive e) (h : t.counts = e.counts) : Positive t := by
  intro w k n hl
  rw [h] at hl
  exact hp w k n hl

theorem units_congr (h : t.counts = e.counts) : t.units w k = e.units w k := by
  unfold units
  rw [h]

/-- A page is counted exactly when it has an entry. -/
theorem lookup_isSome_iff (hp : Positive e) : ((e.counts w).lookup k).isSome ↔ 0 < e.units w k := by
  unfold units
  cases h : (e.counts w).lookup k with
  | none => simp
  | some n =>
    have hn := hp w k n h
    simp [hn]

theorem lookup_none_iff (hp : Positive e) : (e.counts w).lookup k = none ↔ e.units w k = 0 := by
  rw [← Option.not_isSome_iff_eq_none, lookup_isSome_iff hp, Nat.pos_iff_ne_zero, not_not]

/-- What `release_page` does to the counts. -/
theorem counts_releasePage (e : PageEngine) (msg : PageCommMsg) (w : Bool) :
    (e.releasePage msg).counts w =
      match (e.counts msg.isWriter).lookup msg.key with
      | none => e.counts w
      | some n =>
        if w = msg.isWriter then
          if n - 1 = 0 then (e.counts w).erase msg.key else (e.counts w).insert msg.key (n - 1)
        else e.counts w := by
  unfold releasePage
  cases h : (e.counts msg.isWriter).lookup msg.key with
  | none => rfl
  | some n =>
    dsimp only
    by_cases hn : n - 1 = 0
    · rw [if_pos hn, if_pos hn]
      split
      · rw [counts_dropAddr, counts_setCounts]
        split
        · rename_i hw
          rw [hw]
        · rfl
      · rw [counts_setCounts]
        split
        · rename_i hw
          rw [hw]
        · rfl
    · rw [if_neg hn, if_neg hn, counts_setCounts]
      split
      · rename_i hw
        rw [hw]
      · rfl

/-- Other pages are counted as before. -/
theorem lookup_counts_releasePage_of_ne (h : ¬ (msg.isWriter = w ∧ msg.key = k)) :
    ((e.releasePage msg).counts w).lookup k = (e.counts w).lookup k := by
  rw [counts_releasePage]
  cases (e.counts msg.isWriter).lookup msg.key with
  | none => rfl
  | some n =>
    dsimp only
    by_cases hw : w = msg.isWriter
    · have hk : k ≠ msg.key := fun hk => h ⟨hw.symm, hk.symm⟩
      rw [if_pos hw]
      by_cases hone : n - 1 = 0
      · rw [if_pos hone, AList.lookup_erase_ne hk]
      · rw [if_neg hone, AList.lookup_insert_ne hk]
    · rw [if_neg hw]

/-- The page itself loses one unit, if it has any. -/
theorem lookup_counts_releasePage_self (e : PageEngine) (msg : PageCommMsg) :
    ((e.releasePage msg).counts msg.isWriter).lookup msg.key =
      ((e.counts msg.isWriter).lookup msg.key).bind fun n => if n - 1 = 0 then none else some (n - 1) := by
  rw [counts_releasePage]
  cases hl : (e.counts msg.isWriter).lookup msg.key with
  | none => exact hl
  | some n =>
    dsimp only
    rw [if_pos rfl, Option.bind_some]
    by_cases hone : n - 1 = 0
    · rw [if_pos hone, if_pos hone, AList.lookup_erase]
    · rw [if_neg hone, if_neg hone, AList.lookup_insert]

theorem Positive.releasePage (hp : Positive e) (msg : PageCommMsg) : Positive (e.releasePage msg) := by
  intro w k n h
  by_cases hwk : msg.isWriter = w ∧ msg.key = k
  · obtain ⟨rfl, rfl⟩ := hwk
    rw [lookup_counts_releasePage_self] at h
    obtain ⟨m, hl, hm⟩ := Option.bind_eq_some_iff.mp h
    have hpos := hp _ _ _ hl
    split at hm
    · cases hm
    · obtain rfl := Option.some.inj hm
      omega
  · rw [lookup_counts_releasePage_of_ne hwk] at h
    exact hp w k n h

/-- A release takes one unit of its page, if there is one. -/
theorem units_releasePage (hp : Positive e) (msg : PageCommMsg) (w : Bool) (k : PageKey) :
    (e.releasePage msg).units w k = e.units w k - if msg.isWriter = w ∧ msg.key = k then 1 else 0 := by
  unfold units
  by_cases hwk : msg.isWriter = w ∧ msg.key = k
  · obtain ⟨rfl, rfl⟩ := hwk
    rw [lookup_counts_releasePage_self, if_pos ⟨rfl, rfl⟩]
    cases hl : (e.counts msg.isWriter).lookup msg.key with
    | none => rfl
    | some n =>
      have hn := hp _ _ _ hl
      rw [Option.bind_some, Option.getD_some]
      by_cases hone : n - 1 = 0
      · rw [if_pos hone, Option.getD_none]
        omega
      · rw [if_neg hone, Option.getD_some]
        omega
  · rw [lookup_counts_releasePage_of_ne hwk, if_neg hwk, Nat.sub_zero]

/-- A grant counts one unit; a writer is refused where one is counted. -/
theorem counts_countPage (e : PageEngine) (msg : PageCommMsg) :
    (e.countPage msg).1 = .allocated ∧
        (e.countPage msg).2 = e.setCounts msg.isWriter ((e.counts msg.isWriter).insert msg.key
          (((e.counts msg.isWriter).lookup msg.key).getD 0 + 1)) ∧
        (msg.isWriter = true → (e.counts true).lookup msg.key = none) ∨
      (e.countPage msg).1 = .moreThanOneWrite ∧ (e.countPage msg).2 = e ∧ msg.isWriter = true ∧
        ((e.counts true).lookup msg.key).isSome := by
  unfold countPage
  cases hl : (e.counts msg.isWriter).lookup msg.key with
  | none =>
    refine .inl ⟨rfl, rfl, fun hw => ?_⟩
    rw [hw] at hl
    exact hl
  | some n =>
    dsimp only
    split
    · rename_i hw
      rw [hw] at hl
      exact .inr ⟨rfl, rfl, hw, by rw [hl]; rfl⟩
    · rename_i hw
      exact .inl ⟨rfl, rfl, fun h => absurd h hw⟩

theorem Positive.countPage (hp : Positive e) (msg : PageCommMsg) : Positive (e.countPage msg).2 := by
  rcases e.counts_countPage msg with ⟨-, h, -⟩ | ⟨-, h, -⟩
  · rw [h]
    intro w k n hl
    rw [counts_setCounts] at hl
    split at hl
    · by_cases hk : k = msg.key
      · subst hk
        rw [AList.lookup_insert] at hl
        obtain rfl := Option.some.inj hl
        cases hold : (e.counts msg.isWriter).lookup msg.key with
        | none => decide
        | some m =>
          have hm := hp _ _ _ hold
          simp only [Option.getD_some]
          omega
      · rename_i hw
        rw [AList.lookup_insert_ne hk, ← hw] at hl
        exact hp w k n hl
    · exact hp w k n hl
  · rw [h]
    exact hp

theorem units_countPage (hp : Positive e) (msg : PageCommMsg) (w : Bool) (k : PageKey) :
    (e.countPage msg).2.units w k =
      e.units w k + if (e.countPage msg).1 = .allocated ∧ msg.isWriter = w ∧ msg.key = k then 1 else 0 := by
  rcases e.counts_countPage msg with ⟨hst, h, -⟩ | ⟨hst, h, -⟩
  · rw [hst, h]
    unfold units
    rw [counts_setCounts]
    by_cases hw : w = msg.isWriter
    · subst hw
      rw [if_pos rfl]
      by_cases hk : k = msg.key
      · subst hk
        rw [AList.lookup_insert, if_pos ⟨rfl, rfl, rfl⟩]
        cases hold : (e.counts msg.isWriter).lookup msg.key with
        | none => rfl
        | some m =>
          have hm := hp _ _ _ hold
          simp only [Option.getD_some]
          omega
      · rw [AList.lookup_insert_ne hk, if_neg fun h => hk h.2.2.symm]
        rfl
    · rw [if_neg hw, if_neg fun h => hw h.2.1.symm]
      rfl
  · rw [hst, h, if_neg fun h => CommStatus.noConfusion h.1]
    rfl

theorem counts_mapPage {e' : PageEngine} (h : e.mapPage msg addr = .ok e') : e'.counts = e.counts := by
  have hm := maps e msg addr
  rw [h] at hm
  cases hm <;> rfl

theorem Positive.initiatePage (hp : Positive e) (msg : PageCommMsg) (addr : ℕ) :
    Positive (e.initiatePage msg addr).2 := by
  unfold PageEngine.initiatePage
  split
  · exact hp
  · rename_i e' h
    exact (hp.congr (counts_mapPage h)).countPage msg

/-- What `initiate_page` does to the counts: a grant is one unit more. -/
theorem units_initiatePage (hp : Positive e) (msg : PageCommMsg) (addr : ℕ) (w : Bool) (k : PageKey) :
    (e.initiatePage msg addr).2.units w k = e.units w k +
      if (e.initiatePage msg addr).1 = .allocated ∧ msg.isWriter = w ∧ msg.key = k then 1 else 0 := by
  have hm := maps e msg addr
  unfold initiatePage
  cases h : e.mapPage msg addr with
  | error status =>
    rw [h] at hm
    cases hm <;> rfl
  | ok e' =>
    have hc := counts_mapPage h
    dsimp only
    rw [units_countPage (hp.congr hc), units_congr hc]

/-- A writer is granted a page only when the page is not counted. -/
theorem initiatePage_writer (hp : Positive e) (hg : (e.initiatePage msg addr).1 = .allocated)
    (hw : msg.isWriter = true) : e.units true msg.key = 0 := by
  have hm := maps e msg addr
  unfold initiatePage at hg
  cases h : e.mapPage msg addr with
  | error status =>
    rw [h] at hg hm
    cases hm <;> cases hg
  | ok e' =>
    rw [h] at hg
    dsimp only at hg
    have hc := counts_mapPage h
    rcases e'.counts_countPage msg with ⟨-, -, hnone⟩ | ⟨hst, -⟩
    · have hl := hnone hw
      rw [hc] at hl
      exact (lookup_none_iff hp).mp hl
    · rw [hst] at hg
      cases hg

/-! ### Answers -/

/-- An answer releases the page of the slot's last request. -/
def Drops (m : PageCommMsg) : Prop := 0 < m.lastPageNum ∧ m.lastPageNum ≠ m.pageNum

instance (m : PageCommMsg) : Decidable (Drops m) := by
  unfold Drops
  infer_instance

theorem releaseLast_eq (e : PageEngine) (idx : ℕ) : e.releaseLast idx =
    if Drops (e.comm idx) then e.releasePage { e.comm idx with pageNum := (e.comm idx).lastPageNum } else e :=
  rfl

theorem Positive.releaseLast (hp : Positive e) (idx : ℕ) : Positive (e.releaseLast idx) := by
  rw [releaseLast_eq]
  split
  · exact hp.releasePage _
  · exact hp

theorem units_releaseLast (hp : Positive e) (idx : ℕ) (w : Bool) (k : PageKey) :
    (e.releaseLast idx).units w k = e.units w k -
      if Drops (e.comm idx) ∧ (e.comm idx).isWriter = w ∧ (e.comm idx).lastKey = k then 1 else 0 := by
  rw [releaseLast_eq]
  by_cases hd : Drops (e.comm idx)
  · rw [if_pos hd, units_releasePage hp]
    simp only [hd, true_and]
    rfl
  · rw [if_neg hd, if_neg fun h => hd h.1]
    rfl

theorem Positive.answer (hp : Positive e) (idx addr : ℕ) : Positive (e.answer idx addr) :=
  ((hp.releaseLast idx).initiatePage (e.comm idx) addr).congr rfl

/-- **What an answer does to the counts.** -/
theorem units_answer (hp : Positive e) (idx addr : ℕ) (w : Bool) (k : PageKey) :
    (e.answer idx addr).units w k =
      (e.units w k -
        if Drops (e.comm idx) ∧ (e.comm idx).isWriter = w ∧ (e.comm idx).lastKey = k then 1 else 0) +
      if ((e.answer idx addr).comm idx).Holds w k then 1 else 0 := by
  have hu : (e.answer idx addr).units w k =
      ((e.releaseLast idx).initiatePage (e.comm idx) addr).2.units w k := units_congr rfl
  rw [hu, units_initiatePage (hp.releaseLast idx), units_releaseLast hp, answer_comm_self]
  rfl

/-- A writer that is granted a page is the first to be counted there. -/
theorem answer_writer (hp : Positive e) (hg : ((e.answer idx addr).comm idx).Holds true k) :
    (e.releaseLast idx).units true k = 0 := by
  rw [answer_comm_self] at hg
  obtain ⟨hst, hw, rfl⟩ := hg
  exact initiatePage_writer (hp.releaseLast idx) hst hw

end PageEngine

end Yijinjing
