import Yijinjing.Lib.Merge
import Yijinjing.Journal.Unread

/-!
# A reader of several journals

`JournalReader.h` and `JournalReader.cpp` for any number of journals.  `getNextFrame` looks for the first
unread frame of each journal in turn and takes the one with the least time; its loop starts with the time
`TIME_TO_LAST`, which stands for no frame.  `getNextFrame_spec` says what a call does to the unread frames
of all journals, and `visitUntilNull_spec` what the calls up to the first null give.

Each journal has the page files that the reader has last seen of it: the loop looks at one journal after
the other, and the writers go on in between.
-/

namespace Yijinjing.Merge

open Lib Prog

/-- A `Journal` of a reader.  `source` says which journal it is, and `env.files` are its page files. -/
structure Member where
  host : Host
  source : ℕ
  env : Env

/-- `Journal::getShortName` -/
def Member.shortName (m : Member) : CStr := m.host.jname

/-- `JournalReader`; `curJournal` is an index of `journals`. -/
structure MultiReader where
  journals : List Member
  curJournal : Option ℕ
  journalMap : AList fun _ : CStr => ℕ

abbrev ReaderM (α : Type) := Prog Error MultiReader α

/-- A call of `journals[idx]`. -/
def onJournal {α : Type} (idx : ℕ) (x : Host → JournalM α) : ReaderM α := do
  let r ← get
  match r.journals[idx]? with
  | none => throw .nullPage
  | some m =>
    let out := Prog.exec (x m.host) m.env
    set { r with journals := r.journals.set idx { m with env := out.2 } }
    match out.1 with
    | .ok a => return a
    | .error e => throw e

namespace MultiReader

/-- `JournalReader::addJournal`, once the journal is registered. -/
def addJournal (host : Host) (source : ℕ) (files : Files) : ReaderM ℕ := do
  let r ← get
  match r.journalMap.lookup host.jname with
  | some idx => return idx
  | none =>
    let idx := r.journals.length
    let journal : Member := { host := host, source := source, env := JournalReader.start files }
    set { r with
      journals := r.journals ++ [journal]
      journalMap := r.journalMap.insert host.jname idx }
    return idx

/-- `JournalReader::expireJournal` -/
def expireJournal (idx : ℕ) : ReaderM Bool := do
  if idx < (← get).journals.length then
    onJournal idx Journal.expire
    return true
  else
    return false

/-- `JournalReader::seekTimeJournal` -/
def seekTimeJournal (idx : ℕ) (nano : Int64) : ReaderM Bool := do
  if idx < (← get).journals.length then
    onJournal idx fun h => Journal.seekTime h nano
  else
    return false

/-- `JournalReader::expireJournalByName` -/
def expireJournalByName (jname : CStr) : ReaderM Bool := do
  match (← get).journalMap.lookup jname with
  | none => return false
  | some idx => expireJournal idx

/-- `JournalReader::seekTimeJournalByName` -/
def seekTimeJournalByName (jname : CStr) (nano : Int64) : ReaderM Bool := do
  match (← get).journalMap.lookup jname with
  | none => return false
  | some idx => seekTimeJournal idx nano

/-- The loop of `JournalReader::jumpStart`. -/
def seekAll (startTime : Int64) : List ℕ → ReaderM Unit
  | [] => return ()
  | idx :: idxs => do
    let _ ← onJournal idx fun h => Journal.seekTime h startTime
    seekAll startTime idxs

/-- `JournalReader::jumpStart` -/
def jumpStart (startTime : Int64) : ReaderM Unit := do
  seekAll startTime (List.range (← get).journals.length)

/-- `minNano` and `res_address`, as a page number and an address on the page. -/
structure Best where
  minNano : Int64
  resAddress : Option (Int16 × ℕ)

/-- The loop of `getNextFrame` over the journals. -/
def findBest : List ℕ → Best → ReaderM Best
  | [], best => return best
  | idx :: idxs, best => do
    match ← onJournal idx locateHeader with
    | none => findBest idxs best
    | some header =>
      if best.minNano = timeToLast ∨ header.nano < best.minNano then
        modify fun r => { r with curJournal := some idx }
        findBest idxs ⟨header.nano, some (header.page, header.frame)⟩
      else
        findBest idxs best

/-- `JournalReader::getNextFrame`, and the record read off the frame. -/
def getNextFrame : ReaderM (Option Record) := do
  let best ← findBest (List.range (← get).journals.length) ⟨timeToLast, none⟩
  match best.resAddress with
  | none => return none
  | some (page, frame) =>
    match (← get).curJournal with
    | none => throw .nullPage
    | some idx => return some (← onJournal idx fun _ => takeFrame page frame)

/-- `JournalReader::getFrameName` -/
def getFrameName (r : MultiReader) : CStr :=
  match r.curJournal with
  | none => []
  | some idx => (r.journals[idx]?.map Member.shortName).getD []

/-- The arguments of `IJournalVisitor::visit`: the name of the journal and the frame. -/
abbrev Visit := CStr × Record

/-- The loop of `JournalReader::startVisiting` up to the first null, for fewer than so many frames: what
each visitor is called with. -/
def visitUntilNull : ℕ → ReaderM (List Visit)
  | 0 => throw .noEnd
  | fuel + 1 => do
    match ← getNextFrame with
    | none => return []
    | some frame =>
      let name := (← get).getFrameName
      return (name, frame) :: (← visitUntilNull fuel)

end MultiReader

open MultiReader

/-! ### What the reader has not been given -/

/-- The unread frames of a journal, under its name. -/
def Member.Unread (m : Member) (vs : List Visit) : Prop :=
  ∃ rs, Yijinjing.Unread m.env rs ∧ vs = rs.map (Prod.mk m.shortName)

/-- The unread frames of each journal. -/
abbrev MultiReader.Unread (r : MultiReader) (ls : List (List Visit)) : Prop :=
  List.Forall₂ Member.Unread r.journals ls

/-- The journals are open for reading, and all page requests are granted. -/
structure Member.Granted (m : Member) : Prop where
  grants : m.host.Grants
  isWriting : m.env.journal.isWriting = false

abbrev MultiReader.Granted (r : MultiReader) : Prop := ∀ m ∈ r.journals, m.Granted

/-- The order by time. -/
def NotLater (x y : Visit) : Prop := x.2.nano ≤ y.2.nano

instance : DecidableRel NotLater := fun x y => by unfold NotLater; infer_instance

instance : IsTrans Visit NotLater := ⟨fun _ _ _ hxy hyz => Int64.le_trans hxy hyz⟩

instance : Std.Total NotLater := ⟨fun x y => Int64.le_total x.2.nano y.2.nano⟩

/-- No pending frame has a negative time. -/
def NonNeg (ls : List (List Visit)) : Prop := ∀ l ∈ ls, ∀ x ∈ l, 0 ≤ x.2.nano

/-- The reader is the same but for its place in the journal. -/
structure MemberKept (m m' : Member) : Prop where
  host : m'.host = m.host
  source : m'.source = m.source
  env : Kept m.env m'.env

variable {r r' : MultiReader} {ls : List (List Visit)} {m : Member} {k idx n : ℕ} {x : Visit}
  {l xs : List Visit} {best : Best} {e : Env}

/-! ### Calls of one journal -/

/-- The reader with a journal in another state. -/
def MultiReader.setEnv (r : MultiReader) (idx : ℕ) (m : Member) (e : Env) : MultiReader :=
  { r with journals := r.journals.set idx { m with env := e } }

theorem onJournal_runs {α : Type} {f : Host → JournalM α} {a : α} (hm : r.journals[idx]? = some m)
    (hf : Runs (f m.host) m.env a e) : Runs (onJournal idx f) r a (r.setEnv idx m e) := by
  have hexec : Prog.exec (f m.host) m.env = (.ok a, e) := hf
  unfold onJournal
  refine (Runs.get r).bind ?_
  rw [hm]
  dsimp only
  rw [hexec]
  exact (Runs.set _ _).bind (Runs.pure _ _)

theorem MemberKept.refl (m : Member) : MemberKept m m := ⟨rfl, rfl, .refl _⟩

theorem MemberKept.trans {m' m'' : Member} (h1 : MemberKept m m') (h2 : MemberKept m' m'') : MemberKept m m'' :=
  ⟨h2.host.trans h1.host, h2.source.trans h1.source, h1.env.trans h2.env⟩

/-- All journals of the reader are where they were, or have moved in the same page files. -/
abbrev AllKept (r r' : MultiReader) : Prop := List.Forall₂ MemberKept r.journals r'.journals

theorem AllKept.refl (r : MultiReader) : AllKept r r := List.forall₂_same.mpr fun m _ => .refl m

theorem AllKept.trans {r'' : MultiReader} (h1 : AllKept r r') (h2 : AllKept r' r'') : AllKept r r'' := by
  unfold AllKept at h1 h2 ⊢
  generalize r.journals = ms at h1
  generalize r'.journals = ms' at h1 h2
  generalize r''.journals = ms'' at h2
  induction h1 generalizing ms'' with
  | nil => exact h2
  | cons h1 _ ih =>
    cases h2 with
    | cons h2 htail => exact .cons (h1.trans h2) (ih _ htail)

theorem AllKept.setEnv (hm : r.journals[idx]? = some m) (hk : Kept m.env e) : AllKept r (r.setEnv idx m e) := by
  obtain ⟨hlt, hget⟩ := List.getElem?_eq_some_iff.mp hm
  have hset := forall₂_set (AllKept.refl r) idx (b := m) (c := { m with env := e }) fun _ => ⟨rfl, rfl, hk⟩
  rw [← hget, List.set_getElem_self hlt, hget] at hset
  exact hset

theorem AllKept.granted (hk : AllKept r r') (hg : r.Granted) : r'.Granted := by
  intro m' hm'
  obtain ⟨j, hj⟩ := List.getElem?_of_mem hm'
  obtain ⟨m, hm, hkept⟩ := forall₂_getElem? hk.flip hj
  have hgm := hg m (List.mem_of_getElem? hm)
  exact ⟨hkept.host ▸ hgm.grants, hkept.env.isWriting.trans hgm.isWriting⟩

/-- A journal whose unread frames become `l`. -/
theorem MultiReader.Unread.setEnv (hu : r.Unread ls) (hl : { m with env := e }.Unread l) :
    (r.setEnv idx m e).Unread (ls.set idx l) :=
  forall₂_set hu idx fun _ => hl

theorem setEnv_journal_ne (hne : k ≠ idx) : (r.setEnv k m e).journals[idx]? = r.journals[idx]? :=
  List.getElem?_set_ne hne

theorem setEnv_journal (hm : r.journals[idx]? = some m) :
    (r.setEnv idx m e).journals[idx]? = some { m with env := e } :=
  List.getElem?_set_self (List.getElem?_eq_some_iff.mp hm).1

/-! ### The loop of `getNextFrame` -/

/-- What the loop has found on the journals before `k`: the first unread frame of `curJournal`, which is
the least of theirs if no time is negative. -/
inductive Selected (r : MultiReader) (ls : List (List Visit)) (k : ℕ) : Best → Prop
  | nothing : (∀ l ∈ ls.take k, l = []) → Selected r ls k ⟨timeToLast, none⟩
  | frame {j : ℕ} {m : Member} {r₀ : Record} {rs : List Record} {d : Header} :
      r.curJournal = some j → r.journals[j]? = some m → j < k →
      Located m.env (r₀ :: rs) (some d) → ls[j]? = some ((r₀ :: rs).map (Prod.mk m.shortName)) →
      (NonNeg ls → FirstMin NotLater (ls.take k) j (m.shortName, r₀) (rs.map (Prod.mk m.shortName))) →
      Selected r ls k ⟨d.nano, some (d.page, d.frame)⟩

/-- The loop has not come to the journal `k` yet. -/
theorem Selected.setEnv (hs : Selected r ls k best) : Selected (r.setEnv k m e) ls k best := by
  cases hs with
  | nothing hnil => exact .nothing hnil
  | frame hcur hj hlt hloc hl hmin =>
    exact .frame hcur ((setEnv_journal_ne (Nat.ne_of_gt hlt)).trans hj) hlt hloc hl hmin

theorem take_succ_of_getElem? (hl : ls[k]? = some l) : ls.take (k + 1) = ls.take k ++ [l] := by
  obtain ⟨hlt, rfl⟩ := List.getElem?_eq_some_iff.mp hl
  exact List.take_succ_eq_append_getElem hlt

/-- The journal `k` has no unread frame, or none that is before the one found. -/
theorem Selected.keep (hs : Selected r ls k best) (hl : ls[k]? = some l)
    (hkeep : ∀ y ys, l = y :: ys → ¬ (best.minNano = timeToLast ∨ y.2.nano < best.minNano)) :
    Selected r ls (k + 1) best := by
  have htake := take_succ_of_getElem? hl
  cases hs with
  | nothing hnil =>
    refine .nothing fun l' hl' => ?_
    rw [htake] at hl'
    rcases List.mem_append.mp hl' with hl' | hl'
    · exact hnil l' hl'
    · obtain rfl := List.mem_singleton.mp hl'
      cases l' with
      | nil => rfl
      | cons y ys => exact absurd (.inl rfl) (hkeep y ys rfl)
  | frame hcur hj hlt hloc hlj hmin =>
    refine .frame hcur hj (Nat.lt_succ_of_lt hlt) hloc hlj fun hnn => ?_
    rw [htake]
    refine (hmin hnn).keep fun y ys hy => ?_
    have hnot := hkeep y ys hy
    rw [hloc.nano_eq] at hnot
    exact Int64.not_lt.mp fun hlt => hnot (.inr hlt)

/-- The journal `k` has a frame that is before the one found. -/
theorem Selected.take {r₀ : Record} {rs : List Record} {d : Header} (hs : Selected r ls k best)
    (hm : r.journals[k]? = some m) (hl : ls[k]? = some ((r₀ :: rs).map (Prod.mk m.shortName)))
    (hloc : Located m.env (r₀ :: rs) (some d)) (hlt : best.minNano = timeToLast ∨ d.nano < best.minNano) :
    Selected { r with curJournal := some k } ls (k + 1) ⟨d.nano, some (d.page, d.frame)⟩ := by
  refine .frame rfl hm (Nat.lt_succ_self k) hloc hl fun hnn => ?_
  have hlen : (ls.take k).length = k :=
    List.length_take_of_le (Nat.le_of_lt (List.getElem?_eq_some_iff.mp hl).1)
  rw [take_succ_of_getElem? hl]
  cases hs with
  | nothing hnil =>
    have hnew :
        FirstMin NotLater (ls.take k ++ [(m.shortName, r₀) :: rs.map (Prod.mk m.shortName)]) (ls.take k).length
        (m.shortName, r₀) (rs.map (Prod.mk m.shortName)) := .new hnil
    rwa [hlen] at hnew
  | @frame j m' r₁ rs' d' _ _ _ hloc' hl' hmin =>
    -- a time that is not negative is not the sentinel
    have hpos : 0 ≤ r₁.nano := hnn _ (List.mem_of_getElem? hl') (m'.shortName, r₁) List.mem_cons_self
    have hne : r₁.nano ≠ timeToLast := fun he => absurd (he ▸ hpos) (by decide)
    rw [hloc.nano_eq, hloc'.nano_eq] at hlt
    have hbefore : r₀.nano < r₁.nano := hlt.resolve_left hne
    have hrep :
        FirstMin NotLater (ls.take k ++ [(m.shortName, r₀) :: rs.map (Prod.mk m.shortName)]) (ls.take k).length
        (m.shortName, r₀) (rs.map (Prod.mk m.shortName)) := (hmin hnn).replace (Int64.not_le.mpr hbefore)
    rwa [hlen] at hrep

theorem findBest_keep {idxs : List ℕ} {d : Option Header} {best' : Best} {r₁ : MultiReader}
    (hon : Runs (onJournal k locateHeader) r d r₁)
    (hd : ∀ header, d = some header → ¬ (best.minNano = timeToLast ∨ header.nano < best.minNano))
    (hrest : Runs (findBest idxs best) r₁ best' r') : Runs (findBest (k :: idxs) best) r best' r' := by
  rw [findBest]
  refine hon.bind ?_
  cases d with
  | none => exact hrest
  | some header =>
    dsimp only
    rw [if_neg (hd header rfl)]
    exact hrest

theorem findBest_take {idxs : List ℕ} {d : Header} {best' : Best} {r₁ : MultiReader}
    (hon : Runs (onJournal k locateHeader) r (some d) r₁)
    (hd : best.minNano = timeToLast ∨ d.nano < best.minNano)
    (hrest : Runs (findBest idxs ⟨d.nano, some (d.page, d.frame)⟩) { r₁ with curJournal := some k } best' r') :
    Runs (findBest (k :: idxs) best) r best' r' := by
  rw [findBest]
  refine hon.bind ?_
  dsimp only
  rw [if_pos hd]
  exact (Runs.modify _ r₁).bind hrest

/-- **The loop finds the first of the least unread frames.** -/
theorem findBest_spec (hg : r.Granted) (hu : r.Unread ls) (hs : Selected r ls k best)
    (hlen : k + n = r.journals.length) :
    ∃ best' r', Runs (findBest (List.range' k n) best) r best' r' ∧ AllKept r r' ∧ r'.Unread ls ∧
      Selected r' ls (k + n) best' := by
  induction n generalizing r k best with
  | zero => exact ⟨best, r, Runs.pure _ _, .refl r, hu, hs⟩
  | succ n ih =>
    obtain ⟨m, hm⟩ : ∃ m, r.journals[k]? = some m := ⟨_, List.getElem?_eq_getElem (by omega)⟩
    obtain ⟨l, hl, rs, hrs, rfl⟩ := forall₂_getElem? hu hm
    have hgm := hg m (List.mem_of_getElem? hm)
    obtain ⟨e, d, hloc, hkept, hrs', hlocated⟩ := hrs.locate hgm.grants hgm.isWriting
    have hon := onJournal_runs hm hloc
    have hall : AllKept r (r.setEnv k m e) := .setEnv hm hkept
    have hu' : (r.setEnv k m e).Unread ls := by
      obtain ⟨hlt, hget⟩ := List.getElem?_eq_some_iff.mp hl
      have hsame : ls.set k (rs.map (Prod.mk m.shortName)) = ls := by
        rw [← hget, List.set_getElem_self]
      exact hsame ▸ hu.setEnv ⟨rs, hrs', rfl⟩
    have hlen' : k + 1 + n = (r.setEnv k m e).journals.length := by
      rw [MultiReader.setEnv, List.length_set]
      omega
    have hs' : Selected (r.setEnv k m e) ls k best := hs.setEnv
    have hidx : k + (n + 1) = k + 1 + n := by omega
    rw [hidx]
    by_cases hd : ∃ header, d = some header ∧ (best.minNano = timeToLast ∨ header.nano < best.minNano)
    · -- the frame of this journal is the best so far
      obtain ⟨header, rfl, hlt⟩ := hd
      cases rs with
      | nil => cases hlocated
      | cons r₀ rs =>
        obtain ⟨best', r', hrest, hall', hu'', hs''⟩ := ih (r := { r.setEnv k m e with curJournal := some k })
          (hall.granted hg) hu' (hs'.take (setEnv_journal hm) hl hlocated hlt) hlen'
        exact ⟨best', r', findBest_take hon hlt hrest, hall.trans hall', hu'', hs''⟩
    · have hkeep : ∀ header, d = some header →
          ¬ (best.minNano = timeToLast ∨ header.nano < best.minNano) :=
        fun header he hlt => hd ⟨header, he, hlt⟩
      have hfirst : ∀ y ys, rs.map (Prod.mk m.shortName) = y :: ys →
          ¬ (best.minNano = timeToLast ∨ y.2.nano < best.minNano) := by
        intro y ys hy
        obtain ⟨r₀, rs', rfl, rfl, -⟩ := List.map_eq_cons_iff.mp hy
        obtain ⟨header, rfl⟩ : ∃ header, d = some header := by
          cases hlocated
          exact ⟨_, rfl⟩
        have hnot := hkeep header rfl
        rwa [hlocated.nano_eq] at hnot
      obtain ⟨best', r', hrest, hall', hu'', hs''⟩ := ih (hall.granted hg) hu' (hs'.keep hl hfirst) hlen'
      exact ⟨best', r', findBest_keep hon hkeep hrest, hall.trans hall', hu'', hs''⟩

/-! ### `getNextFrame` -/

/-- What a call does, and what it returns. -/
inductive Answers (r r' : MultiReader) (ls : List (List Visit)) : Option Record → Prop
  /-- no journal has an unread frame -/
  | null : (∀ l ∈ ls, l = []) → r'.Unread ls → Answers r r' ls none
  /-- the first unread frame of the journal `k` -/
  | frame {k : ℕ} {m : Member} {frame : Record} {xs : List Visit} :
      r.journals[k]? = some m → ls[k]? = some ((m.shortName, frame) :: xs) →
      (NonNeg ls → FirstMin NotLater ls k (m.shortName, frame) xs) →
      r'.Unread (ls.set k xs) → r'.getFrameName = m.shortName → Answers r r' ls (some frame)

/-- **A call of `getNextFrame`** takes the first of the least unread frames from its journal. -/
theorem getNextFrame_spec (hg : r.Granted) (hu : r.Unread ls) :
    ∃ res r', Runs getNextFrame r res r' ∧ AllKept r r' ∧ Answers r r' ls res := by
  have hlen := hu.length_eq
  obtain ⟨best, r₁, hfind, hall, hu₁, hs⟩ := findBest_spec (k := 0) (n := r.journals.length) hg hu
    (.nothing (by simp)) (Nat.zero_add _)
  have htake : ls.take (0 + r.journals.length) = ls := by rw [Nat.zero_add, hlen, List.take_length]
  rw [← List.range_eq_range'] at hfind
  cases hs with
  | nothing hnil =>
    rw [htake] at hnil
    refine ⟨none, r₁, ?_, hall, .null hnil hu₁⟩
    unfold getNextFrame
    exact (Runs.get r).bind (hfind.bind (Runs.pure _ _))
  | @frame j m r₀ rs d hcur hj _ hloc hl hmin =>
    rw [htake] at hmin
    obtain ⟨e, htk, hkept, hrs⟩ := hloc.take
    have hon := onJournal_runs (f := fun _ => takeFrame d.page d.frame) hj htk
    obtain ⟨m₀, hm₀, hk₀⟩ := forall₂_getElem? hall.flip hj
    have hname : m.shortName = m₀.shortName := congrArg Host.jname hk₀.host
    refine ⟨some r₀, r₁.setEnv j m e, ?_, hall.trans (.setEnv hj hkept), ?_⟩
    · unfold getNextFrame
      refine (Runs.get r).bind (hfind.bind ?_)
      dsimp only
      refine (Runs.get r₁).bind ?_
      rw [hcur]
      exact hon.bind (Runs.pure _ _)
    · have hu' : (r₁.setEnv j m e).Unread (ls.set j (rs.map (Prod.mk m.shortName))) := hu₁.setEnv ⟨rs, hrs, rfl⟩
      refine .frame hm₀ (hname ▸ hl) (hname ▸ hmin) hu' ?_
      · unfold getFrameName
        have hcur' : (r₁.setEnv j m e).curJournal = some j := hcur
        rw [hcur']
        dsimp only
        rw [setEnv_journal hj, ← hname]
        rfl

/-! ### Calls until null -/

theorem NonNeg.set (hnn : NonNeg ls) (hl : ls[k]? = some (x :: xs)) : NonNeg (ls.set k xs) := by
  intro l hmem y hy
  rcases List.mem_or_eq_of_mem_set hmem with hmem | rfl
  · exact hnn l hmem y hy
  · exact hnn _ (List.mem_of_getElem? hl) y (List.mem_cons_of_mem x hy)

/-- **The calls up to the first null** take each unread frame, and merge them if no time is negative. -/
theorem visitUntilNull_spec (hg : r.Granted) (hu : r.Unread ls) {fuel : ℕ} (hfuel : ls.flatten.length < fuel) :
    ∃ out r', Runs (visitUntilNull fuel) r out r' ∧ Interleaves ls out ∧ (NonNeg ls → Merges NotLater ls out) := by
  induction fuel generalizing r ls with
  | zero => omega
  | succ fuel ih =>
    obtain ⟨res, r₁, hnext, hall, hans⟩ := getNextFrame_spec hg hu
    cases hans with
    | null hnil _ =>
      refine ⟨[], r₁, ?_, .done hnil, fun _ => .done hnil⟩
      rw [visitUntilNull]
      exact hnext.bind (Runs.pure _ _)
    | @frame k m frame xs _ hl hmin hu₁ hname =>
      have hlen := (flatten_perm_of_getElem? hl).length_eq
      rw [List.length_cons] at hlen
      obtain ⟨out, r', hrest, hinter, hmerge⟩ := ih (hall.granted hg) hu₁ (by omega)
      refine ⟨(m.shortName, frame) :: out, r', ?_, .take hl hinter,
        fun hnn => .take (hmin hnn) (hmerge (hnn.set hl))⟩
      rw [visitUntilNull]
      refine hnext.bind ((Runs.get r₁).bind ?_)
      rw [hname]
      exact hrest.bind (Runs.pure _ _)

/-- What a reader does whose unread frames are `ls`.  When each journal is ordered by time, the calls up
to the first null give the stable sort by time of all unread frames, journal by journal. -/
structure MergesStably (r : MultiReader) (ls : List (List Visit)) : Prop where
  next : ∃ res r', Runs getNextFrame r res r' ∧ r'.Granted ∧ Answers r r' ls res
  merge : NonNeg ls → (∀ l ∈ ls, l.Pairwise NotLater) → ∀ fuel, ls.flatten.length < fuel →
    ∃ out r', Runs (visitUntilNull fuel) r out r' ∧ out = ls.flatten.insertionSort NotLater ∧
      out.Perm ls.flatten ∧ ∀ l ∈ ls, l.Sublist out

theorem MultiReader.Unread.mergesStably (hu : r.Unread ls) (hg : r.Granted) : MergesStably r ls := by
  refine ⟨?_, fun hnn hsorted fuel hfuel => ?_⟩
  · obtain ⟨res, r', hnext, hall, hans⟩ := getNextFrame_spec hg hu
    exact ⟨res, r', hnext, hall.granted hg, hans⟩
  · obtain ⟨out, r', hruns, hinter, hmerge⟩ := visitUntilNull_spec hg hu hfuel
    exact ⟨out, r', hruns, (hmerge hnn).eq_insertionSort hsorted, hinter.perm, fun l hl => hinter.sublist hl⟩

end Yijinjing.Merge
