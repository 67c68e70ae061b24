import Mathlib.Data.List.Pairwise
import Yijinjing.Journal.Sessions

/-!
# Seeking by time

With a clock that never goes back, the frames of a journal and the times its pages were opened at are
ordered (`Timely`): everything on a page is at most as late as the opening of any later page, and at
least as late as the opening of its own page, but for the first frame of a page that was opened by the
very write of that frame.  So a seek by time never skips a frame that is not older (`seek_keeps`).
-/

namespace Yijinjing.Sessions

open Lib Prog

variable {h : Host} {s t : State} {a : Abs} {l : Ledger} {ps : List PageLog} {k : ℕ} {time nano : Int64}

/-! ### The order of the times -/

/-- One page comes before another. -/
def PageBefore (p q : PageLog) : Prop :=
  p.startNano ≤ q.startNano ∧ ∀ r ∈ p.records, r.nano ≤ q.startNano

/-- The times of the pages, when the clock has been read `k` times. -/
structure Timely (h : Host) (ps : List PageLog) (k : ℕ) : Prop where
  past : ∀ p ∈ ps, ∀ m, k ≤ m → p.startNano ≤ h.clock m ∧ ∀ r ∈ p.records, r.nano ≤ h.clock m
  pages : ps.Pairwise PageBefore
  sorted : ∀ p ∈ ps, p.records.Pairwise fun r r' => r.nano ≤ r'.nano
  tail : ∀ p ∈ ps, ∀ r ∈ p.records.tail, p.startNano ≤ r.nano

/-- The time of a frame that may come next on the current page. -/
structure NextTime (h : Host) (l : Ledger) (nano : Int64) : Prop where
  past : ∀ m, l.tick ≤ m → nano ≤ h.clock m
  sorted : ∀ r ∈ l.cur.records, r.nano ≤ nano
  tail : l.cur.records ≠ [] → l.cur.startNano ≤ nano

theorem Timely.mono {k' : ℕ} (ht : Timely h ps k) (hk : k ≤ k') : Timely h ps k' :=
  ⟨fun p hp m hm => ht.past p hp m (by omega), ht.pages, ht.sorted, ht.tail⟩

/-- A new page, opened at a later reading of the clock. -/
theorem Timely.fresh {k' : ℕ} (hst : h.Steady) (ht : Timely h ps k) (hk : k < k') :
    Timely h (ps ++ [.fresh (h.clock k)]) k' := by
  refine ⟨fun p hp m hm => ?_, ?_, fun p hp => ?_, fun p hp => ?_⟩
  · rcases List.mem_append.mp hp with hp | hp
    · exact ht.past p hp m (by omega)
    · rw [List.mem_singleton.mp hp]
      exact ⟨hst k m (by omega), by simp⟩
  · refine List.pairwise_append.mpr ⟨ht.pages, List.pairwise_singleton _ _, fun p hp q hq => ?_⟩
    rw [List.mem_singleton.mp hq]
    exact ht.past p hp k (Nat.le_refl _)
  · rcases List.mem_append.mp hp with hp | hp
    · exact ht.sorted p hp
    · rw [List.mem_singleton.mp hp]
      exact List.Pairwise.nil
  · rcases List.mem_append.mp hp with hp | hp
    · exact ht.tail p hp
    · rw [List.mem_singleton.mp hp]
      simp

theorem Timely.makeRoom (hst : h.Steady) (ht : Timely h l.pages l.tick) :
    Timely h (l.makeRoom h).pages (l.makeRoom h).tick := by
  unfold Ledger.makeRoom
  split
  · exact ht
  · exact ht.fresh hst (Nat.lt_add_of_pos_right (by decide))

theorem Timely.reopen (hst : h.Steady) (ht : Timely h ps k) :
    Timely h (Ledger.reopen h ps k).pages (Ledger.reopen h ps k).tick := by
  rcases List.eq_nil_or_concat ps with rfl | ⟨qs, p, rfl⟩
  · exact ht.fresh hst (Nat.lt_succ_self k)
  · rw [List.concat_eq_append] at ht ⊢
    rw [Ledger.reopen_concat]
    exact ht.makeRoom (l := ⟨qs, p, k⟩) hst

theorem Timely.append {r : Record} (ht : Timely h l.pages l.tick) (hr : NextTime h l r.nano) :
    Timely h (l.append r).pages l.tick := by
  rw [Ledger.append_pages]
  unfold Ledger.pages at ht
  have hcur : l.cur ∈ l.closed ++ [l.cur] := by simp
  refine ⟨fun p hp m hm => ?_, ?_, fun p hp => ?_, fun p hp => ?_⟩
  · rcases List.mem_append.mp hp with hp | hp
    · exact ht.past p (List.mem_append_left _ hp) m hm
    · rw [List.mem_singleton.mp hp]
      obtain ⟨h1, h2⟩ := ht.past l.cur hcur m hm
      refine ⟨h1, fun r' hr' => ?_⟩
      rw [PageLog.push_records] at hr'
      rcases List.mem_append.mp hr' with hr' | hr'
      · exact h2 r' hr'
      · rw [List.mem_singleton.mp hr']
        exact hr.past m hm
  · obtain ⟨h1, -, h3⟩ := List.pairwise_append.mp ht.pages
    refine List.pairwise_append.mpr ⟨h1, List.pairwise_singleton _ _, fun p hp q hq => ?_⟩
    rw [List.mem_singleton.mp hq]
    exact h3 p hp l.cur (by simp)
  · rcases List.mem_append.mp hp with hp | hp
    · exact ht.sorted p (List.mem_append_left _ hp)
    · rw [List.mem_singleton.mp hp, PageLog.push_records]
      refine List.pairwise_append.mpr ⟨ht.sorted l.cur hcur, List.pairwise_singleton _ _, ?_⟩
      intro r' hr' r'' hr''
      rw [List.mem_singleton.mp hr'']
      exact hr.sorted r' hr'
  · rcases List.mem_append.mp hp with hp | hp
    · exact ht.tail p (List.mem_append_left _ hp)
    · rw [List.mem_singleton.mp hp, PageLog.push_records, PageLog.push_startNano]
      intro r' hr'
      cases hrec : l.cur.records with
      | nil => simp [hrec] at hr'
      | cons r₀ rs =>
        rw [hrec, List.cons_append, List.tail_cons] at hr'
        rcases List.mem_append.mp hr' with hr' | hr'
        · exact ht.tail l.cur hcur r' (by rw [hrec]; exact hr')
        · rw [List.mem_singleton.mp hr']
          exact hr.tail (by rw [hrec]; simp)

/-- The reading that a write takes before it makes room may come next. -/
theorem Timely.nextTime (hst : h.Steady) (ht : Timely h l.pages l.tick) :
    NextTime h (l.readClock.makeRoom h) (h.clock l.tick) := by
  have hcur := ht.past l.cur (by simp [Ledger.pages]) l.tick (Nat.le_refl _)
  unfold Ledger.makeRoom
  split
  · exact ⟨fun m hm => hst _ _ (Nat.le_of_succ_le hm), hcur.2, fun _ => hcur.1⟩
  · refine ⟨fun m hm => hst _ _ ?_, by simp [Ledger.rollover], fun hne => absurd rfl hne⟩
    have : l.tick + 1 + 2 ≤ m := hm
    omega

theorem Timely.readClock_makeRoom (hst : h.Steady) (ht : Timely h l.pages l.tick) :
    Timely h (l.readClock.makeRoom h).pages (l.readClock.makeRoom h).tick :=
  Timely.makeRoom hst (ht.mono (Nat.le_succ l.tick))

/-- An appended record takes no reading of the clock. -/
theorem Timely.appended {r : Record} {nano : Int64} (ht : Timely h l.pages l.tick)
    (hn : NextTime h l nano) (hr : r.nano = nano) : Timely h (l.append r).pages (l.append r).tick := by
  subst hr
  exact ht.append hn

theorem Timely.write (hst : h.Steady) (ht : Timely h l.pages l.tick) {data : List UInt8}
    {msgType : Int16} {lastFlag : UInt8} :
    Timely h (l.write h data msgType lastFlag).pages (l.write h data msgType lastFlag).tick := by
  have hroom := ht.readClock_makeRoom hst
  have hnext := ht.nextTime hst
  unfold Ledger.write
  generalize l.readClock.makeRoom h = l₁ at hroom hnext ⊢
  exact hroom.appended hnext rfl

/-- The times of the abstract journal. -/
structure AbsTimely (h : Host) (a : Abs) : Prop where
  timely : Timely h a.pages a.tick
  draft : ∀ d l, a.draft = some d → a.ledger = some l → NextTime h l d.nano

theorem AbsTimely.of_ledger {draft : Option Draft} (ht : Timely h l.pages l.tick)
    (hd : ∀ d, draft = some d → NextTime h l d.nano) : AbsTimely h ⟨some l, draft⟩ := by
  refine ⟨ht, fun d l' hd' hl => ?_⟩
  obtain rfl := Option.some.inj hl
  exact hd d hd'

/-- A call keeps the times ordered; one that takes room takes it when no frame is being drafted. -/
theorem AbsTimely.step (hst : h.Steady) (ha : AbsTimely h a) {act : Action}
    (hdraft : ∀ data msgType lastFlag, act = .writeFrame data msgType lastFlag → a.draft = none) :
    AbsTimely h (a.step h act) := by
  obtain ⟨al, ad⟩ := a
  cases act with
  | create =>
    have hstep : Abs.step h ⟨al, ad⟩ .create = ⟨some (Ledger.reopen h (Abs.mk al ad).pages
        (Abs.mk al ad).tick), none⟩ := rfl
    rw [hstep]
    exact .of_ledger (ha.timely.reopen hst) fun d hd => by cases hd
  | writeFrame data msgType lastFlag =>
    obtain rfl : ad = none := hdraft _ _ _ rfl
    cases al with
    | none => exact ha
    | some l =>
      have hstep : Abs.step h ⟨some l, none⟩ (.writeFrame data msgType lastFlag) =
          ⟨some (l.write h data msgType lastFlag), none⟩ := rfl
      rw [hstep]
      exact .of_ledger (Timely.write hst ha.timely) fun d hd => by cases hd
  | locateFrame =>
    cases al with
    | none => exact ⟨ha.timely, fun d l hd => by cases hd⟩
    | some l =>
      have hstep : Abs.step h ⟨some l, ad⟩ .locateFrame = ⟨some (l.readClock.makeRoom h),
          some ⟨(l.readClock.makeRoom h).cur.endPos, h.clock l.tick, none⟩⟩ := rfl
      rw [hstep]
      refine .of_ledger (Timely.readClock_makeRoom hst ha.timely) fun d hd => ?_
      obtain rfl := Option.some.inj hd
      exact Timely.nextTime hst ha.timely
  | copyData data =>
    have hstep : Abs.step h ⟨al, ad⟩ (.copyData data) =
        ⟨al, ad.map fun d => { d with data := some data }⟩ := rfl
    rw [hstep]
    refine ⟨ha.timely, fun d l hd hl => ?_⟩
    obtain ⟨d', hd', rfl⟩ := Option.map_eq_some_iff.mp hd
    exact ha.draft d' l hd' hl
  | passFrame msgType lastFlag =>
    cases ad with
    | none => exact ha
    | some d =>
      obtain ⟨frame, nano, data⟩ := d
      cases data with
      | none => exact ha
      | some data =>
        cases al with
        | none => exact ⟨ha.timely, fun d l hd => by cases hd⟩
        | some l =>
          have hstep : Abs.step h ⟨some l, some ⟨frame, nano, some data⟩⟩ (.passFrame msgType lastFlag) =
              ⟨some (l.append ⟨data, nano, msgType, lastFlag⟩), none⟩ := rfl
          rw [hstep]
          have hnext : NextTime h l nano := ha.draft ⟨frame, nano, some data⟩ l rfl rfl
          exact .of_ledger (Timely.append (r := ⟨data, nano, msgType, lastFlag⟩) ha.timely hnext)
            fun d hd => by cases hd
  | close => exact ⟨ha.timely, fun d l hd => by cases hd⟩
  | seekLast => exact ha
  | getNextFrame => exact ha

/-! ### What a seek gives -/

section Since

variable {i : ℕ} {p : PageLog} {r : Record}

theorem allRecords_split (hi : i < ps.length) :
    allRecords ps = allRecords (ps.take i) ++ (ps[i].records ++ allRecords (ps.drop (i + 1))) := by
  rw [← allRecords_cons, ← List.drop_eq_getElem_cons hi, ← allRecords_append, List.take_append_drop]

theorem since_eq (hi : i < ps.length) : Journal.since ps time i =
    ps[i].records.dropWhile (fun r => decide (r.nano < time)) ++ allRecords (ps.drop (i + 1)) := by
  unfold Journal.since
  rw [recordRows_getD hi]

theorem since_suffix (hi : i < ps.length) : Journal.since ps time i <:+ allRecords ps := by
  rw [since_eq hi, allRecords_split hi]
  obtain ⟨rs, hrs⟩ := List.dropWhile_suffix (l := ps[i].records) fun r => decide (r.nano < time)
  refine ⟨allRecords (ps.take i) ++ rs, ?_⟩
  rw [List.append_assoc, ← List.append_assoc rs, hrs]

theorem mem_allRecords : r ∈ allRecords ps ↔ ∃ k, ∃ hk : k < ps.length, r ∈ ps[k].records := by
  simp only [allRecords, recordRows, List.mem_flatten, List.mem_map]
  constructor
  · rintro ⟨_, ⟨p, hp, rfl⟩, hr⟩
    obtain ⟨k, hk, rfl⟩ := List.mem_iff_getElem.mp hp
    exact ⟨k, hk, hr⟩
  · rintro ⟨k, hk, hr⟩
    exact ⟨_, ⟨ps[k], List.getElem_mem hk, rfl⟩, hr⟩

theorem mem_allRecords_drop : r ∈ allRecords (ps.drop i) ↔
    ∃ k, ∃ hk : k < ps.length, i ≤ k ∧ r ∈ ps[k].records := by
  rw [mem_allRecords]
  constructor
  · rintro ⟨k, hk, hr⟩
    rw [List.length_drop] at hk
    rw [List.getElem_drop] at hr
    exact ⟨i + k, by omega, by omega, hr⟩
  · rintro ⟨k, hk, hik, hr⟩
    refine ⟨k - i, by rw [List.length_drop]; omega, ?_⟩
    rw [List.getElem_drop]
    simpa [Nat.add_sub_cancel' hik] using hr

theorem mem_allRecords_take : r ∈ allRecords (ps.take i) →
    ∃ k, ∃ hk : k < ps.length, k < i ∧ r ∈ ps[k].records := by
  rw [mem_allRecords]
  rintro ⟨k, hk, hr⟩
  rw [List.length_take] at hk
  rw [List.getElem_take] at hr
  exact ⟨k, by omega, by omega, hr⟩

theorem Timely.before_of_lt {m : ℕ} (ht : Timely h ps k) (hm : m < ps.length) (him : i < m) :
    PageBefore ps[i] ps[m] :=
  List.pairwise_iff_getElem.mp ht.pages i m (by omega) hm him

/-- A record that is not older than the time. -/
def Recent (time : Int64) (r : Record) : Bool := decide (time ≤ r.nano)

theorem recent_iff : Recent time r = true ↔ ¬ r.nano < time := by
  rw [Recent, decide_eq_true_eq, Int64.not_lt]

/-- Nothing recent is before the page that is chosen, nor among what is skipped there. -/
theorem Timely.filter_since (ht : Timely h ps k) (hch : Journal.ChosenPage ps time i) :
    (Journal.since ps time i).filter (Recent time) = (allRecords ps).filter (Recent time) := by
  have hi := hch.lt
  have hearlier : (allRecords (ps.take i)).filter (Recent time) = [] := by
    rw [List.filter_eq_nil_iff]
    intro r hr hrecent
    obtain ⟨m, hm, hmi, hr⟩ := mem_allRecords_take hr
    rcases hch.before with h0 | hstart
    · omega
    · have hle := (ht.before_of_lt hi hmi).2 r hr
      exact recent_iff.mp hrecent (Int64.lt_of_le_of_lt hle hstart)
  have hskipped : (ps[i].records.takeWhile fun r => decide (r.nano < time)).filter (Recent time) = [] := by
    rw [List.filter_eq_nil_iff]
    intro r hr hrecent
    exact recent_iff.mp hrecent (by simpa using List.mem_takeWhile_imp hr)
  rw [since_eq hi, allRecords_split hi, List.filter_append, List.filter_append, hearlier, List.nil_append]
  conv_rhs => rw [← List.takeWhile_append_dropWhile (p := fun r => decide (r.nano < time))
    (l := ps[i].records), List.append_assoc, List.filter_append, hskipped, List.nil_append,
    List.filter_append]

/-- The first frame of a page other than the first one is older than the time, and the page is not. -/
def Late (ps : List PageLog) (time : Int64) (m : ℕ) : Prop :=
  0 < m ∧ ∃ hm : m < ps.length, time ≤ ps[m].startNano ∧ ∃ r ∈ ps[m].records.head?, r.nano < time

/-- An older frame is delivered only as the first frame of a late page. -/
theorem Timely.since_recent_iff (ht : Timely h ps k) (hch : Journal.ChosenPage ps time i) :
    (∀ r ∈ Journal.since ps time i, time ≤ r.nano) ↔ ∀ m, ¬ Late ps time m := by
  have hi := hch.lt
  rw [since_eq hi]
  constructor
  · rintro hall m ⟨hm0, hm, hstart, r, hr, hold⟩
    have him : i < m := by
      rcases Nat.lt_trichotomy i m with hlt | rfl | hgt
      · exact hlt
      · rcases hch.before with rfl | hbefore
        · omega
        · exact absurd hbefore (Int64.not_lt.mpr hstart)
      · rcases hch.before with rfl | hbefore
        · omega
        · have hle := (ht.before_of_lt hi hgt).1
          exact absurd (Int64.lt_of_le_of_lt hle hbefore) (Int64.not_lt.mpr hstart)
    have hmem : r ∈ ps[m].records := List.mem_of_mem_head? hr
    exact Int64.not_le.mpr hold
      (hall r (List.mem_append_right _ (mem_allRecords_drop.mpr ⟨m, hm, him, hmem⟩)))
  · intro hno r hr
    by_contra hold
    rw [Int64.not_le] at hold
    rcases List.mem_append.mp hr with hr | hr
    · -- the frames of the chosen page are in order
      have hsorted := ht.sorted _ (List.getElem_mem hi)
      have hhead := List.head?_dropWhile_not (fun r : Record => decide (r.nano < time)) ps[i].records
      have hsub := hsorted.sublist (List.dropWhile_sublist fun r : Record => decide (r.nano < time))
      cases hd : ps[i].records.dropWhile (fun r => decide (r.nano < time)) with
      | nil => rw [hd] at hr; cases hr
      | cons r₀ rs =>
        rw [hd] at hr hsub hhead
        have hr₀ : ¬ r₀.nano < time := by simpa using hhead
        rcases List.mem_cons.mp hr with rfl | hr
        · exact hr₀ hold
        · exact hr₀ (Int64.lt_of_le_of_lt (List.rel_of_pairwise_cons hsub hr) hold)
    · -- on a later page only the first frame can be older than the page
      obtain ⟨m, hm, him, hr⟩ := mem_allRecords_drop.mp hr
      have hstart := Int64.not_lt.mp (hch.after m hm (by omega))
      have htail := ht.tail _ (List.getElem_mem hm)
      refine hno m ⟨by omega, hm, hstart, r, ?_, hold⟩
      cases hrec : ps[m].records with
      | nil => rw [hrec] at hr; cases hr
      | cons r₀ rs =>
        rw [hrec] at hr htail
        rcases List.mem_cons.mp hr with rfl | hr
        · rfl
        · exact absurd (Int64.lt_of_le_of_lt hstart (Int64.lt_of_le_of_lt (htail r hr) hold))
            Int64.lt_irrefl

end Since

/-! ### Reachable states -/

/-- What holds of every state when the clock is steady. -/
def Dated (h : Host) (s : State) : Prop := ∃ a, Refines s a ∧ ReaderOk s a ∧ AbsTimely h a

theorem Dated.init : Dated h (sessions h).init := by
  refine ⟨Abs.empty, Refines.empty, ⟨rfl, fun m hm => by cases hm⟩, ⟨?_, fun d l hd => by cases hd⟩⟩
  exact ⟨by simp [Abs.empty], List.Pairwise.nil, by simp [Abs.empty], by simp [Abs.empty]⟩

/-- `write_frame` is not called while a frame is being drafted. -/
theorem step_writeFrame_draft {data : List UInt8} {msgType : Int16} {lastFlag : UInt8}
    (ht : step h s (.writeFrame data msgType lastFlag) = some t) : s.draft = none := by
  simp only [step] at ht
  split at ht
  · rename_i hguard
    exact hguard.2.1
  · cases ht

theorem Dated.step (hg : h.Grants) (hst : h.Steady) {act : Action} (hs : Dated h s)
    (ht : step h s act = some t) : Dated h t := by
  obtain ⟨a, hs, hr, ha⟩ := hs
  by_cases hact : act.IsWriters
  · obtain ⟨ht', hc⟩ := hs.step_writer hg hact ht
    refine ⟨_, ht', hr.carries hs ht' hc, ha.step hst fun data msgType lastFlag he => ?_⟩
    subst he
    exact hs.draft.symm.trans (step_writeFrame_draft ht)
  · cases act with
    | seekLast => exact ⟨a, (hs.seekLast hg hr ht).1, (hs.seekLast hg hr ht).2, ha⟩
    | getNextFrame => exact ⟨a, (hs.getNextFrame hg hr ht).1, (hs.getNextFrame hg hr ht).2, ha⟩
    | _ => exact absurd trivial hact

/-- A reader of the journal, wherever it stands. -/
structure State.IsReader (s : State) (r : Env) : Prop where
  files : r.files = s.env.files
  isWriting : r.journal.isWriting = false

/-- What a reader is given that seeks a time, in terms of the layout. -/
theorem Refines.readFrom_time (hg : h.Grants) (hs : Refines s a) (ha : Timely h a.pages k) {r : Env}
    (hr : s.IsReader r) (hfirst : time ≠ timeFromFirst) (hlast : time ≠ timeToLast) {fuel : ℕ}
    (hfuel : s.written.length < fuel) :
    ∃ rest e, Runs (JournalReader.readFrom h time fuel) r rest e ∧ rest <:+ s.written ∧
      rest.filter (Recent time) = s.written.filter (Recent time) ∧
      ((∀ ρ ∈ rest, time ≤ ρ.nano) ↔ ∀ m, ¬ Late a.pages time m) := by
  have hrep : Settled r.files a.pages := by
    rw [hr.files]
    exact hs.rep
  rw [hs.written] at hfuel ⊢
  by_cases hnil : a.pages = []
  · obtain ⟨e, hruns⟩ := JournalReader.readFrom_nil hg hrep hnil hr.isWriting time
      (Nat.lt_of_le_of_lt (Nat.zero_le _) hfuel)
    rw [hnil]
    refine ⟨[], e, hruns, List.nil_suffix, rfl, fun _ m => ?_, fun _ ρ hrec => by cases hrec⟩
    rintro ⟨-, hm, -⟩
    exact Nat.not_lt_zero _ hm
  · obtain ⟨i, e, hch, hruns⟩ :=
      JournalReader.readFrom_time_spec hg hrep hnil hr.isWriting _ hfirst hlast hfuel
    exact ⟨_, e, hruns, since_suffix hch.lt, ha.filter_since hch, ha.since_recent_iff hch⟩

/-- A reader that seeks a time is given every frame that is not older, in the order of the writes. -/
def SeekKeeps (h : Host) (s : State) : Prop :=
  ∀ r, s.IsReader r → ∀ time, time ≠ timeFromFirst → time ≠ timeToLast →
    ∀ fuel, s.written.length < fuel →
      ∃ rest t, Runs (JournalReader.readFrom h time fuel) r rest t ∧ rest <:+ s.written ∧
        rest.filter (Recent time) = s.written.filter (Recent time)

/-- **Seeking by time never skips a frame that is not older.** -/
theorem seek_keeps (h : Host) (hst : h.Steady) (as : List Action) :
    (sessions h.granting).Always (SeekKeeps h.granting) (sessions h.granting).init as := by
  have hg := h.grants_granting
  refine System.always_of_step (I := Dated h.granting) (fun s act t hs ht => hs.step hg hst ht) ?_ as
    Dated.init
  rintro s ⟨a, hs, -, ha⟩ r hr time hfirst hlast fuel hfuel
  obtain ⟨rest, e, hruns, hsuffix, hfilter, -⟩ :=
    hs.readFrom_time hg ha.timely hr hfirst hlast hfuel
  exact ⟨rest, e, hruns, hsuffix, hfilter⟩

/-- A host whose clock ticks between its readings 64 and 65. -/
def tickingHost : Host := hostWith fun i => if i < 65 then 1 else 5

theorem tickingHost_steady : tickingHost.Steady := by
  intro m n hmn
  show (if m < 65 then (1 : Int64) else 5) ≤ if n < 65 then 1 else 5
  split <;> split
  · exact Int64.le_refl 1
  · decide
  · omega
  · exact Int64.le_refl 5

theorem seek_keeps_overfill :
    (∃ t, (sessions tickingHost.granting).run (sessions tickingHost.granting).init overfill = some t ∧
      t.written.length = 64 ∧ getPageNums t.env.files = [1, 2]) ∧
    (sessions tickingHost.granting).Always (SeekKeeps tickingHost.granting)
      (sessions tickingHost.granting).init overfill :=
  ⟨overfill_reached tickingHost.grants_granting, seek_keeps tickingHost tickingHost_steady overfill⟩

end Yijinjing.Sessions
