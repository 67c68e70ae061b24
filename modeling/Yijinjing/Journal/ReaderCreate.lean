import Mathlib.Data.List.Dedup
import Yijinjing.Journal.MergeRuns
import Yijinjing.Paged.AddJournal

/-!
# Creating a reader

`JournalReader::create` on a list of directories and names.  A journal is known by its short name alone: a name
that is given again, whatever the directory, is the journal that it was the first time.  So the reader is given
the frames of the first journal under each name (`create_covers`).
-/

namespace Yijinjing.Merge

open Lib Prog MultiReader

/-! ### `JournalReader.cpp` -/

/-- Page files that represent a journal, and are not being changed. -/
structure Content where
  files : Files
  view : View
  rep : Rep files view

/-- The journals that there are, by their directories and names. -/
abbrev Contents := List UInt8 → List UInt8 → Content

/-- A directory and a short name. -/
abbrev Pair := List UInt8 × List UInt8

/-- The slot of a reader carries the names. -/
abbrev NamesFit (dir jname : List UInt8) : Prop := (Registrant.mk [] 0 false dir jname).Encodable

variable (h : Host) (contents : Contents)

/-- `JournalHandler::addJournal`: the journal that is created.  `none` is undefined, or stands for names that
the slot does not carry. -/
def openJournal (pair : Pair) : Option (Host × Files) :=
  match JournalHandler.directory pair.1 with
  | none => none
  | some dir =>
    if hfit : NamesFit dir pair.2 then
      let host := { h with jname := CStr.ofBytes pair.2, name_fits := (List.length_map ..).trans_le hfit.jname_length }
      some (host, (contents dir pair.2).files)
    else none

/-- `JournalReader::addJournal` -/
def addPair (r : MultiReader) (pair : Pair) : Option MultiReader :=
  if (r.journalMap.lookup (CStr.ofBytes pair.2)).isSome then some r
  else (openJournal h contents pair).map fun journal =>
    (Prog.exec (addJournal journal.1 r.journals.length journal.2) r).2

/-- `JournalReader::create` -/
def create (pairs : List Pair) (startTime : Int64) : Option (Except Error Unit × MultiReader) :=
  (pairs.foldlM (addPair h contents) .empty).map (Prog.exec (jumpStart startTime))

/-! ### What is read -/

/-- The frames of the journal, under its name. -/
def visitsOf (pair : Pair) : List Visit :=
  match JournalHandler.directory pair.1 with
  | none => []
  | some dir => (allRecords (contents dir pair.2).view.pages).map (Prod.mk (CStr.ofBytes pair.2))

/-- **The reader covers the journals**: until null it is given every frame of each of them exactly once, in
order, and no other frame. -/
def Covers (ps : List Pair) (r : MultiReader) : Prop :=
  ∀ fuel, (ps.flatMap (visitsOf contents)).length < fuel → ∃ out r', Runs (visitUntilNull fuel) r out r' ∧
    out.Perm (ps.flatMap (visitsOf contents)) ∧ ∀ p ∈ ps, (visitsOf contents p).Sublist out

/-- The first pair under each name. -/
def firsts : List Pair → List Pair
  | [] => []
  | p :: ps => p :: (firsts ps).filter fun q => q.2 ≠ p.2

/-- The directory is not empty, and the slot carries both names. -/
def Registers (pair : Pair) : Prop := ∃ dir, JournalHandler.directory pair.1 = some dir ∧ NamesFit dir pair.2

variable {h contents} {p q : Pair} {ps pairs : List Pair} {r : MultiReader} {m : Member}

/-- The server reads the names as they were given, in every slot and for every page. -/
theorem NamesFit.decode {dir jname : List UInt8} (hn : NamesFit dir jname) (mem : Lib.Mem) {idx : ℕ}
    (hidx : idx < maxCommUserNumber) (pageNum : Int16) :
    PageCommMsg.decode (requestedSlot ⟨[], 0, false, dir, jname⟩ mem (getCommMsg idx) pageNum) (getCommMsg idx) =
      some ⟨.requesting, CStr.ofBytes dir, CStr.ofBytes jname, false, pageNum, 0⟩ :=
  decode_requestedSlot hn mem hidx pageNum

/-! ### The first pairs -/

theorem mem_firsts : p ∈ firsts pairs ↔
    ∃ before after, pairs = before ++ p :: after ∧ ∀ q ∈ before, q.2 ≠ p.2 := by
  induction pairs with
  | nil => simp [firsts]
  | cons q pairs ih =>
    rw [firsts, List.mem_cons, List.mem_filter, decide_eq_true_iff, ih]
    constructor
    · rintro (rfl | ⟨⟨before, after, rfl, hbefore⟩, hne⟩)
      · exact ⟨[], pairs, rfl, by simp⟩
      · exact ⟨q :: before, after, rfl, List.forall_mem_cons.mpr ⟨hne.symm, hbefore⟩⟩
    · rintro ⟨before, after, heq, hbefore⟩
      cases before with
      | nil => exact .inl (List.cons.inj heq).1.symm
      | cons q' before =>
        obtain ⟨rfl, rfl⟩ := List.cons.inj heq
        obtain ⟨hq, hbefore⟩ := List.forall_mem_cons.mp hbefore
        exact .inr ⟨⟨before, after, rfl, hbefore⟩, hq.symm⟩

/-- If a name belongs to one pair only, the first pairs are all pairs. -/
theorem firsts_perm_dedup (hsame : ∀ p ∈ pairs, ∀ q ∈ pairs, p.2 = q.2 → p = q) :
    (firsts pairs).Perm pairs.dedup := by
  have hnodup : ∀ pairs, (firsts pairs).Nodup := by
    intro pairs
    induction pairs with
    | nil => exact List.nodup_nil
    | cons p pairs ih =>
      refine List.nodup_cons.mpr ⟨fun hmem => ?_, ih.filter _⟩
      exact (of_decide_eq_true (List.mem_filter.mp hmem).2) rfl
  refine (List.perm_ext_iff_of_nodup (hnodup pairs) (List.nodup_dedup pairs)).mpr fun p => ?_
  rw [List.mem_dedup, mem_firsts]
  constructor
  · rintro ⟨before, after, rfl, -⟩
    simp
  · intro hp
    obtain ⟨before, after, rfl, hbefore⟩ := List.eq_append_cons_of_mem hp
    refine ⟨before, after, rfl, fun q hq hname => hbefore ?_⟩
    rwa [← hsame q (by simp [hq]) p hp hname]

/-! ### The journals that are added -/

/-- The journal of the pair, before the reader seeks. -/
structure OpenedAs (h : Host) (contents : Contents) (p : Pair) (m : Member) : Prop where
  grants : h.Grants → m.host.Grants
  name : m.shortName = CStr.ofBytes p.2
  env : ∃ dir, JournalHandler.directory p.1 = some dir ∧ m.env = JournalReader.start (contents dir p.2).files

/-- The journals of the reader are those of the pairs, and their names are known. -/
structure Opened (h : Host) (contents : Contents) (ps : List Pair) (r : MultiReader) : Prop where
  journals : List.Forall₂ (OpenedAs h contents) ps r.journals
  known : ∀ name, (r.journalMap.lookup (CStr.ofBytes name)).isSome ↔ name ∈ ps.map Prod.snd

theorem Opened.empty : Opened h contents [] .empty := ⟨.nil, fun _ => iff_of_false Bool.noConfusion List.not_mem_nil⟩

theorem openJournal_eq (hp : Registers p) : ∃ host files, openJournal h contents p = some (host, files) ∧
    ∀ k, OpenedAs h contents p ⟨host, k, JournalReader.start files⟩ := by
  obtain ⟨dir, hdir, hfit⟩ := hp
  unfold openJournal
  rw [hdir]
  dsimp only
  rw [dif_pos hfit]
  exact ⟨_, _, rfl, fun k => ⟨id, rfl, dir, hdir, rfl⟩⟩

/-- A name that is known is the journal that it was before. -/
theorem Opened.addPair_known (ho : Opened h contents ps r) (hp : p.2 ∈ ps.map Prod.snd) :
    addPair h contents r p = some r := if_pos ((ho.known p.2).mpr hp)

/-- A new name is a new journal. -/
theorem Opened.addPair_new (ho : Opened h contents ps r) (hp : p.2 ∉ ps.map Prod.snd) (hreg : Registers p) :
    ∃ r', addPair h contents r p = some r' ∧ Opened h contents (ps ++ [p]) r' := by
  obtain ⟨host, files, hopen, hopened⟩ : ∃ host files, openJournal h contents p = some (host, files) ∧
      ∀ k, OpenedAs h contents p ⟨host, k, JournalReader.start files⟩ := openJournal_eq hreg
  have hunknown : ¬ (r.journalMap.lookup (CStr.ofBytes p.2)).isSome := fun hs => hp ((ho.known p.2).mp hs)
  have hname : host.jname = CStr.ofBytes p.2 := (hopened 0).name
  have hnone : r.journalMap.lookup host.jname = none := by
    rw [hname]
    exact Option.not_isSome_iff_eq_none.mp hunknown
  let r' := r.added ⟨host, r.journals.length, JournalReader.start files⟩
  have hexec : Prog.exec (addJournal host r.journals.length files) r = (.ok r.journals.length, r') :=
    addJournal_runs_new hnone r.journals.length files
  refine ⟨r', ?_, List.rel_append ho.journals (.cons (hopened _) .nil), fun name => ?_⟩
  · unfold addPair
    rw [if_neg hunknown, hopen, Option.map_some, hexec]
  · rw [List.map_append, List.mem_append, ← ho.known name]
    show ((r.journalMap.insert host.jname r.journals.length).lookup (CStr.ofBytes name)).isSome ↔ _
    rw [hname]
    by_cases hn : name = p.2
    · subst hn
      rw [AList.lookup_insert]
      simp
    · rw [AList.lookup_insert_ne fun h => hn (CStr.ofBytes_injective h)]
      simp [hn]

/-- **All pairs**: those whose names are known or come again add nothing. -/
theorem Opened.addPairs (ho : Opened h contents ps r) (hreg : ∀ p ∈ pairs, Registers p) :
    ∃ r', pairs.foldlM (addPair h contents) r = some r' ∧
      Opened h contents (ps ++ (firsts pairs).filter fun q => q.2 ∉ ps.map Prod.snd) r' := by
  induction pairs generalizing ps r with
  | nil =>
    refine ⟨r, rfl, ?_⟩
    rw [firsts, List.filter_nil, List.append_nil]
    exact ho
  | cons p pairs ih =>
    obtain ⟨hp, hreg⟩ := List.forall_mem_cons.mp hreg
    rw [List.foldlM_cons, firsts]
    by_cases hknown : p.2 ∈ ps.map Prod.snd
    · obtain ⟨r', hfold, ho'⟩ := ih ho hreg
      refine ⟨r', by rw [ho.addPair_known hknown]; exact hfold, ?_⟩
      rw [List.filter_cons_of_neg (by simpa using hknown), List.filter_filter]
      convert ho' using 2
      refine List.filter_congr fun q _ => Bool.eq_iff_iff.mpr ?_
      rw [Bool.and_eq_true, decide_eq_true_iff, decide_eq_true_iff, and_iff_left_iff_imp]
      intro hq hname
      exact hq (hname ▸ hknown)
    · obtain ⟨r₁, hadd, ho₁⟩ := ho.addPair_new hknown hp
      obtain ⟨r', hfold, ho'⟩ := ih ho₁ hreg
      refine ⟨r', by rw [hadd]; exact hfold, ?_⟩
      rw [List.filter_cons_of_pos (by simpa using hknown), List.filter_filter]
      rw [List.append_assoc, List.singleton_append] at ho'
      convert ho' using 3
      refine List.filter_congr fun q _ => Bool.eq_iff_iff.mpr ?_
      simp

/-! ### The seek -/

/-- The loop of `jumpStart` seeks in each journal. -/
theorem seekAll_spec {β : Type} {S T : β → Member → Prop} {startTime : Int64} {bs : List β} {front ms : List Member}
    (hS : List.Forall₂ S bs ms) (hseek : ∀ b m, S b m →
      ∃ a e, Runs (Journal.seekTime m.host startTime) m.env a e ∧ T b { m with env := e })
    (hr : r.journals = front ++ ms) : ∃ ms', List.Forall₂ T bs ms' ∧
      Runs (seekAll startTime (List.range' front.length ms.length)) r ⟨⟩ { r with journals := front ++ ms' } := by
  induction hS generalizing front r with
  | nil =>
    refine ⟨[], .nil, ?_⟩
    rw [← hr]
    exact Runs.pure _ _
  | @cons b m bs ms hm _ ih =>
    obtain ⟨a, e, hruns, hT⟩ := hseek b m hm
    have hget : r.journals[front.length]? = some m := by
      rw [hr, List.getElem?_append_right (Nat.le_refl _), Nat.sub_self]
      rfl
    have hset : (r.setEnv front.length m e).journals = (front ++ [{ m with env := e }]) ++ ms := by
      show r.journals.set front.length { m with env := e } = _
      rw [hr]
      simp
    obtain ⟨ms', hms, hrest⟩ := ih hset
    refine ⟨{ m with env := e } :: ms', .cons hT hms, ?_⟩
    rw [List.length_append, List.length_singleton, List.append_assoc] at hrest
    rw [List.length_cons, List.range'_succ, seekAll]
    exact (onJournal_runs (f := fun h => Journal.seekTime h startTime) hget hruns).bind hrest

/-- A reader that seeks `TIME_FROM_FIRST` has all frames of the journal before it. -/
theorem seekTime_fromFirst_unread {host : Host} {v : View} {e : Env} (hg : host.Grants) (hr : Rep e.files v)
    (hw : e.journal.isWriting = false) : ∃ a t, Runs (Journal.seekTime host timeFromFirst) e a t ∧
      t.journal.isWriting = false ∧ Yijinjing.Unread t (allRecords v.pages) := by
  obtain ⟨a, t, hruns, hkept⟩ := hr.seekTime hg hw timeFromFirst
  refine ⟨a, t, hruns, hkept.isWriting.trans hw, ?_⟩
  by_cases hnil : v.pages = []
  · obtain ⟨t', hruns', hexp⟩ := JournalReader.seekTime_nil hg hr hnil hw timeFromFirst
    obtain ⟨-, rfl⟩ := hruns.det hruns'
    rw [hnil]
    exact .expired hexp
  · obtain ⟨t', hruns', hfiles, hat⟩ := Journal.seekTime_fromFirst_spec hg hr hnil hw
    obtain ⟨-, rfl⟩ := hruns.det hruns'
    obtain ⟨buffer, hcur⟩ := hat.curPage
    have hall : v.ahead 0 0 = allRecords v.pages :=
      left_zero (by rw [length_recordRows]; exact List.length_pos_iff.mpr hnil)
    rw [← hall]
    refine .onPage hat.expired hcur ?_
    rw [hfiles]
    exact hr.ahead hat.place

/-! ### The frames -/

/-- The journal of the pair, with all its frames before the reader. -/
def AtFirst (contents : Contents) (p : Pair) (m : Member) : Prop := m.Granted ∧ m.Unread (visitsOf contents p)

theorem OpenedAs.seek (ho : OpenedAs h contents p m) (hg : h.Grants) : ∃ a e,
    Runs (Journal.seekTime m.host timeFromFirst) m.env a e ∧ AtFirst contents p { m with env := e } := by
  obtain ⟨dir, hdir, henv⟩ := ho.env
  have hrep : Rep m.env.files (contents dir p.2).view := by
    rw [henv]
    exact (contents dir p.2).rep
  have hw : m.env.journal.isWriting = false := by rw [henv]; rfl
  obtain ⟨a, e, hruns, hw', hu⟩ := seekTime_fromFirst_unread (ho.grants hg) hrep hw
  refine ⟨a, e, hruns, ⟨ho.grants hg, hw'⟩, _, hu, ?_⟩
  unfold visitsOf
  rw [hdir, ← ho.name]
  rfl

/-- **The reader is given the frames of the first pair under each name**, and of no other. -/
theorem create_firsts (hg : h.Grants) (hreg : ∀ p ∈ pairs, Registers p) :
    ∃ r, create h contents pairs timeFromFirst = some (.ok ⟨⟩, r) ∧ Covers contents (firsts pairs) r := by
  have hempty : Opened h contents [] .empty := Opened.empty
  obtain ⟨r₀, hfold, ho⟩ := hempty.addPairs hreg
  have hps : (firsts pairs).filter (fun q => q.2 ∉ ([] : List Pair).map Prod.snd) = firsts pairs := by simp
  rw [List.nil_append, hps] at ho
  have hall : r₀.journals = [] ++ r₀.journals := rfl
  obtain ⟨ms, hms, hseek⟩ := seekAll_spec ho.journals (fun _ _ hm => hm.seek hg) hall
  have hjump : Runs (jumpStart timeFromFirst) r₀ ⟨⟩ { r₀ with journals := ms } := by
    unfold jumpStart
    refine (Runs.get r₀).bind ?_
    rw [List.range_eq_range']
    exact hseek
  refine ⟨{ r₀ with journals := ms }, ?_, fun fuel hfuel => ?_⟩
  · unfold create
    rw [hfold]
    exact congrArg some hjump
  · have hgranted : MultiReader.Granted { r₀ with journals := ms } := by
      intro m hm
      obtain ⟨k, hk⟩ := List.getElem?_of_mem hm
      obtain ⟨p, -, hp⟩ := forall₂_getElem? hms.flip hk
      exact hp.1
    have hunread : MultiReader.Unread { r₀ with journals := ms } ((firsts pairs).map (visitsOf contents)) :=
      List.forall₂_map_right_iff.mpr (hms.flip.imp fun _ _ hm => hm.2)
    rw [List.flatMap_def] at hfuel ⊢
    obtain ⟨out, r', hruns, hinter, -⟩ := visitUntilNull_spec hgranted hunread hfuel
    exact ⟨out, r', hruns, hinter.perm, fun p hp => hinter.sublist (List.mem_map_of_mem hp)⟩

theorem Covers.perm {qs : List Pair} (hc : Covers contents ps r) (hperm : ps.Perm qs) : Covers contents qs r := by
  have hvisits := hperm.flatMap_right (visitsOf contents)
  intro fuel hfuel
  obtain ⟨out, r', hruns, hout, hsub⟩ := hc fuel (by rwa [hvisits.length_eq])
  exact ⟨out, r', hruns, hout.trans hvisits, fun p hp => hsub p (hperm.mem_iff.mpr hp)⟩

/-- **A reader covers the first journal under each name that it is created with**, and all of them if no name
belongs to two. -/
theorem create_covers (h : Host) (contents : Contents) (pairs : List Pair) (hreg : ∀ p ∈ pairs, Registers p) :
    ∃ r, create h.granting contents pairs timeFromFirst = some (.ok ⟨⟩, r) ∧ Covers contents (firsts pairs) r ∧
      ((∀ p ∈ pairs, ∀ q ∈ pairs, p.2 = q.2 → p = q) → Covers contents pairs.dedup r) := by
  obtain ⟨r, hcreate, hcov⟩ := create_firsts h.grants_granting hreg
  exact ⟨r, hcreate, hcov, fun hsame => hcov.perm (firsts_perm_dedup hsame)⟩

/-- A journal with one frame. -/
theorem exists_content : ∃ c : Content, allRecords c.view.pages = [⟨[], 5, 0, 0⟩] := by
  have hg := (hostWith fun _ => 5).grants_granting
  have hone : (Ledger.reopen (hostWith fun _ => 5).granting [] 0).pages.length < maxPages :=
    Nat.lt_of_le_of_lt (Nat.le_of_eq rfl) (by decide : 1 < maxPages)
  obtain ⟨e, -, hw⟩ := JournalWriter.create_spec (ρ := none) (s := Party.empty.env) hg (.settled Rep.empty)
    (by decide)
  have hfit : basicFrameHeaderLength + ([] : List UInt8).length ≤ pageMinHeadroom := by decide
  obtain ⟨t, hmoves⟩ := JournalWriter.writeFrame_spec hg hw hone hfit 0 0
  refine ⟨⟨t.files, _, hmoves.2.rep⟩, ?_⟩
  rw [Ledger.allRecords_write, Ledger.allRecords_reopen]
  rfl

/-- The journal `j` in the directories `a` and `b`. -/
def inAAndB : List Pair := [([97], [106]), ([98], [106])]

/-- The one in `a` has no pages. -/
def onlyInB (c : Content) : Contents := fun dir _ => if dir = [98] then c else ⟨∅, ⟨[], false⟩, Rep.empty⟩

theorem registers_inAAndB : ∀ p ∈ inAAndB, Registers p := by
  intro p hp
  simp only [inAAndB, List.mem_cons, List.not_mem_nil, or_false] at hp
  rcases hp with rfl | rfl
  · exact ⟨[97], by decide, by decide⟩
  · exact ⟨[98], by decide, by decide⟩

theorem create_covers_inAAndB : ∃ c : Content, allRecords c.view.pages = [⟨[], 5, 0, 0⟩] ∧
    ∃ r, create (hostWith fun _ => 5).granting (onlyInB c) inAAndB timeFromFirst = some (.ok ⟨⟩, r) ∧
      Covers (onlyInB c) (firsts inAAndB) r ∧
      ((∀ p ∈ inAAndB, ∀ q ∈ inAAndB, p.2 = q.2 → p = q) → Covers (onlyInB c) inAAndB.dedup r) := by
  obtain ⟨c, hc⟩ := exists_content
  exact ⟨c, hc, create_covers (hostWith fun _ => 5) (onlyInB c) inAAndB registers_inAAndB⟩

/-- The frame in `b` is not read. -/
theorem second_not_covered : ∃ c : Content, ¬ ∃ r,
    create (hostWith fun _ => 5).granting (onlyInB c) inAAndB timeFromFirst = some (.ok ⟨⟩, r) ∧
      Covers (onlyInB c) inAAndB.dedup r := by
  obtain ⟨c, hc⟩ := exists_content
  refine ⟨c, ?_⟩
  rintro ⟨r, hcreate, hcov⟩
  obtain ⟨r', hcreate', hcov'⟩ : ∃ r', create (hostWith fun _ => 5).granting (onlyInB c) inAAndB timeFromFirst =
      some (.ok ⟨⟩, r') ∧ Covers (onlyInB c) (firsts inAAndB) r' :=
    create_firsts (hostWith fun _ => 5).grants_granting registers_inAAndB
  obtain rfl : r = r' := congrArg Prod.snd (Option.some.inj (hcreate.symm.trans hcreate'))
  have hdedup : inAAndB.dedup = inAAndB := by decide
  have hnone : (firsts inAAndB).flatMap (visitsOf (onlyInB c)) = [] := rfl
  have hone : inAAndB.dedup.flatMap (visitsOf (onlyInB c)) = [(CStr.ofBytes [106], ⟨[], 5, 0, 0⟩)] := by
    rw [hdedup]
    show (allRecords c.view.pages).map (Prod.mk (CStr.ofBytes [106])) ++ [] = _
    rw [hc]
    rfl
  obtain ⟨out, t, hruns, hout, -⟩ := hcov 2 (by rw [hone]; decide)
  obtain ⟨out', t', hruns', hout', -⟩ := hcov' 2 (by rw [hnone]; decide)
  obtain ⟨rfl, -⟩ := hruns.det hruns'
  have hlen := hout.length_eq.symm.trans hout'.length_eq
  rw [hone, hnone] at hlen
  cases hlen

end Yijinjing.Merge
