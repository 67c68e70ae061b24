import Yijinjing.Journal.Merge

/-!
# Readers of several journals in the runs of their writers

Any number of journals, each with its writers as in `Recovery`, and a reader of some of them: journals are
added, sought and expired at any time, and the stores of the writers take place in between.  In every state
that is reached each journal of the reader has unread frames, which are records of the journal in the
order of the writes.  So its reader merges them (`stable_merge`).
-/

namespace Yijinjing.Merge

open Lib Prog MultiReader
open SeekRace (Later)

/-! ### The system -/

/-- A journal and its writers. -/
structure Source where
  host : Host
  state : Recovery.State

structure State where
  sources : List Source
  reader : MultiReader

inductive Action where
  /-- a step of the writers of a journal -/
  | journal (k : ℕ) (a : Recovery.Action)
  /-- the reader looks at the page files of one of its journals -/
  | look (idx : ℕ)
  /-- the reader adds the journal `k` -/
  | addJournal (k : ℕ)
  | expireJournal (idx : ℕ)
  | expireJournalByName (jname : CStr)
  | seekTimeJournal (idx : ℕ) (nano : Int64)
  | seekTimeJournalByName (jname : CStr) (nano : Int64)
  | jumpStart (startTime : Int64)
  | getNextFrame

/-- The store closes a page, and the next page is there. -/
def closesPage (fs : Files) : Effect → Bool
  | .frame n _ (.status st) => st == journalFrameStatusPageEnd && (fs.lookup (n + 1)).isSome
  | _ => false

theorem midRollover_iff (p : Party) : Crash.MidRollover p ↔ p.todo.any (closesPage p.files) = true := by
  rw [List.any_eq_true]
  constructor
  · rintro ⟨n, a, hmem, hsome⟩
    exact ⟨_, hmem, by simpa [closesPage] using hsome⟩
  · rintro ⟨e, hmem, he⟩
    unfold closesPage at he
    split at he
    · rename_i n a st
      rw [Bool.and_eq_true, beq_iff_eq] at he
      exact ⟨n, a, he.1 ▸ hmem, he.2⟩
    · cases he

instance (p : Party) : Decidable (Crash.MidRollover p) := decidable_of_iff _ (midRollover_iff p).symm

instance (s : Recovery.State) (a : Recovery.Action) : Decidable (Recovery.Orderly s a) := by
  unfold Recovery.Orderly
  split <;> infer_instance

/-- A call of the reader; what it has done stays when it throws. -/
def State.call {α : Type} (s : State) (x : ReaderM α) : State := { s with reader := (Prog.exec x s.reader).2 }

/-- No writer dies in the middle of a page change. -/
def step (s : State) : Action → Option State
  | .journal k a =>
    match s.sources[k]? with
    | some src =>
      if Recovery.Orderly src.state a then
        (Recovery.step src.host src.state a).map fun state =>
          { s with sources := s.sources.set k { src with state := state } }
      else none
    | none => none
  | .look idx =>
    match s.reader.journals[idx]? with
    | some m =>
      s.sources[m.source]?.map fun src =>
        { s with reader := s.reader.setEnv idx m { m.env with files := src.state.party.files } }
    | none => none
  | .addJournal k =>
    s.sources[k]?.map fun src => s.call (addJournal src.host k src.state.party.files)
  | .expireJournal idx => some (s.call (expireJournal idx))
  | .expireJournalByName jname => some (s.call (expireJournalByName jname))
  | .seekTimeJournal idx nano => some (s.call (seekTimeJournal idx nano))
  | .seekTimeJournalByName jname nano => some (s.call (seekTimeJournalByName jname nano))
  | .jumpStart startTime => some (s.call (jumpStart startTime))
  | .getNextFrame => some (s.call MultiReader.getNextFrame)

/-- A reader without journals. -/
def MultiReader.empty : MultiReader := ⟨[], none, ∅⟩

/-- The journals of these hosts, all empty, and all page requests are granted. -/
def merging (hosts : List Host) : System State Action where
  init := ⟨hosts.map fun h => ⟨h.granting, Recovery.State.empty⟩, .empty⟩
  step := step

/-- The visits are records of the journal, in the order of the writes and without gaps. -/
def FromSource (s : State) (m : Member) (l : List Visit) : Prop :=
  ∃ src rs, s.sources[m.source]? = some src ∧ l = rs.map (Prod.mk m.shortName) ∧
    rs <:+: src.state.party.published

/-- Each journal of the reader has unread frames. -/
structure HasUnread (s : State) : Prop where
  granted : s.reader.Granted
  unread : ∃ ls, s.reader.Unread ls ∧ List.Forall₂ (FromSource s) s.reader.journals ls

variable {s t : State} {r r' : MultiReader} {m m' : Member} {src : Source} {state : Recovery.State}
  {v w : View} {idx k : ℕ} {e : Env} {α : Type}

/-! ### Calls of a reader -/

/-- The journal of a reader stands on a frame of its page files. -/
structure Placed (m : Member) : Prop where
  granted : m.Granted
  rep : ∃ v, Rep m.env.files v
  onFrame : OnFrame m.env

/-- All that a call does is to move the reader in its page files. -/
def Moves (x : ReaderM α) (r : MultiReader) : Prop := ∃ a r', Runs x r a r' ∧ AllKept r r'

theorem MemberKept.placed (hk : MemberKept m m') (hp : Placed m) : Placed m' := by
  obtain ⟨v, hr⟩ := hp.rep
  exact ⟨⟨hk.host ▸ hp.granted.grants, hk.env.isWriting.trans hp.granted.isWriting⟩, ⟨v, hk.env.files ▸ hr⟩,
    hk.env.onFrame hp.onFrame⟩

theorem AllKept.placed (hk : AllKept r r') (hp : ∀ m ∈ r.journals, Placed m) : ∀ m ∈ r'.journals, Placed m := by
  intro m' hm'
  obtain ⟨j, hj⟩ := List.getElem?_of_mem hm'
  obtain ⟨m, hm, hkept⟩ := forall₂_getElem? hk.flip hj
  exact hkept.placed (hp m (List.mem_of_getElem? hm))

/-- A call of one journal. -/
theorem onJournal_moves {f : Host → JournalM α} (hp : ∀ m ∈ r.journals, Placed m)
    (hidx : idx < r.journals.length)
    (hf : ∀ m, Placed m → ∃ a e, Runs (f m.host) m.env a e ∧ Kept m.env e) : Moves (onJournal idx f) r := by
  have hm := List.getElem?_eq_getElem hidx
  obtain ⟨a, e, hruns, hkept⟩ := hf _ (hp _ (List.getElem_mem hidx))
  exact ⟨a, _, onJournal_runs hm hruns, .setEnv hm hkept⟩

theorem Placed.seekTime (hp : Placed m) (nano : Int64) :
    ∃ a e, Runs (Journal.seekTime m.host nano) m.env a e ∧ Kept m.env e := by
  obtain ⟨v, hr⟩ := hp.rep
  exact hr.seekTime hp.granted.grants hp.granted.isWriting nano

theorem Placed.expire (hp : Placed m) : ∃ a e, Runs (Journal.expire m.host) m.env a e ∧ Kept m.env e := by
  obtain ⟨v, hr⟩ := hp.rep
  obtain ⟨e, hruns⟩ := hr.expire hp.granted.grants hp.granted.isWriting
  exact ⟨⟨⟩, e, hruns⟩

/-- **A journal of a reader has unread frames.** -/
theorem Placed.unread (hp : Placed m) : ∃ l, m.Unread l := by
  obtain ⟨v, hr⟩ := hp.rep
  obtain ⟨rs, hu, -⟩ := hr.unread hp.onFrame
  exact ⟨_, rs, hu, rfl⟩

theorem expireJournal_moves (hp : ∀ m ∈ r.journals, Placed m) (idx : ℕ) : Moves (expireJournal idx) r := by
  by_cases hlt : idx < r.journals.length
  · obtain ⟨a, r', hruns, hk⟩ := onJournal_moves (f := Journal.expire) hp hlt fun m hm => hm.expire
    refine ⟨true, r', ?_, hk⟩
    unfold expireJournal
    refine (Runs.get r).bind ?_
    rw [if_pos hlt]
    exact hruns.bind (Runs.pure _ _)
  · refine ⟨false, r, ?_, .refl r⟩
    unfold expireJournal
    refine (Runs.get r).bind ?_
    rw [if_neg hlt]
    exact Runs.pure _ _

theorem seekTimeJournal_moves (hp : ∀ m ∈ r.journals, Placed m) (idx : ℕ) (nano : Int64) :
    Moves (seekTimeJournal idx nano) r := by
  by_cases hlt : idx < r.journals.length
  · obtain ⟨a, r', hruns, hk⟩ :=
      onJournal_moves (f := fun h => Journal.seekTime h nano) hp hlt fun m hm => hm.seekTime nano
    refine ⟨a, r', ?_, hk⟩
    unfold seekTimeJournal
    refine (Runs.get r).bind ?_
    rw [if_pos hlt]
    exact hruns
  · refine ⟨false, r, ?_, .refl r⟩
    unfold seekTimeJournal
    refine (Runs.get r).bind ?_
    rw [if_neg hlt]
    exact Runs.pure _ _

theorem expireJournalByName_moves (hp : ∀ m ∈ r.journals, Placed m) (jname : CStr) :
    Moves (expireJournalByName jname) r := by
  unfold expireJournalByName
  cases hidx : r.journalMap.lookup jname with
  | none =>
    refine ⟨false, r, (Runs.get r).bind ?_, .refl r⟩
    rw [hidx]
    exact Runs.pure _ _
  | some idx =>
    obtain ⟨a, r', hruns, hk⟩ := expireJournal_moves hp idx
    refine ⟨a, r', (Runs.get r).bind ?_, hk⟩
    rw [hidx]
    exact hruns

theorem seekTimeJournalByName_moves (hp : ∀ m ∈ r.journals, Placed m) (jname : CStr) (nano : Int64) :
    Moves (seekTimeJournalByName jname nano) r := by
  unfold seekTimeJournalByName
  cases hidx : r.journalMap.lookup jname with
  | none =>
    refine ⟨false, r, (Runs.get r).bind ?_, .refl r⟩
    rw [hidx]
    exact Runs.pure _ _
  | some idx =>
    obtain ⟨a, r', hruns, hk⟩ := seekTimeJournal_moves hp idx nano
    refine ⟨a, r', (Runs.get r).bind ?_, hk⟩
    rw [hidx]
    exact hruns

theorem seekAll_moves (hp : ∀ m ∈ r.journals, Placed m) (startTime : Int64) {idxs : List ℕ}
    (hidxs : ∀ idx ∈ idxs, idx < r.journals.length) : Moves (seekAll startTime idxs) r := by
  induction idxs generalizing r with
  | nil => exact ⟨⟨⟩, r, Runs.pure _ _, .refl r⟩
  | cons idx idxs ih =>
    obtain ⟨a, r₁, hruns, hk⟩ := onJournal_moves (f := fun h => Journal.seekTime h startTime) hp
      (hidxs idx List.mem_cons_self) fun m hm => hm.seekTime startTime
    obtain ⟨a', r', hrest, hk'⟩ := ih (hk.placed hp) fun i hi => by
      rw [← hk.length_eq]
      exact hidxs i (List.mem_cons_of_mem idx hi)
    refine ⟨a', r', ?_, hk.trans hk'⟩
    rw [seekAll]
    exact hruns.bind hrest

theorem jumpStart_moves (hp : ∀ m ∈ r.journals, Placed m) (startTime : Int64) :
    Moves (jumpStart startTime) r := by
  have hidxs : ∀ idx ∈ List.range r.journals.length, idx < r.journals.length := fun _ => List.mem_range.mp
  obtain ⟨a, r', hruns, hk⟩ := seekAll_moves hp startTime hidxs
  refine ⟨a, r', ?_, hk⟩
  unfold jumpStart
  exact (Runs.get r).bind hruns

theorem getNextFrame_moves (hp : ∀ m ∈ r.journals, Placed m) : Moves MultiReader.getNextFrame r := by
  obtain ⟨ls, hu⟩ := exists_forall₂ fun m hm => (hp m hm).unread
  obtain ⟨res, r', hruns, hk, -⟩ := getNextFrame_spec (fun m hm => (hp m hm).granted) hu
  exact ⟨res, r', hruns, hk⟩

/-! ### Reachable states -/

/-- A journal of the reader whose page files are those of the source, as they are or were before. -/
structure Follows (src : Source) (m : Member) : Prop where
  granted : m.Granted
  onFrame : OnFrame m.env
  views : ∃ v w, Rep m.env.files v ∧ Recovery.Inv src.state w ∧ Later v w ∧
    Grown (recordRows v.pages) (recordRows w.pages)

/-- What holds of every reachable state. -/
structure Inv (s : State) : Prop where
  sources : ∀ src ∈ s.sources, src.host.Grants ∧ ∃ w, Recovery.Inv src.state w
  members : ∀ m ∈ s.reader.journals, ∃ src, s.sources[m.source]? = some src ∧ Follows src m

theorem Follows.placed (hf : Follows src m) : Placed m := by
  obtain ⟨v, w, hr, -⟩ := hf.views
  exact ⟨hf.granted, ⟨v, hr⟩, hf.onFrame⟩

theorem Inv.placed (hs : Inv s) : ∀ m ∈ s.reader.journals, Placed m := by
  intro m hm
  obtain ⟨src, -, hf⟩ := hs.members m hm
  exact hf.placed

theorem Follows.kept (hf : Follows src m) (hk : MemberKept m m') : Follows src m' := by
  obtain ⟨v, w, hr, hviews⟩ := hf.views
  have hp := hk.placed hf.placed
  exact ⟨hp.granted, hp.onFrame, v, w, hk.env.files ▸ hr, hviews⟩

/-- The writers of the source go on. -/
theorem Follows.step {a : Recovery.Action} (hf : Follows src m) (hg : src.host.Grants)
    (hord : Recovery.Orderly src.state a) (ht : Recovery.step src.host src.state a = some state) :
    Follows { src with state := state } m := by
  obtain ⟨v, w, hr, hi, hl, hgrown⟩ := hf.views
  obtain ⟨w', hm, hi'⟩ := hi.step hg a hord ht
  exact ⟨hf.granted, hf.onFrame, v, w', hr, hi', hl.trans (.of_moved hi.party.rep hi'.party.rep hm),
    hgrown.trans hm.grown⟩

/-- The reader looks at the page files as they are. -/
theorem Follows.look (hf : Follows src m) :
    Follows src { m with env := { m.env with files := src.state.party.files } } := by
  obtain ⟨v, w, hr, hi, hl, -⟩ := hf.views
  exact ⟨⟨hf.granted.grants, hf.granted.isWriting⟩, hf.onFrame.later hr hi.party.rep hl, w, w, hi.party.rep, hi,
    .refl w, .refl⟩

/-- A journal that has just been added. -/
theorem Follows.start (hg : src.host.Grants) (hi : Recovery.Inv src.state w) (k : ℕ) :
    Follows src ⟨src.host, k, JournalReader.start src.state.party.files⟩ :=
  ⟨⟨hg, rfl⟩, fun _ hp => (nomatch hp), w, w, hi.party.rep, hi, .refl w, .refl⟩

theorem Inv.init (hosts : List Host) : Inv (merging hosts).init := by
  refine ⟨fun src hsrc => ?_, fun m hm => nomatch hm⟩
  obtain ⟨h, -, rfl⟩ := List.mem_map.mp hsrc
  exact ⟨h.grants_granting, _, Recovery.Inv.empty⟩

/-! ### One step -/

theorem Inv.journal (hs : Inv s) {a : Recovery.Action} (hsrc : s.sources[k]? = some src)
    (hord : Recovery.Orderly src.state a) (ht : Recovery.step src.host src.state a = some state) :
    Inv { s with sources := s.sources.set k { src with state := state } } := by
  obtain ⟨hg, w, hi⟩ := hs.sources src (List.mem_of_getElem? hsrc)
  refine ⟨fun src' hmem => ?_, fun m hm => ?_⟩
  · rcases List.mem_or_eq_of_mem_set hmem with hmem | rfl
    · exact hs.sources src' hmem
    · obtain ⟨w', -, hi'⟩ := hi.step hg a hord ht
      exact ⟨hg, w', hi'⟩
  · obtain ⟨src', hsrc', hf⟩ := hs.members m hm
    by_cases hk : k = m.source
    · subst hk
      obtain rfl := Option.some.inj (hsrc.symm.trans hsrc')
      exact ⟨_, List.getElem?_set_self (List.getElem?_eq_some_iff.mp hsrc).1, hf.step hg hord ht⟩
    · exact ⟨src', (List.getElem?_set_ne hk).trans hsrc', hf⟩

theorem Inv.look (hs : Inv s) (hm : s.reader.journals[idx]? = some m) (hsrc : s.sources[m.source]? = some src) :
    Inv { s with reader := s.reader.setEnv idx m { m.env with files := src.state.party.files } } := by
  refine ⟨hs.sources, fun m' hm' => ?_⟩
  rcases List.mem_or_eq_of_mem_set hm' with hm' | rfl
  · exact hs.members m' hm'
  · obtain ⟨src', hsrc', hf⟩ := hs.members m (List.mem_of_getElem? hm)
    obtain rfl := Option.some.inj (hsrc.symm.trans hsrc')
    exact ⟨src, hsrc, hf.look⟩

/-- The reader with one journal more. -/
def MultiReader.added (r : MultiReader) (m : Member) : MultiReader :=
  ⟨r.journals ++ [m], r.curJournal, r.journalMap.insert m.host.jname r.journals.length⟩

theorem addJournal_runs_known {host : Host} {r : MultiReader} {idx : ℕ}
    (hidx : r.journalMap.lookup host.jname = some idx) (k : ℕ) (fs : Files) :
    Runs (MultiReader.addJournal host k fs) r idx r := by
  unfold MultiReader.addJournal
  refine (Runs.get r).bind ?_
  rw [hidx]
  exact Runs.pure _ _

theorem addJournal_runs_new {host : Host} {r : MultiReader} (hidx : r.journalMap.lookup host.jname = none) (k : ℕ)
    (fs : Files) : Runs (MultiReader.addJournal host k fs) r r.journals.length
      (r.added ⟨host, k, JournalReader.start fs⟩) := by
  unfold MultiReader.addJournal
  refine (Runs.get r).bind ?_
  rw [hidx]
  exact (Runs.set r _).bind (Runs.pure _ _)

/-- A journal is added at the end, unless there is one of that name. -/
theorem addJournal_runs (host : Host) (k : ℕ) (fs : Files) (r : MultiReader) :
    ∃ a r', Runs (MultiReader.addJournal host k fs) r a r' ∧
      (r'.journals = r.journals ∨ r'.journals = r.journals ++ [⟨host, k, JournalReader.start fs⟩]) := by
  cases hidx : r.journalMap.lookup host.jname with
  | some idx => exact ⟨idx, r, addJournal_runs_known hidx k fs, .inl rfl⟩
  | none => exact ⟨r.journals.length, _, addJournal_runs_new hidx k fs, .inr rfl⟩

theorem Inv.addJournal (hs : Inv s) (hsrc : s.sources[k]? = some src) :
    Inv (s.call (MultiReader.addJournal src.host k src.state.party.files)) := by
  obtain ⟨hg, w, hi⟩ := hs.sources src (List.mem_of_getElem? hsrc)
  obtain ⟨a, r', hruns, hor⟩ := addJournal_runs src.host k src.state.party.files s.reader
  have hexec :
      Prog.exec (MultiReader.addJournal src.host k src.state.party.files) s.reader = (.ok a, r') := hruns
  unfold State.call
  rw [hexec]
  refine ⟨hs.sources, fun m hm => ?_⟩
  rcases hor with hsame | hadd
  · exact hs.members m (hsame ▸ hm)
  · rw [hadd] at hm
    rcases List.mem_append.mp hm with hm | hm
    · exact hs.members m hm
    · obtain rfl := List.mem_singleton.mp hm
      exact ⟨src, hsrc, .start hg hi k⟩

/-- A call of the reader. -/
theorem Inv.call {x : ReaderM α} (hs : Inv s) (hx : Moves x s.reader) : Inv (s.call x) := by
  obtain ⟨a, r', hruns, hk⟩ := hx
  have hexec : Prog.exec x s.reader = (.ok a, r') := hruns
  unfold State.call
  rw [hexec]
  refine ⟨hs.sources, fun m' hm' => ?_⟩
  obtain ⟨j, hj⟩ := List.getElem?_of_mem hm'
  obtain ⟨m, hm, hkept⟩ := forall₂_getElem? hk.flip hj
  obtain ⟨src, hsrc, hf⟩ := hs.members m (List.mem_of_getElem? hm)
  exact ⟨src, hkept.source ▸ hsrc, hf.kept hkept⟩

/-- **One step.** -/
theorem Inv.step (hs : Inv s) (a : Action) (ht : Merge.step s a = some t) : Inv t := by
  cases a with
  | journal k a =>
    simp only [Merge.step] at ht
    split at ht
    · rename_i src hsrc
      split at ht
      · rename_i hord
        obtain ⟨state, hstate, rfl⟩ := Option.map_eq_some_iff.mp ht
        exact hs.journal hsrc hord hstate
      · cases ht
    · cases ht
  | look idx =>
    simp only [Merge.step] at ht
    split at ht
    · rename_i m hm
      obtain ⟨src, hsrc, rfl⟩ := Option.map_eq_some_iff.mp ht
      exact hs.look hm hsrc
    · cases ht
  | addJournal k =>
    obtain ⟨src, hsrc, rfl⟩ := Option.map_eq_some_iff.mp ht
    exact hs.addJournal hsrc
  | expireJournal idx =>
    obtain rfl := Option.some.inj ht
    exact hs.call (expireJournal_moves hs.placed idx)
  | expireJournalByName jname =>
    obtain rfl := Option.some.inj ht
    exact hs.call (expireJournalByName_moves hs.placed jname)
  | seekTimeJournal idx nano =>
    obtain rfl := Option.some.inj ht
    exact hs.call (seekTimeJournal_moves hs.placed idx nano)
  | seekTimeJournalByName jname nano =>
    obtain rfl := Option.some.inj ht
    exact hs.call (seekTimeJournalByName_moves hs.placed jname nano)
  | jumpStart startTime =>
    obtain rfl := Option.some.inj ht
    exact hs.call (jumpStart_moves hs.placed startTime)
  | getNextFrame =>
    obtain rfl := Option.some.inj ht
    exact hs.call (getNextFrame_moves hs.placed)

/-- The unread frames of a journal are the last of the records that the reader can see. -/
theorem Follows.unread (hf : Follows src m) :
    ∃ rs, Yijinjing.Unread m.env rs ∧ rs <:+: src.state.party.published := by
  obtain ⟨v, w, hr, hi, -, hgrown⟩ := hf.views
  obtain ⟨rs, hu, hsuffix⟩ := hr.unread hf.onFrame
  rw [hi.party.published]
  exact ⟨rs, hu, hsuffix.isInfix.trans hgrown.flatten_prefix.isInfix⟩

theorem Inv.hasUnread (hs : Inv s) : HasUnread s := by
  have hex : ∀ m ∈ s.reader.journals, ∃ l, m.Unread l ∧ FromSource s m l := by
    intro m hm
    obtain ⟨src, hsrc, hf⟩ := hs.members m hm
    obtain ⟨rs, hu, hinfix⟩ := hf.unread
    exact ⟨_, ⟨rs, hu, rfl⟩, src, rs, hsrc, rfl, hinfix⟩
  obtain ⟨ls, hls⟩ := exists_forall₂ hex
  exact ⟨fun m hm => (hs.placed m hm).granted, ls, hls.imp fun _ _ h => h.1, hls.imp fun _ _ h => h.2⟩

/-- **A reader of several journals is a stable merge**: with any page files, if its journals have unread
frames; and in the runs of the writers they always have. -/
theorem stable_merge :
    (∀ (r : MultiReader) (ls : List (List Visit)), r.Granted → r.Unread ls → MergesStably r ls) ∧
      ∀ (hosts : List Host) (as : List Action),
        (merging hosts).Always HasUnread (merging hosts).init as :=
  ⟨fun _ _ hg hu => hu.mergesStably hg, fun hosts as =>
    System.always_of_step (fun _ a _ hs ht => hs.step a ht) (fun _ hs => hs.hasUnread) as (Inv.init hosts)⟩

end Yijinjing.Merge
