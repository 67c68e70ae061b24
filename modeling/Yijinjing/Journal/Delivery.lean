import Yijinjing.Lib.Queue
import Yijinjing.Journal.Buffers
import Yijinjing.Journal.MergeRuns

/-!
# What a reader of several journals is given, while they are written

The runs of `Merge`, with all that `getNextFrame` has returned so far and the name it came under.  A
journal that the reader neither seeks nor expires is a queue: the records that its writers publish come
in at the back, whatever the reader looks at in between, and the frames that are returned under its name
go out at the front (`in_order_delivery`).

What is ahead of a reader is read off the page files as they are now, not as the reader has last seen
them.  That a place stays the same place is clear on the pages of the journal; a reader that sought the
end in the middle of a page change stands on a page that is not one yet, and all pages before it are
closed by then or get no more frames (`Succeeds.frozen`).
-/

namespace Yijinjing.Delivery

open Lib Prog Merge
open SeekRace (Later)
open Buffers (Untouched)

/-! ### Later page files -/

/-- The view `w` comes after `v`; a page with a file behind it gets no more frames. -/
structure Succeeds (v w : View) : Prop where
  later : Later v w
  frozen : ∀ i, i + 1 < v.numFiles → w.row i = v.row i

variable {fs fs' : Files} {u v w : View} {ρ : Option Record} {e : Effect} {i j : ℕ}

theorem Succeeds.refl (v : View) : Succeeds v v := ⟨.refl v, fun _ _ => rfl⟩

theorem Succeeds.trans (h1 : Succeeds u v) (h2 : Succeeds v w) : Succeeds u w :=
  ⟨h1.later.trans h2.later, fun i hi =>
    (h2.frozen i (Nat.lt_of_lt_of_le hi h1.later.numFiles_le)).trans (h1.frozen i hi)⟩

/-- While a page is being opened the one before it gets no frames. -/
theorem row_of_opening (hn : Next ρ fs v e w) (ho : v.opening = true) (hne : v.pages ≠ []) :
    w.row (v.pages.length - 1) = v.row (v.pages.length - 1) := by
  have hpos := List.length_pos_iff.mpr hne
  rcases hn.opening ho hne with ⟨-, hpages⟩ | ⟨a, rfl⟩
  · unfold View.row
    rw [hpages]
  · have hgrows := hn.grows
    rw [writtenBy_pageEnd] at hgrows
    have hlen : v.pages.length - 1 < (recordRows v.pages).length := by
      rw [length_recordRows]
      omega
    unfold View.row
    generalize v.pages.length - 1 = i at hlen
    generalize recordRows w.pages = qs at hgrows
    generalize recordRows v.pages = ps at hgrows hlen
    cases hgrows with
    | same => rfl
    | page => exact getD_append_of_lt hlen

theorem Succeeds.of_next (hr : Rep fs v) (hr' : Rep (e.exec fs) w) (hn : Next ρ fs v e w) : Succeeds v w := by
  refine ⟨.of_next hr hr' hn, fun i hi => ?_⟩
  have hnum : v.numFiles = v.pages.length + v.opening.toNat := rfl
  rcases Nat.lt_or_ge (i + 1) v.pages.length with hlt | hge
  · exact hn.grows.getD_of_lt (by rwa [length_recordRows])
  · have ho : v.opening = true := by
      cases hop : v.opening with
      | true => rfl
      | false =>
        rw [hop, Bool.toNat_false] at hnum
        omega
    rw [ho, Bool.toNat_true] at hnum
    obtain rfl : i = v.pages.length - 1 := by omega
    exact row_of_opening hn ho (List.length_pos_iff.mp (by omega))

theorem Succeeds.of_moved (hr : Rep fs v) (hr' : Rep fs' w) (hm : Recovery.Moved ρ fs v fs' w) : Succeeds v w := by
  cases hm with
  | same => exact .refl v
  | store hn => exact .of_next hr hr' hn

/-- What is before a place stays before it. -/
theorem Succeeds.taken_eq (hs : Succeeds v w) (hi : i < v.numFiles) (hj : j ≤ (v.row i).length) :
    taken (recordRows w.pages) i j = taken (recordRows v.pages) i j := by
  have hnum : v.numFiles = v.pages.length + v.opening.toNat := rfl
  have hle := Bool.toNat_le v.opening
  have hlen := hs.later.length_le
  obtain ⟨rs, hrs⟩ := hs.later.row i
  have hbefore : (recordRows w.pages).take i = (recordRows v.pages).take i := by
    refine List.ext_getElem (by simp only [List.length_take, length_recordRows]; omega) fun k hk hk' => ?_
    rw [List.length_take, length_recordRows] at hk hk'
    have hrow := hs.frozen k (by omega)
    rw [View.row_eq (by omega), View.row_eq (by omega)] at hrow
    simpa [recordRows] using hrow
  have hat : (w.row i).take j = (v.row i).take j := by
    rw [← hrs, List.take_append_of_le_length hj]
  unfold taken
  rw [hbefore]
  exact congrArg (_ ++ ·) hat

/-! ### What is ahead of a reader, with later page files -/

variable {s t : Env} {p : Page} {rs rs' : List Record}

/-- Nothing is on the page that is being opened. -/
theorem row_next : v.row v.pages.length = [] := SeekRace.View.row_of_ge (Nat.le_refl _)

theorem left_next : left (recordRows v.pages) v.pages.length j = [] := by
  have hnil : (recordRows v.pages).getD v.pages.length [] = [] := row_next
  have hdrop : (recordRows v.pages).drop (v.pages.length + 1) = [] :=
    List.drop_of_length_le (by rw [length_recordRows]; omega)
  unfold left
  rw [hnil, hdrop, List.drop_nil]
  rfl

/-- The records before and behind a place, the start of the page that is being opened included. -/
theorem taken_left (hi : i < v.numFiles) (hj : j ≤ (v.row i).length) :
    taken (recordRows v.pages) i j ++ left (recordRows v.pages) i j = allRecords v.pages := by
  rcases View.lt_or_next hi with hlt | ⟨-, rfl⟩
  · exact taken_append_left j (by rwa [length_recordRows])
  · have hnil : (recordRows v.pages).getD v.pages.length [] = [] := row_next
    unfold taken
    rw [left_next, hnil, List.take_of_length_le (by rw [length_recordRows]), List.take_nil, List.append_nil,
      List.append_nil]
    rfl

/-- **The unread frames of a reader at a place.** -/
theorem unread_at (hr : Rep s.files v) (he : s.journal.expired = false) (hcur : s.journal.curPage = some p)
    (hi : i < v.numFiles) (hj : j ≤ (v.row i).length) (hno : p.pageNum = pageNo i) (ha : p.frame = v.addr i j) :
    Unread s (left (recordRows v.pages) i j) := by
  refine .onPage he hcur ?_
  rw [hno, ha]
  rcases View.lt_or_next hi with hlt | ⟨ho, rfl⟩
  · exact hr.ahead ⟨by rwa [length_recordRows], hj⟩
  · have haddr : v.addr v.pages.length j = pageInitPosition := by
      unfold View.addr
      rw [row_next, List.take_nil]
      rfl
    obtain ⟨b, hb⟩ := Option.isSome_iff_exists.mp ((hr.files _).mpr ⟨_, hi, rfl⟩)
    rw [left_next, haddr]
    refine .raw ?_
    rw [Files.buffer_of_lookup hb]
    exact (hr.next ho b hb).status

/-- **A reader has the same frames behind it when the page files grow.** -/
theorem unread_later (hr : Rep s.files v) (hr' : Rep fs' w) (hs : Succeeds v w) (hon : OnFrame s)
    (he : s.journal.expired = false) : ∃ bs rs rs', Unread s rs ∧ Unread { s with files := fs' } rs' ∧
      bs ++ rs = allRecords v.pages ∧ bs ++ rs' = allRecords w.pages := by
  cases hcur : s.journal.curPage with
  | none =>
    have hr'' : Rep { s with files := fs' }.files w := hr'
    exact ⟨[], _, _, hr.unread_start he hcur, hr''.unread_start he hcur, rfl, rfl⟩
  | some p =>
    obtain ⟨i, hi, hno, j, hj, ha⟩ := hon.place hr hcur
    obtain ⟨ys, hys⟩ := hs.later.row i
    have hi' : i < w.numFiles := Nat.lt_of_lt_of_le hi hs.later.numFiles_le
    have hj' : j ≤ (w.row i).length := Nat.le_trans hj (hs.later.row i).length_le
    have haddr : v.addr i j = w.addr i j := by
      unfold View.addr
      rw [← hys, List.take_append_of_le_length hj]
    refine ⟨taken (recordRows v.pages) i j, _, left (recordRows w.pages) i j, unread_at hr he hcur hi hj hno ha, ?_,
      taken_left hi hj, ?_⟩
    · exact unread_at (s := { s with files := fs' }) hr' he hcur hi' hj' hno (ha.trans haddr)
    · rw [← hs.taken_eq hi hj]
      exact taken_left hi' hj'

/-- The frames behind a reader that has these unread. -/
theorem behind (hu : Unread s rs) (hr : Rep s.files v) (hr' : Rep fs' w) (hs : Succeeds v w) (hon : OnFrame s)
    (he : s.journal.expired = false) : ∃ bs rs', Unread { s with files := fs' } rs' ∧
      bs ++ rs = allRecords v.pages ∧ bs ++ rs' = allRecords w.pages := by
  obtain ⟨bs, rs₁, rs', hu₁, hu', hv, hw⟩ := unread_later hr hr' hs hon he
  obtain rfl := hu.det hu₁
  exact ⟨bs, rs', hu', hv, hw⟩

/-! ### A call of `getNextFrame` expires nothing -/

/-- The journal is expired, or not, as before. -/
def Stays (s t : Env) : Prop := t.journal.expired = s.journal.expired

instance : Std.Refl Stays := ⟨fun _ => rfl⟩

instance : IsTrans Env Stays := ⟨fun _ _ _ h₁ h₂ => h₂.trans h₁⟩

theorem Stays.of_untouched (hu : Untouched s t) : Stays s t := congrArg Journal.expired hu.journal

section Calls

variable {h : Host} {α : Type}

theorem stays_getPage (isWriting : Bool) (n : Int16) : Keeps Stays (getPage h isWriting n) := fun s =>
  (Buffers.getPage_gives s).mono (fun _ _ hg => .of_untouched hg.untouched) fun _ _ hu => .of_untouched hu

theorem stays_setCurPage (q : Option Page) : Keeps Stays (setCurPage q) := .modify fun _ => rfl

theorem stays_loadNextPage : Keeps Stays (Journal.loadNextPage h) := by
  have hrelease : ∀ (p : Page) (q : Option Page), Keeps Stays (do releasePage p; setCurPage q : JournalM Unit) :=
    fun p q => Keeps.bind (.modify fun _ => rfl) fun _ => stays_setCurPage q
  unfold Journal.loadNextPage
  refine .get fun s => ?_
  split
  · exact (Runs.pure _ s).post rfl
  · split
    · exact (stays_getPage _ _).bind stays_setCurPage s
    · rename_i p _
      refine (stays_getPage _ _).bind (fun q => ?_) s
      split
      · exact Keeps.bind (fun u => (Buffers.untouched_finishPage p u).mono (fun _ _ => .of_untouched)
          fun _ _ => .of_untouched) fun _ => hrelease p q
      · exact hrelease p q

theorem stays_locateWritableFrame : Keeps Stays Journal.locateWritableFrame := by
  unfold Journal.locateWritableFrame
  refine .get fun s => ?_
  split
  · exact (Throws.throw _ s).post rfl
  · dsimp only
    split
    · exact (Throws.throw _ s).post rfl
    · exact (stays_setCurPage _).bind (fun _ => .pure _) s

theorem stays_locateFrameLoop (fuel : ℕ) : Keeps Stays (Journal.locateFrameLoop h fuel) := by
  induction fuel with
  | zero => exact .throw _
  | succ fuel ih =>
    unfold Journal.locateFrameLoop
    refine stays_locateWritableFrame.bind fun a => ?_
    cases a with
    | some a => exact .pure _
    | none => exact stays_loadNextPage.bind fun _ => ih

theorem stays_turnPage : Keeps Stays (Journal.turnPage h) := by
  unfold Journal.turnPage
  refine .get fun s => ?_
  split
  · split
    · exact stays_loadNextPage s
    · exact (Runs.pure _ s).post rfl
  · exact stays_loadNextPage s

theorem stays_locateFrame : Keeps Stays (Journal.locateFrame h) := by
  unfold Journal.locateFrame
  refine .get fun s => ?_
  split
  · exact (Runs.pure _ s).post rfl
  · split
    · exact (stays_locateFrameLoop _).bind (fun _ => .pure _) s
    · refine stays_turnPage.bind (fun _ => .get fun t => ?_) s
      split
      · exact (Runs.pure _ t).post rfl
      · exact (Runs.pure _ t).post rfl

theorem stays_locateHeader : Keeps Stays (locateHeader h) := by
  unfold locateHeader
  refine stays_locateFrame.bind fun a => ?_
  cases a with
  | none => exact .pure _
  | some a =>
    refine .get fun s => ?_
    split
    · exact (Throws.throw _ s).post rfl
    · exact (Runs.pure _ s).post rfl

theorem stays_takeFrame (page : Int16) (frame : ℕ) : Keeps Stays (takeFrame page frame) := by
  unfold takeFrame Journal.passFrame
  refine Keeps.bind (.get fun s => ?_) fun _ => .get fun s => (Runs.pure _ s).post rfl
  split
  · exact (Throws.throw _ s).post rfl
  · exact stays_setCurPage _ s

/-- Which journals of the reader are expired. -/
def expiry (r : MultiReader) : List Bool := r.journals.map fun m => m.env.journal.expired

/-- The same journals are expired. -/
def SameExpiry (r r' : MultiReader) : Prop := expiry r' = expiry r

instance : Std.Refl SameExpiry := ⟨fun _ => rfl⟩

instance : IsTrans MultiReader SameExpiry := ⟨fun _ _ _ h₁ h₂ => h₂.trans h₁⟩

theorem sameExpiry_onJournal {f : Host → JournalM α} (idx : ℕ) (hf : ∀ h, Keeps Stays (f h)) :
    Keeps SameExpiry (onJournal idx f) := by
  unfold onJournal
  refine .get fun r => ?_
  split
  · exact (Throws.throw _ r).post rfl
  · rename_i m hm
    have hstays : (Prog.exec (f m.host) m.env).2.journal.expired = m.env.journal.expired :=
      (hf m.host m.env).at_end
    obtain ⟨hlt, hget⟩ := List.getElem?_eq_some_iff.mp hm
    have hset : SameExpiry r
        { r with journals := r.journals.set idx { m with env := (Prog.exec (f m.host) m.env).2 } } := by
      unfold SameExpiry expiry
      rw [List.map_set, hstays, ← hget, ← List.getElem_map (fun m : Member => m.env.journal.expired),
        List.set_getElem_self]
      exact (by simpa using hlt)
    refine .bind ((Runs.set r _).post ?_)
    split
    · exact (Runs.pure _ _).post hset
    · exact (Throws.throw _ _).post hset

theorem sameExpiry_findBest (idxs : List ℕ) (best : MultiReader.Best) :
    Keeps SameExpiry (MultiReader.findBest idxs best) := by
  induction idxs generalizing best with
  | nil => exact .pure _
  | cons idx idxs ih =>
    unfold MultiReader.findBest
    refine (sameExpiry_onJournal idx fun _ => stays_locateHeader).bind fun d => ?_
    cases d with
    | none => exact ih best
    | some header =>
      dsimp only
      split
      · exact Keeps.bind (.modify fun _ => rfl) fun _ => ih _
      · exact ih best

theorem sameExpiry_getNextFrame : Keeps SameExpiry MultiReader.getNextFrame := by
  unfold MultiReader.getNextFrame
  refine .get fun r => ?_
  refine (sameExpiry_findBest _ _).bind (fun best => ?_) r
  cases best.resAddress with
  | none => exact .pure _
  | some address =>
    obtain ⟨page, frame⟩ := address
    refine .get fun r => ?_
    split
    · exact (Throws.throw _ r).post rfl
    · exact (sameExpiry_onJournal _ fun _ => stays_takeFrame page frame).bind (fun _ => .pure _) r

/-! ### Which journals a call touches -/

/-- Only journals in `P` are touched. -/
structure Touches (P : ℕ → Prop) (r r' : MultiReader) : Prop where
  journalMap : r'.journalMap = r.journalMap
  others : ∀ idx, ¬ P idx → r'.journals[idx]? = r.journals[idx]?

instance (P : ℕ → Prop) : Std.Refl (Touches P) := ⟨fun _ => ⟨rfl, fun _ _ => rfl⟩⟩

instance (P : ℕ → Prop) : IsTrans MultiReader (Touches P) := ⟨fun _ _ _ h₁ h₂ =>
  ⟨h₂.journalMap.trans h₁.journalMap, fun idx hidx => (h₂.others idx hidx).trans (h₁.others idx hidx)⟩⟩

variable {P : ℕ → Prop} {idx : ℕ}

theorem touches_onJournal (f : Host → JournalM α) (hidx : P idx) : Keeps (Touches P) (onJournal idx f) := by
  unfold onJournal
  refine .get fun r => ?_
  split
  · exact (Throws.throw _ r).post (refl_of _ r)
  · rename_i m hm
    have hset : Touches P r
        { r with journals := r.journals.set idx { m with env := (Prog.exec (f m.host) m.env).2 } } :=
      ⟨rfl, fun j hj => List.getElem?_set_ne fun he : idx = j => hj (he ▸ hidx)⟩
    refine .bind ((Runs.set r _).post ?_)
    split
    · exact (Runs.pure _ _).post hset
    · exact (Throws.throw _ _).post hset

theorem touches_expireJournal (hidx : P idx) : Keeps (Touches P) (MultiReader.expireJournal idx) := by
  unfold MultiReader.expireJournal
  refine .get fun r => ?_
  split
  · exact (touches_onJournal _ hidx).bind (fun _ => .pure _) r
  · exact (Runs.pure _ r).post (refl_of _ r)

theorem touches_seekTimeJournal (hidx : P idx) (nano : Int64) :
    Keeps (Touches P) (MultiReader.seekTimeJournal idx nano) := by
  unfold MultiReader.seekTimeJournal
  refine .get fun r => ?_
  split
  · exact touches_onJournal _ hidx r
  · exact (Runs.pure _ r).post (refl_of _ r)

theorem touches_jumpStart (startTime : Int64) :
    Keeps (Touches fun _ => True) (MultiReader.jumpStart startTime) := by
  have hall : ∀ idxs, Keeps (Touches fun _ => True) (MultiReader.seekAll startTime idxs) := by
    intro idxs
    induction idxs with
    | nil => exact .pure _
    | cons idx idxs ih =>
      unfold MultiReader.seekAll
      exact (touches_onJournal _ trivial).bind fun _ => ih
  unfold MultiReader.jumpStart
  exact .get fun r => hall _ r

theorem touches_findBest (idxs : List ℕ) (best : MultiReader.Best) :
    Keeps (Touches fun _ => True) (MultiReader.findBest idxs best) := by
  induction idxs generalizing best with
  | nil => exact .pure _
  | cons idx idxs ih =>
    unfold MultiReader.findBest
    refine (touches_onJournal _ trivial).bind fun d => ?_
    cases d with
    | none => exact ih best
    | some header =>
      dsimp only
      split
      · exact Keeps.bind (.modify fun _ => ⟨rfl, fun _ _ => rfl⟩) fun _ => ih _
      · exact ih best

theorem touches_getNextFrame : Keeps (Touches fun _ => True) MultiReader.getNextFrame := by
  unfold MultiReader.getNextFrame
  refine .get fun r => ?_
  refine (touches_findBest _ _).bind (fun best => ?_) r
  cases best.resAddress with
  | none => exact .pure _
  | some address =>
    obtain ⟨page, frame⟩ := address
    refine .get fun r => ?_
    split
    · exact (Throws.throw _ r).post (refl_of _ r)
    · exact (touches_onJournal _ trivial).bind (fun _ => .pure _) r

end Calls

/-! ### The runs, with what has been returned -/

structure State where
  merge : Merge.State
  /-- the frames returned so far and the name that each came under; no step reads them -/
  given : List MultiReader.Visit

/-- What a call of `getNextFrame` returns, and what `getFrameName` says then. -/
def returned (r : MultiReader) : List MultiReader.Visit :=
  match Prog.exec MultiReader.getNextFrame r with
  | (.ok (some frame), r') => [(r'.getFrameName, frame)]
  | _ => []

/-- The frames that an action gives to the user of the reader. -/
def visits (r : MultiReader) : Merge.Action → List MultiReader.Visit
  | .getNextFrame => returned r
  | _ => []

def step (s : State) (a : Merge.Action) : Option State :=
  (Merge.step s.merge a).map fun t => ⟨t, s.given ++ visits s.merge.reader a⟩

/-- The runs of `merging`, with what the reader gives. -/
def delivery (hosts : List Host) : System State Merge.Action := ⟨⟨(merging hosts).init, []⟩, step⟩

/-- The action may put the journal of that name to another place. -/
def Repositions (r : MultiReader) (jname : CStr) : Merge.Action → Prop
  | .expireJournal idx | .seekTimeJournal idx _ => r.journals[idx]?.map Member.shortName = some jname
  | .expireJournalByName name | .seekTimeJournalByName name _ => name = jname
  | .jumpStart _ => True
  | _ => False

/-- The frames under a name. -/
def framesOf (jname : CStr) (vs : List MultiReader.Visit) : List Record :=
  (vs.filter fun x => x.1 = jname).map Prod.snd

theorem framesOf_append (jname : CStr) (vs vs' : List MultiReader.Visit) :
    framesOf jname (vs ++ vs') = framesOf jname vs ++ framesOf jname vs' := by
  simp [framesOf]

/-- **What is ahead of the reader** in the journal of that name: the frames that it would be given if
nothing more was written. -/
structure Pending (s : Merge.State) (jname : CStr) (published ahead : List Record) : Prop where
  journal : ∃ (idx : ℕ) (m : Member) (src : Source), s.reader.journals[idx]? = some m ∧ m.shortName = jname ∧
    s.sources[m.source]? = some src ∧ m.env.journal.expired = false ∧ src.state.party.published = published ∧
    Unread { m.env with files := src.state.party.files } ahead

/-! ### Reachable states -/

variable {ms mt : Merge.State} {r r' : MultiReader} {m m' : Member} {src : Source} {state : Recovery.State}
  {idx k : ℕ} {jname : CStr} {published published' ahead ahead' gone : List Record} {α : Type}

/-- The page files of the reader are those of the source, as they are or were before. -/
def Tracks (src : Source) (m : Member) : Prop :=
  ∃ v w, Rep m.env.files v ∧ Recovery.Inv src.state w ∧ Succeeds v w

/-- `journalMap` holds the places of the journals. -/
def Named (r : MultiReader) : Prop :=
  ∀ name idx, r.journalMap.lookup name = some idx ↔ r.journals[idx]?.map Member.shortName = some name

/-- What holds of every reachable state. -/
structure Inv (s : Merge.State) : Prop where
  base : Merge.Inv s
  named : Named s.reader
  tracks : ∀ m ∈ s.reader.journals, ∃ src, s.sources[m.source]? = some src ∧ Tracks src m

theorem Inv.init (hosts : List Host) : Inv (merging hosts).init :=
  ⟨Merge.Inv.init hosts, fun _ _ => ⟨fun h => (nomatch h), fun h => (nomatch h)⟩, fun _ hm => (nomatch hm)⟩

/-- No two journals have one name. -/
theorem Named.index_eq (hn : Named r) (hi : r.journals[idx]? = some m) (hk : r.journals[k]? = some m')
    (hname : m.shortName = m'.shortName) : idx = k := by
  have h1 := (hn m.shortName idx).mpr (by rw [hi]; rfl)
  have h2 := (hn m'.shortName k).mpr (by rw [hk]; rfl)
  rw [hname] at h1
  exact Option.some.inj (h1.symm.trans h2)

theorem shortNames_kept (hk : AllKept r r') :
    r'.journals.map Member.shortName = r.journals.map Member.shortName := by
  unfold AllKept at hk
  generalize r.journals = ms at hk
  generalize r'.journals = ms' at hk
  induction hk with
  | nil => rfl
  | cons hkept _ ih => rw [List.map_cons, List.map_cons, ih, Member.shortName, Member.shortName, hkept.host]

theorem Named.kept (hn : Named r) (hk : AllKept r r') (hmap : r'.journalMap = r.journalMap) : Named r' := by
  intro name idx
  rw [hmap, hn name idx, ← List.getElem?_map, ← List.getElem?_map, shortNames_kept hk]

theorem Named.added (hn : Named r) (hnew : r.journalMap.lookup m.host.jname = none) : Named (r.added m) := by
  intro name idx
  show (r.journalMap.insert m.host.jname r.journals.length).lookup name = some idx ↔
    (r.journals ++ [m])[idx]?.map Member.shortName = some name
  by_cases hname : name = m.host.jname
  · subst hname
    rw [AList.lookup_insert]
    constructor
    · rintro h
      obtain rfl := Option.some.inj h
      rw [List.getElem?_concat_length]
      rfl
    · intro h
      rcases Nat.lt_or_ge idx r.journals.length with hlt | hge
      · rw [List.getElem?_append_left hlt, ← hn, hnew] at h
        cases h
      · rcases Nat.eq_or_lt_of_le hge with rfl | hgt
        · rfl
        · rw [List.getElem?_eq_none (by rw [List.length_append, List.length_singleton]; omega)] at h
          cases h
  · rw [AList.lookup_insert_ne hname, hn]
    rcases Nat.lt_or_ge idx r.journals.length with hlt | hge
    · rw [List.getElem?_append_left hlt]
    · rw [List.getElem?_eq_none hge]
      refine ⟨fun h => (nomatch h), fun h => ?_⟩
      rcases Nat.eq_or_lt_of_le hge with rfl | hgt
      · rw [List.getElem?_concat_length] at h
        exact absurd (Option.some.inj h).symm hname
      · rw [List.getElem?_eq_none (by rw [List.length_append, List.length_singleton]; omega)] at h
        cases h

/-- The writers of the source go on. -/
theorem Tracks.step {a : Recovery.Action} (ht : Tracks src m) (hg : src.host.Grants)
    (hord : Recovery.Orderly src.state a) (hstep : Recovery.step src.host src.state a = some state) :
    Tracks { src with state := state } m := by
  obtain ⟨v, w, hr, hi, hs⟩ := ht
  obtain ⟨w', hm, hi'⟩ := hi.step hg a hord hstep
  exact ⟨v, w', hr, hi', hs.trans (.of_moved hi.party.rep hi'.party.rep hm)⟩

/-- A call of the reader. -/
theorem Inv.call {P : ℕ → Prop} {x : ReaderM α} (hs : Inv ms) (hx : Merge.Moves x ms.reader)
    (ht : Touches P ms.reader (Prog.exec x ms.reader).2) : Inv (ms.call x) := by
  obtain ⟨a, r', hruns, hk⟩ := hx
  have hexec : Prog.exec x ms.reader = (.ok a, r') := hruns
  have hreader : (ms.call x).reader = r' := congrArg Prod.snd hexec
  rw [hexec] at ht
  refine ⟨hs.base.call ⟨a, r', hruns, hk⟩, hreader ▸ hs.named.kept hk ht.journalMap, fun m' hm' => ?_⟩
  rw [hreader] at hm'
  obtain ⟨j, hj⟩ := List.getElem?_of_mem hm'
  obtain ⟨m, hm, hkept⟩ := forall₂_getElem? hk.flip hj
  obtain ⟨src, hsrc, v, w, hr, hviews⟩ := hs.tracks m (List.mem_of_getElem? hm)
  exact ⟨src, hkept.source ▸ hsrc, v, w, hkept.env.files ▸ hr, hviews⟩

theorem touched {P : ℕ → Prop} {x : ReaderM α} (hx : Keeps (Touches P) x) (r : MultiReader) :
    Touches P r (Prog.exec x r).2 :=
  (hx r).at_end

/-- A call by name touches the journal of that name. -/
theorem touched_expireJournalByName (name : CStr) (r : MultiReader) :
    Touches (fun idx => r.journalMap.lookup name = some idx) r
      (Prog.exec (MultiReader.expireJournalByName name) r).2 := by
  refine Post.at_end ?_
  unfold MultiReader.expireJournalByName
  refine .bind ((Runs.get r).post ?_)
  cases hidx : r.journalMap.lookup name with
  | none => exact (Runs.pure _ r).post (refl_of _ r)
  | some idx => exact touches_expireJournal (P := fun k => some idx = some k) rfl r

theorem touched_seekTimeJournalByName (name : CStr) (nano : Int64) (r : MultiReader) :
    Touches (fun idx => r.journalMap.lookup name = some idx) r
      (Prog.exec (MultiReader.seekTimeJournalByName name nano) r).2 := by
  refine Post.at_end ?_
  unfold MultiReader.seekTimeJournalByName
  refine .bind ((Runs.get r).post ?_)
  cases hidx : r.journalMap.lookup name with
  | none => exact (Runs.pure _ r).post (refl_of _ r)
  | some idx => exact touches_seekTimeJournal (P := fun k => some idx = some k) rfl nano r

/-- **One step keeps the invariant.** -/
theorem Inv.step (hs : Inv ms) (a : Merge.Action) (ht : Merge.step ms a = some mt) : Inv mt := by
  have hbase := hs.base.step a ht
  cases a with
  | journal k a =>
    simp only [Merge.step] at ht
    split at ht
    · rename_i src hsrc
      split at ht
      · rename_i hord
        obtain ⟨state, hstate, rfl⟩ := Option.map_eq_some_iff.mp ht
        obtain ⟨hg, -⟩ := hs.base.sources src (List.mem_of_getElem? hsrc)
        refine ⟨hbase, hs.named, fun m hm => ?_⟩
        obtain ⟨src', hsrc', htracks⟩ := hs.tracks m hm
        by_cases hk : k = m.source
        · subst hk
          obtain rfl := Option.some.inj (hsrc.symm.trans hsrc')
          exact ⟨_, List.getElem?_set_self (List.getElem?_eq_some_iff.mp hsrc).1, htracks.step hg hord hstate⟩
        · exact ⟨src', (List.getElem?_set_ne hk).trans hsrc', htracks⟩
      · cases ht
    · cases ht
  | look idx =>
    simp only [Merge.step] at ht
    split at ht
    · rename_i m hm
      obtain ⟨src, hsrc, rfl⟩ := Option.map_eq_some_iff.mp ht
      have hnames : (ms.reader.setEnv idx m { m.env with files := src.state.party.files }).journals.map
          Member.shortName = ms.reader.journals.map Member.shortName := by
        obtain ⟨hlt, hget⟩ := List.getElem?_eq_some_iff.mp hm
        rw [MultiReader.setEnv, List.map_set]
        refine List.ext_getElem? fun j => ?_
        by_cases hj : idx = j
        · subst hj
          rw [List.getElem?_set_self (by simpa using hlt), List.getElem?_map, hm]
          rfl
        · rw [List.getElem?_set_ne hj]
      refine ⟨hbase, fun name j => ?_, fun m' hm' => ?_⟩
      · rw [← List.getElem?_map, hnames, List.getElem?_map]
        exact hs.named name j
      · rcases List.mem_or_eq_of_mem_set hm' with hm' | rfl
        · exact hs.tracks m' hm'
        · obtain ⟨src', hsrc', v, w, -, hi, -⟩ := hs.tracks m (List.mem_of_getElem? hm)
          obtain rfl := Option.some.inj (hsrc.symm.trans hsrc')
          exact ⟨src, hsrc, w, w, hi.party.rep, hi, .refl w⟩
    · cases ht
  | addJournal k =>
    obtain ⟨src, hsrc, rfl⟩ := Option.map_eq_some_iff.mp ht
    obtain ⟨-, w, hi⟩ := hs.base.sources src (List.mem_of_getElem? hsrc)
    cases hidx : ms.reader.journalMap.lookup src.host.jname with
    | some idx =>
      have hexec : Prog.exec (MultiReader.addJournal src.host k src.state.party.files) ms.reader =
          (.ok idx, ms.reader) := addJournal_runs_known hidx k _
      unfold State.call at hbase ⊢
      rw [hexec] at hbase ⊢
      exact ⟨hbase, hs.named, hs.tracks⟩
    | none =>
      have hexec : Prog.exec (MultiReader.addJournal src.host k src.state.party.files) ms.reader =
          (.ok ms.reader.journals.length,
            ms.reader.added ⟨src.host, k, JournalReader.start src.state.party.files⟩) :=
        addJournal_runs_new hidx k _
      unfold State.call at hbase ⊢
      rw [hexec] at hbase ⊢
      refine ⟨hbase, hs.named.added hidx, fun m hm => ?_⟩
      rcases List.mem_append.mp hm with hm | hm
      · exact hs.tracks m hm
      · obtain rfl := List.mem_singleton.mp hm
        exact ⟨src, hsrc, w, w, hi.party.rep, hi, .refl w⟩
  | expireJournal idx =>
    obtain rfl := Option.some.inj ht
    exact hs.call (expireJournal_moves hs.base.placed idx) (touched (touches_expireJournal rfl) _)
  | expireJournalByName name =>
    obtain rfl := Option.some.inj ht
    exact hs.call (expireJournalByName_moves hs.base.placed name) (touched_expireJournalByName name _)
  | seekTimeJournal idx nano =>
    obtain rfl := Option.some.inj ht
    exact hs.call (seekTimeJournal_moves hs.base.placed idx nano) (touched (touches_seekTimeJournal rfl nano) _)
  | seekTimeJournalByName name nano =>
    obtain rfl := Option.some.inj ht
    exact hs.call (seekTimeJournalByName_moves hs.base.placed name nano) (touched_seekTimeJournalByName name nano _)
  | jumpStart startTime =>
    obtain rfl := Option.some.inj ht
    exact hs.call (jumpStart_moves hs.base.placed startTime) (touched (touches_jumpStart startTime) _)
  | getNextFrame =>
    obtain rfl := Option.some.inj ht
    exact hs.call (getNextFrame_moves hs.base.placed) (touched touches_getNextFrame _)

/-! ### What one step does to the frames ahead -/

/-- The journal is not one that the call touches. -/
theorem Pending.touches {P : ℕ → Prop} {x : ReaderM α} (hp : Pending ms jname published ahead)
    (ht : Touches P ms.reader (Prog.exec x ms.reader).2)
    (hP : ∀ idx, P idx → ms.reader.journals[idx]?.map Member.shortName ≠ some jname) :
    Pending (ms.call x) jname published ahead := by
  obtain ⟨idx, m, src, hm, hname, hrest⟩ := hp.journal
  refine ⟨idx, m, src, ?_, hname, hrest⟩
  refine (ht.others idx fun hidx => hP idx hidx ?_).trans hm
  rw [hm, Option.map_some, hname]

/-- **The writers go on**: what they publish comes in at the back. -/
theorem grow {a : Recovery.Action} (htr : Tracks src m) (hf : Follows src m) (hg : src.host.Grants)
    (hord : Recovery.Orderly src.state a) (hstep : Recovery.step src.host src.state a = some state)
    (he : m.env.journal.expired = false) (hu : Unread { m.env with files := src.state.party.files } ahead) :
    ∃ came ahead', Unread { m.env with files := state.party.files } ahead' ∧
      state.party.published = src.state.party.published ++ came ∧ Flow ahead came [] ahead' := by
  obtain ⟨v, w, hr, hi, hs⟩ := htr
  obtain ⟨w', hm, hi'⟩ := hi.step hg a hord hstep
  obtain ⟨rs, hrs, -⟩ := hr.unread hf.onFrame
  obtain ⟨bs, ahead₁, hu₁, hv, hw⟩ := behind hrs hr hi.party.rep hs hf.onFrame he
  obtain rfl := hu.det hu₁
  obtain ⟨bs', ahead', hu', hv', hw'⟩ :=
    behind hrs hr hi'.party.rep (hs.trans (.of_moved hi.party.rep hi'.party.rep hm)) hf.onFrame he
  obtain rfl := List.append_cancel_right (hv.trans hv'.symm)
  obtain ⟨came, hcame⟩ := hm.grown.flatten_prefix
  refine ⟨came, ahead', hu', ?_, .of_append hw ((List.append_nil bs).symm ▸ hw') hcame.symm⟩
  rw [hi.party.published, hi'.party.published]
  exact hcame.symm

/-- **The reader goes on in its page files**: what it has been given goes out at the front. -/
theorem advance (htr : Tracks src m) (hf : Follows src m) (hk : MemberKept m m')
    (he : m.env.journal.expired = false) (he' : m'.env.journal.expired = false)
    (hrs : Unread m.env (gone ++ rs')) (hrs' : Unread m'.env rs')
    (hu : Unread { m.env with files := src.state.party.files } ahead) :
    ∃ ahead', Unread { m'.env with files := src.state.party.files } ahead' ∧ Flow ahead [] gone ahead' := by
  obtain ⟨v, w, hr, hi, hs⟩ := htr
  have hf' := hf.kept hk
  have hr' : Rep m'.env.files v := hk.env.files ▸ hr
  obtain ⟨bs, ahead₁, hu₁, hv, hw⟩ := behind hrs hr hi.party.rep hs hf.onFrame he
  obtain rfl := hu.det hu₁
  obtain ⟨bs', ahead', hu', hv', hw'⟩ := behind hrs' hr' hi.party.rep hs hf'.onFrame he'
  obtain rfl : bs ++ gone = bs' := by
    refine List.append_cancel_right (?_ : _ ++ rs' = _)
    rw [List.append_assoc, hv, hv']
  exact ⟨ahead', hu', .of_append hw hw' (List.append_nil _).symm⟩

theorem map_mk_inj {c c' : CStr} {xs ys : List Record} (h : xs.map (Prod.mk c) = ys.map (Prod.mk c')) : xs = ys := by
  have hsnd := congrArg (List.map Prod.snd) h
  rwa [List.map_map, List.map_map, show Prod.snd ∘ Prod.mk c = id from rfl,
    show Prod.snd ∘ Prod.mk c' = id from rfl, List.map_id, List.map_id] at hsnd

/-- **What `getNextFrame` takes from the journal of that name.** -/
theorem taken_by_getNextFrame (hs : Inv ms) (hm : ms.reader.journals[idx]? = some m) :
    ∃ r' m' rs', (ms.call MultiReader.getNextFrame).reader = r' ∧ r'.journals[idx]? = some m' ∧ MemberKept m m' ∧
      Unread m.env (framesOf m.shortName (returned ms.reader) ++ rs') ∧ Unread m'.env rs' := by
  obtain ⟨ls, hls⟩ := exists_forall₂ fun m hm => (hs.base.placed m hm).unread
  obtain ⟨res, r', hruns, hk, hans⟩ := getNextFrame_spec (fun m hm => (hs.base.placed m hm).granted) hls
  have hexec : Prog.exec MultiReader.getNextFrame ms.reader = (.ok res, r') := hruns
  obtain ⟨m', hm', hkept⟩ := forall₂_getElem? hk hm
  obtain ⟨l, hl, rs, hrs, rfl⟩ := forall₂_getElem? hls hm
  refine ⟨r', m', ?_⟩
  unfold returned
  rw [hexec]
  cases hans with
  | null _ hu' =>
    obtain ⟨l', hl', rs', hrs', rfl⟩ := forall₂_getElem? hu' hm'
    obtain rfl := map_mk_inj (Option.some.inj (hl.symm.trans hl'))
    exact ⟨rs, congrArg Prod.snd hexec, hm', hkept, hrs, hrs'⟩
  | @frame k mk frame xs hmk hlk _ hu' hframe =>
    dsimp only
    rw [hframe]
    obtain ⟨l', hl', rs', hrs', rfl⟩ := forall₂_getElem? hu' hm'
    by_cases hidx : k = idx
    · subst hidx
      obtain rfl := Option.some.inj (hm.symm.trans hmk)
      rw [List.getElem?_set_self (List.getElem?_eq_some_iff.mp hl).1] at hl'
      have hxs := Option.some.inj hl'
      subst hxs
      obtain ⟨r₀, rs₀, rfl, h₀, hrest⟩ := List.map_eq_cons_iff.mp (Option.some.inj (hl.symm.trans hlk))
      obtain rfl := map_mk_inj hrest
      have hone : framesOf m.shortName [(m.shortName, frame)] = [r₀] := by
        rw [← h₀]
        simp [framesOf]
      refine ⟨rs₀, congrArg Prod.snd hexec, hm', hkept, ?_, hrs'⟩
      rw [hone]
      exact hrs
    · rw [List.getElem?_set_ne hidx] at hl'
      obtain rfl := map_mk_inj (Option.some.inj (hl.symm.trans hl'))
      have hne : mk.shortName ≠ m.shortName := fun h => hidx (hs.named.index_eq hmk hm h)
      have hnone : framesOf m.shortName [(mk.shortName, frame)] = [] := by simp [framesOf, hne]
      refine ⟨rs, congrArg Prod.snd hexec, hm', hkept, ?_, hrs'⟩
      rw [hnone]
      exact hrs

theorem Pending.getNextFrame (hs : Inv ms) (hp : Pending ms jname published ahead) :
    ∃ ahead', Pending (ms.call MultiReader.getNextFrame) jname published ahead' ∧
      Flow ahead [] (framesOf jname (returned ms.reader)) ahead' := by
  obtain ⟨idx, m, src, hm, rfl, hsrc, he, hpub, hu⟩ := hp.journal
  obtain ⟨r', m', rs', hr', hm', hk, hrs, hrs'⟩ := taken_by_getNextFrame hs hm
  have he' : m'.env.journal.expired = false := by
    have hexp : expiry r' = expiry ms.reader := hr' ▸ (sameExpiry_getNextFrame ms.reader).at_end
    have hget := congrArg (·[idx]?) hexp
    simp only [expiry, List.getElem?_map, hm, hm', Option.map_some, Option.some.injEq] at hget
    exact hget.trans he
  obtain ⟨src₁, hsrc₁, hf⟩ := hs.base.members m (List.mem_of_getElem? hm)
  obtain ⟨src₂, hsrc₂, htr⟩ := hs.tracks m (List.mem_of_getElem? hm)
  obtain rfl := Option.some.inj (hsrc.symm.trans hsrc₁)
  obtain rfl := Option.some.inj (hsrc.symm.trans hsrc₂)
  obtain ⟨ahead', hu', hflow⟩ := advance htr hf hk he he' hrs hrs' hu
  refine ⟨ahead', ⟨idx, m', src, hr' ▸ hm', congrArg Host.jname hk.host, ?_, he', hpub, hu'⟩, hflow⟩
  rw [hk.source]
  exact hsrc

/-- **One step**: what is published comes in at the back, what the reader gives goes out at the front. -/
theorem Pending.step (hs : Inv ms) {a : Merge.Action} (ha : ¬ Repositions ms.reader jname a)
    (ht : Merge.step ms a = some mt) (hp : Pending ms jname published ahead) :
    ∃ came ahead', Pending mt jname (published ++ came) ahead' ∧
      Flow ahead came (framesOf jname (visits ms.reader a)) ahead' := by
  have still : Pending mt jname published ahead → ∃ came ahead', Pending mt jname (published ++ came) ahead' ∧
      Flow ahead came [] ahead' := fun h => ⟨[], ahead, (List.append_nil published).symm ▸ h, .refl ahead⟩
  cases a with
  | journal k a =>
    obtain ⟨idx, m, src, hm, hname, hsrc, he, rfl, hu⟩ := hp.journal
    simp only [Merge.step] at ht
    split at ht
    · rename_i src' hsrc'
      split at ht
      · rename_i hord
        obtain ⟨state, hstate, rfl⟩ := Option.map_eq_some_iff.mp ht
        by_cases hk : k = m.source
        · subst hk
          obtain rfl := Option.some.inj (hsrc.symm.trans hsrc')
          obtain ⟨src₁, hsrc₁, hf⟩ := hs.base.members m (List.mem_of_getElem? hm)
          obtain ⟨src₂, hsrc₂, htr⟩ := hs.tracks m (List.mem_of_getElem? hm)
          obtain rfl := Option.some.inj (hsrc.symm.trans hsrc₁)
          obtain rfl := Option.some.inj (hsrc.symm.trans hsrc₂)
          obtain ⟨hg, -⟩ := hs.base.sources src (List.mem_of_getElem? hsrc)
          obtain ⟨came, ahead', hu', hpub, hflow⟩ := grow htr hf hg hord hstate he hu
          exact ⟨came, ahead', ⟨idx, m, _, hm, hname,
            List.getElem?_set_self (List.getElem?_eq_some_iff.mp hsrc).1, he, hpub, hu'⟩, hflow⟩
        · exact still ⟨idx, m, src, hm, hname, (List.getElem?_set_ne hk).trans hsrc, he, rfl, hu⟩
      · cases ht
    · cases ht
  | look k =>
    obtain ⟨idx, m, src, hm, hname, hsrc, he, hpub, hu⟩ := hp.journal
    simp only [Merge.step] at ht
    split at ht
    · rename_i mk hmk
      obtain ⟨src', hsrc', rfl⟩ := Option.map_eq_some_iff.mp ht
      by_cases hk : k = idx
      · subst hk
        obtain rfl := Option.some.inj (hm.symm.trans hmk)
        exact still ⟨k, _, src, setEnv_journal hm, hname, hsrc, he, hpub, hu⟩
      · exact still ⟨idx, m, src, (setEnv_journal_ne hk).trans hm, hname, hsrc, he, hpub, hu⟩
    · cases ht
  | addJournal k =>
    obtain ⟨src', hsrc', rfl⟩ := Option.map_eq_some_iff.mp ht
    obtain ⟨idx, m, src, hm, hrest⟩ := hp.journal
    obtain ⟨a, r', hruns, hor⟩ := addJournal_runs src'.host k src'.state.party.files ms.reader
    have hexec : Prog.exec (MultiReader.addJournal src'.host k src'.state.party.files) ms.reader = (.ok a, r') :=
      hruns
    refine still ⟨idx, m, src, ?_, hrest⟩
    unfold State.call
    rw [hexec]
    dsimp only
    rcases hor with hsame | hadd
    · rw [hsame]
      exact hm
    · rw [hadd, List.getElem?_append_left (List.getElem?_eq_some_iff.mp hm).1]
      exact hm
  | expireJournal idx =>
    obtain rfl := Option.some.inj ht
    exact still (hp.touches (touched (touches_expireJournal (P := fun k => idx = k) rfl) _) fun k hk => hk ▸ ha)
  | expireJournalByName name =>
    obtain rfl := Option.some.inj ht
    refine still (hp.touches (touched_expireJournalByName name _) fun k hk h => ha ?_)
    exact Option.some.inj (((hs.named name k).mp hk).symm.trans h)
  | seekTimeJournal idx nano =>
    obtain rfl := Option.some.inj ht
    exact still (hp.touches (touched (touches_seekTimeJournal (P := fun k => idx = k) rfl nano) _)
      fun k hk => hk ▸ ha)
  | seekTimeJournalByName name nano =>
    obtain rfl := Option.some.inj ht
    refine still (hp.touches (touched_seekTimeJournalByName name nano _) fun k hk h => ha ?_)
    exact Option.some.inj (((hs.named name k).mp hk).symm.trans h)
  | jumpStart startTime => exact absurd trivial ha
  | getNextFrame =>
    obtain rfl := Option.some.inj ht
    obtain ⟨ahead', hp', hflow⟩ := hp.getNextFrame hs
    exact ⟨[], ahead', (List.append_nil published).symm ▸ hp', hflow⟩

/-! ### A whole run -/

/-- **From one state to a later one**, when no call in between puts the journal to another place. -/
theorem Pending.run {hosts : List Host} {s t : State} {as : List Merge.Action} (hs : Inv s.merge)
    (hC : (delivery hosts).EachStep (fun u a => ¬ Repositions u.merge.reader jname a) s as)
    (ht : (delivery hosts).run s as = some t) (hp : Pending s.merge jname published ahead) :
    ∃ came ahead' given, Pending t.merge jname (published ++ came) ahead' ∧ t.given = s.given ++ given ∧
      Flow ahead came (framesOf jname given) ahead' := by
  induction as generalizing s published ahead with
  | nil =>
    obtain rfl := Option.some.inj ht
    exact ⟨[], ahead, [], by rwa [List.append_nil], (List.append_nil _).symm, .refl ahead⟩
  | cons a as ih =>
    obtain ⟨u, hu, hrun⟩ := System.run_cons_some ht
    obtain ⟨mu, hmu, rfl⟩ := Option.map_eq_some_iff.mp hu
    obtain ⟨came, ahead₁, hp₁, hflow₁⟩ := hp.step hs hC.1 hmu
    obtain ⟨came', ahead₂, given, hp₂, hgiven, hflow₂⟩ := ih (hs.step a hmu) (hC.2 _ hu) hrun hp₁
    refine ⟨came ++ came', ahead₂, visits s.merge.reader a ++ given, ?_, ?_, ?_⟩
    · rw [← List.append_assoc]
      exact hp₂
    · rw [hgiven, List.append_assoc]
    · rw [framesOf_append]
      exact hflow₁.trans hflow₂

/-- **Each journal of the reader is a queue**, as long as the reader puts it to no other place.  A reader
that has no page of it yet has all that was ever published ahead. -/
def InOrder (hosts : List Host) (s : State) : Prop :=
  ∀ m ∈ s.merge.reader.journals, m.env.journal.expired = false →
    ∃ published ahead, Pending s.merge m.shortName published ahead ∧ ahead <:+ published ∧
      (m.env.journal.curPage = none → ahead = published) ∧
      ∀ as t, (delivery hosts).run s as = some t →
        (delivery hosts).EachStep (fun u a => ¬ Repositions u.merge.reader m.shortName a) s as →
        ∃ came ahead' given, Pending t.merge m.shortName (published ++ came) ahead' ∧
          t.given = s.given ++ given ∧ Flow ahead came (framesOf m.shortName given) ahead'

/-- Null means that nothing is ahead in the journals whose page files the reader has seen as they are. -/
def Drained (s : State) : Prop :=
  (Prog.exec MultiReader.getNextFrame s.merge.reader).1 = .ok none → ∀ m ∈ s.merge.reader.journals,
    ∀ src, s.merge.sources[m.source]? = some src → m.env.files = src.state.party.files →
      ∀ published ahead, Pending s.merge m.shortName published ahead → ahead = []

theorem Inv.pending (hs : Inv ms) (hm : ms.reader.journals[idx]? = some m) (he : m.env.journal.expired = false) :
    ∃ published ahead, Pending ms m.shortName published ahead ∧ ahead <:+ published ∧
      (m.env.journal.curPage = none → ahead = published) := by
  obtain ⟨src, hsrc, hf⟩ := hs.base.members m (List.mem_of_getElem? hm)
  obtain ⟨src', hsrc', v, w, hr, hi, hv⟩ := hs.tracks m (List.mem_of_getElem? hm)
  obtain rfl := Option.some.inj (hsrc.symm.trans hsrc')
  have hrep : Rep { m.env with files := src.state.party.files }.files w := hi.party.rep
  obtain ⟨ahead, hu, hsuffix⟩ := hrep.unread (hf.onFrame.later hr hi.party.rep hv.later)
  refine ⟨_, ahead, ⟨idx, m, src, hm, rfl, hsrc, he, hi.party.published, hu⟩, hsuffix, fun hcur => ?_⟩
  exact hu.det (hrep.unread_start he hcur)

theorem Inv.inOrder {hosts : List Host} {s : State} (hs : Inv s.merge) : InOrder hosts s := by
  intro m hm he
  obtain ⟨idx, hidx⟩ := List.getElem?_of_mem hm
  obtain ⟨published, ahead, hp, hsuffix, hstart⟩ := hs.pending hidx he
  exact ⟨published, ahead, hp, hsuffix, hstart, fun as t ht hC => hp.run hs hC ht⟩

theorem Inv.drained {s : State} (hs : Inv s.merge) : Drained s := by
  intro hnull m hm src hsrc hfiles published ahead hp
  obtain ⟨idx, m', src', hm', hname, hsrc', -, -, hu⟩ := hp.journal
  obtain ⟨idx', hidx'⟩ := List.getElem?_of_mem hm
  obtain rfl := hs.named.index_eq hm' hidx' hname
  obtain rfl := Option.some.inj (hm'.symm.trans hidx')
  obtain rfl := Option.some.inj (hsrc.symm.trans hsrc')
  have hsame : { m'.env with files := src.state.party.files } = m'.env := by rw [← hfiles]
  rw [hsame] at hu
  obtain ⟨ls, hls⟩ := exists_forall₂ fun m hm => (hs.base.placed m hm).unread
  obtain ⟨res, r', hruns, -, hans⟩ := getNextFrame_spec (fun m hm => (hs.base.placed m hm).granted) hls
  have hexec : Prog.exec MultiReader.getNextFrame s.merge.reader = (.ok res, r') := hruns
  rw [hexec] at hnull
  obtain ⟨l, hl, rs, hrs, rfl⟩ := forall₂_getElem? hls hm'
  obtain rfl := hu.det hrs
  cases hans with
  | null hnil _ => exact List.map_eq_nil_iff.mp (hnil _ (List.mem_of_getElem? hl))
  | frame => cases hnull

/-- **Delivery in order**, in every run of the writers of any journals and of a reader of some of them. -/
theorem in_order_delivery (hosts : List Host) (as : List Merge.Action) :
    (delivery hosts).Always (fun s => InOrder hosts s ∧ Drained s) (delivery hosts).init as := by
  have hstep : ∀ s a t, Inv (State.merge s) → (delivery hosts).step s a = some t → Inv t.merge := by
    intro s a t hs ht
    obtain ⟨mt, hmt, rfl⟩ := Option.map_eq_some_iff.mp ht
    exact hs.step a hmt
  exact System.always_of_step hstep (fun _ hs => ⟨hs.inOrder, hs.drained⟩) as (Inv.init hosts)

end Yijinjing.Delivery
