import Yijinjing.Journal.Crash

/-!
# A page change of a reader that fails

A reader at the PAGE_END of a page asks for the next one.  If it is given none, `Journal::loadNextPage`
leaves it without a page and not expired, and the next call of `locateFrame` then asks for page 1: the
reader is given frames that it has had before, whatever page it came from.  So a reader goes on behind
the page it stands on if and only if the first request for the next page is granted (`goes_on_iff`).
-/

namespace Yijinjing

open Lib Prog

/-! ### The frames of a journal -/

/-- The page number and the address of every frame, page by page. -/
def frameRows (rows : List (List Record)) : List (List (Int16 × ℕ)) :=
  rows.mapIdx fun i row => (List.range row.length).map fun j =>
    (pageNo i, pageInitPosition + framesSize (row.take j))

abbrev View.frames (v : View) : List (List (Int16 × ℕ)) := frameRows (recordRows v.pages)

section Frames

variable {rows rows' : List (List Record)} {rs : List Record} {v : View} {i j : ℕ}

theorem length_frameRows (rows : List (List Record)) : (frameRows rows).length = rows.length :=
  List.length_mapIdx

theorem frameRows_getD (rows : List (List Record)) (i : ℕ) : (frameRows rows).getD i [] =
    (List.range (rows.getD i []).length).map fun j =>
      (pageNo i, pageInitPosition + framesSize ((rows.getD i []).take j)) := by
  unfold frameRows List.getD
  rw [List.getElem?_mapIdx]
  cases rows[i]? <;> rfl

theorem length_frameRows_getD (rows : List (List Record)) (i : ℕ) :
    ((frameRows rows).getD i []).length = (rows.getD i []).length := by
  rw [frameRows_getD, List.length_map, List.length_range]

theorem frameRows_concat (rows : List (List Record)) (row : List Record) :
    frameRows (rows ++ [row]) = frameRows rows ++ [(List.range row.length).map fun j =>
      (pageNo rows.length, pageInitPosition + framesSize (row.take j))] :=
  List.mapIdx_concat

/-- The frames grow with the records. -/
theorem Grows.frameRows (h : Grows rows rs rows') : ∃ fs, Grows (frameRows rows) fs (frameRows rows') := by
  cases h with
  | same => exact ⟨[], .same _⟩
  | page => exact ⟨[], by rw [frameRows_concat]; exact .page _⟩
  | push ps p x =>
    refine ⟨[(pageNo ps.length, pageInitPosition + framesSize p)], ?_⟩
    have hrow : (List.range (p ++ [x]).length).map (fun j =>
          (pageNo ps.length, pageInitPosition + framesSize ((p ++ [x]).take j))) =
        (List.range p.length).map (fun j => (pageNo ps.length, pageInitPosition + framesSize (p.take j))) ++
          [(pageNo ps.length, pageInitPosition + framesSize p)] := by
      rw [List.length_append, List.length_singleton, List.range_succ, List.map_append]
      refine congrArg₂ (· ++ ·) (List.map_congr_left fun j hj => ?_) ?_
      · rw [List.take_append_of_le_length (Nat.le_of_lt (List.mem_range.mp hj))]
      · rw [List.map_singleton, List.take_append_of_le_length (Nat.le_refl _), List.take_length]
    rw [frameRows_concat, frameRows_concat, hrow]
    exact .push _ _ _

theorem Grown.frameRows (h : Grown rows rows') : Grown (frameRows rows) (frameRows rows') := by
  induction h with
  | refl => exact .refl
  | tail _ hg ih =>
    obtain ⟨rs, hg⟩ := hg
    obtain ⟨fs, hg⟩ := Grows.frameRows hg
    exact ih.tail ⟨fs, hg⟩

theorem View.Place.frames (hp : v.Place i j) : InLog v.frames i j :=
  ⟨by rw [length_frameRows]; exact hp.1, by rw [length_frameRows_getD]; exact hp.2⟩

/-- The frames from page `i` on. -/
theorem mem_left_frames {a : Int16 × ℕ} (ha : a ∈ left v.frames i 0) :
    ∃ k, i ≤ k ∧ k < v.pages.length ∧ a.1 = pageNo k := by
  have hrow : ∀ k, a ∈ v.frames.getD k [] → k < v.pages.length ∧ a.1 = pageNo k := by
    intro k hk
    rw [frameRows_getD] at hk
    obtain ⟨j, hj, rfl⟩ := List.mem_map.mp hk
    refine ⟨?_, rfl⟩
    by_contra hge
    have hnil : (recordRows v.pages).getD k [] = [] := by
      rw [List.getD, List.getElem?_eq_none (by rw [length_recordRows]; omega)]
      rfl
    rw [hnil] at hj
    simp at hj
  unfold left at ha
  rcases List.mem_append.mp ha with ha | ha
  · obtain ⟨hlt, he⟩ := hrow i (List.mem_of_mem_drop ha)
    exact ⟨i, Nat.le_refl i, hlt, he⟩
  · obtain ⟨row, hrow', hmem⟩ := List.mem_flatten.mp ha
    obtain ⟨k, hk, rfl⟩ := List.getElem_of_mem hrow'
    rw [List.getElem_drop] at hmem
    obtain ⟨hlt, he⟩ := hrow (i + 1 + k) (by
      rw [List.getD, List.getElem?_eq_getElem (by rw [List.length_drop] at hk; omega)]
      exact hmem)
    exact ⟨i + 1 + k, by omega, hlt, he⟩

end Frames

namespace Rewind

/-! ### Calls of a reader -/

/-- `locateFrame` and, if it gives a frame, `passFrame`: the page number and the address of the frame. -/
def deliver (h : Host) : JournalM (Option (Int16 × ℕ)) := do
  match ← Journal.locateFrame h with
  | none => return none
  | some a =>
    let s ← get
    match s.journal.curPage with
    | none => throw .nullPage
    | some p =>
      Journal.passFrame
      return some (p.pageNum, a)

/-- One call: the page files as they are then, and the answer to a page request that is not granted. -/
structure Turn where
  files : Files
  answer : Option CommStatus

/-- The host with this answer to every page request. -/
def Turn.host (c : Turn) (h : Host) : Host := { h with refuse := fun _ => c.answer }

/-- The frames that the calls deliver; `none` if one of them throws. -/
def deliverAll (h : Host) : Env → List Turn → Option (List (Int16 × ℕ))
  | _, [] => some []
  | s, c :: cs =>
    match Prog.exec (deliver (c.host h)) { s with files := c.files } with
    | (.ok d, t) => (deliverAll h t cs).map (d.toList ++ ·)
    | (.error _, _) => none

/-- A call whose page requests are granted. -/
def granted (x : Files × View) : Turn := ⟨x.1, none⟩

/-- A request for the page `n` yields no page: the service answers so, or the file is missing or has not
been initialized. -/
def NoPage (c : Turn) (n : Int16) : Prop :=
  match c.answer with
  | some status => status ≠ .allocated ∧ status ≠ .moreThanOneWrite
  | none => ∀ b, c.files.lookup n = some b → PageHeader.status b = journalPageStatusRaw

/-- The page files begin with the pages `ps`, each of them full and closed. -/
structure Closed (fs : Files) (ps : List PageLog) : Prop where
  page : ∀ i (hi : i < ps.length), ∃ b, fs.lookup (pageNo i) = some b ∧
    PageRep b ps[i] journalFrameStatusPageEnd
  roomy : ∀ i (hi : i < ps.length), Roomy pageInitPosition ps[i].records
  full : ∀ i (hi : i < ps.length), ¬ HasRoom ps[i].endPos

/-- The reader stands at the PAGE_END of the last of the pages. -/
structure AtPageEnd (s : Env) (ps : List PageLog) : Prop where
  isWriting : s.journal.isWriting = false
  expired : s.journal.expired = false
  curPage : ∃ qs p m, ps = qs ++ [p] ∧
    s.journal.curPage = some (Page.after m (pageNo qs.length) p.records)

/-- Page files that hold a growing journal with pages behind `ps`. -/
structure Growing (ps : List PageLog) (xs : List (Files × View)) : Prop where
  rep : ∀ x ∈ xs, Rep x.1 x.2
  behind : ∀ x ∈ xs, ps <+: x.2.pages ∧ ps.length < x.2.pages.length
  grows : xs.Pairwise fun x y => Grown (recordRows x.2.pages) (recordRows y.2.pages)

/-- The calls of `cs`, whose requests are not granted, and then those of `xs` deliver the frames behind
the pages `ps` in order, and no others. -/
def GoesOn (h : Host) (s : Env) (ps : List PageLog) (cs : List Turn) (xs : List (Files × View)) : Prop :=
  ∃ ds, deliverAll h s (cs ++ xs.map granted) = some ds ∧
    ∀ x ∈ xs.getLast?, ds <+: left x.2.frames ps.length 0

variable {h : Host} {s t : Env} {v w : View} {ps : List PageLog} {c : Turn} {cs : List Turn}
  {xs : List (Files × View)} {x : Files × View} {i j : ℕ}

theorem deliverAll_cons {d : Option (Int16 × ℕ)}
    (hd : Runs (deliver (c.host h)) { s with files := c.files } d t) (cs : List Turn) :
    deliverAll h s (c :: cs) = (deliverAll h t cs).map (d.toList ++ ·) := by
  have hexec : Prog.exec (deliver (c.host h)) { s with files := c.files } = (.ok d, t) := hd
  rw [deliverAll, hexec]

/-! ### Requests that are granted -/

/-- **One call gives the next frame ahead.** -/
theorem deliver_spec (hg : h.Grants) (hr : Rep s.files v) (hat : ReaderAt s v i j) :
    ∃ t i' j', Runs (deliver h) s (left v.frames i j).head? t ∧ ReaderAt t v i' j' ∧
      left v.frames i' j' = (left v.frames i j).tail := by
  obtain ⟨t, i', j', hloc, hfiles, hat', hturned, hor⟩ := Journal.locateFrame_reader hg hr hat
  obtain ⟨buffer, hcur⟩ := hat'.curPage
  have hsame : left v.frames i' j' = left v.frames i j :=
    hturned.left_eq (by rw [length_frameRows, length_recordRows]) (length_frameRows_getD _)
  by_cases hj : j' < (v.row i').length
  · have hj' : j' < (v.frames.getD i' []).length := by rwa [length_frameRows_getD]
    have hframe : (v.frames.getD i' [])[j'] = (pageNo i', v.addr i' j') := by
      simp only [frameRows_getD, List.getElem_map, List.getElem_range]
      rfl
    have hcons := left_cons hj'
    rw [hsame, hframe] at hcons
    obtain ⟨u, hpass, -, hat''⟩ := Journal.passFrame_reader (hfiles ▸ hr) hat' hj
    rw [if_pos hj] at hloc
    refine ⟨u, i', j' + 1, ?_, hat'', by rw [hcons, List.tail_cons]⟩
    unfold deliver
    refine hloc.bind ((Runs.get t).bind ?_)
    rw [hcur, hcons]
    exact hpass.bind (Runs.pure _ _)
  · obtain ⟨hend, hlast⟩ := hor.resolve_left hj
    have hnil : left v.frames i j = [] :=
      hsame.symm.trans
        (left_end (by rwa [length_frameRows, length_recordRows]) (by rwa [length_frameRows_getD]))
    rw [if_neg hj] at hloc
    refine ⟨t, i', j', ?_, hat', by rw [hsame, hnil, List.tail_nil]⟩
    unfold deliver
    refine hloc.bind ?_
    rw [hnil]
    exact Runs.pure _ _

theorem granted_host (h : Host) (x : Files × View) : ((granted x).host h).Grants := fun _ => rfl

/-- Granted calls go on from where the reader stands. -/
theorem deliverAll_granted {y : Files × View} (hrep : ∀ x ∈ y :: xs, Rep x.1 x.2)
    (hgrows : (y :: xs).Pairwise fun x y => Grown (recordRows x.2.pages) (recordRows y.2.pages))
    (hat : ReaderAt s y.2 i j) :
    ∃ ds, deliverAll h s ((y :: xs).map granted) = some ds ∧
      ∀ x ∈ (y :: xs).getLast?, ds <+: left x.2.frames i j := by
  induction xs generalizing s i j y with
  | nil =>
    obtain ⟨t, i', j', hd, -, -⟩ := deliver_spec (s := { s with files := y.1 }) (granted_host h y)
      (hrep y List.mem_cons_self) ⟨hat.place, hat.isWriting, hat.expired, hat.curPage⟩
    refine ⟨_, deliverAll_cons hd [], fun x hx => ?_⟩
    obtain rfl : y = x := by simpa using hx
    cases left y.2.frames i j <;> simp
  | cons z xs ih =>
    obtain ⟨t, i', j', hd, hat', htail⟩ := deliver_spec (s := { s with files := y.1 }) (granted_host h y)
      (hrep y List.mem_cons_self) ⟨hat.place, hat.isWriting, hat.expired, hat.curPage⟩
    obtain ⟨hy, hrest⟩ := List.pairwise_cons.mp hgrows
    obtain ⟨ds, hds, hpre⟩ := ih (fun x hx => hrep x (List.mem_cons_of_mem y hx)) hrest
      (hat'.grown (hy z List.mem_cons_self))
    refine ⟨_, (deliverAll_cons hd _).trans (by rw [hds]; rfl), fun x hx => ?_⟩
    rw [List.getLast?_cons_cons] at hx
    have hgrown := Grown.frameRows (hy x (List.mem_of_getLast? hx))
    rw [hgrown.left_eq hat.place.frames hat'.place.frames htail]
    exact (List.prefix_append_right_inj _).mpr (hpre x hx)

/-- The reader at the PAGE_END, in a journal with a page behind. -/
theorem AtPageEnd.readerAt (hat : AtPageEnd s ps) : ∃ i j, ∀ w : View, ps <+: w.pages →
    ps.length < w.pages.length → ReaderAt s w i j ∧ left w.frames i j = left w.frames ps.length 0 := by
  obtain ⟨qs, p, m, rfl, hcur⟩ := hat.curPage
  refine ⟨qs.length, p.records.length, fun w hpre hlt => ?_⟩
  obtain ⟨rest, hrest⟩ := hpre
  rw [List.length_append, List.length_singleton] at hlt
  have hi : qs.length < w.pages.length := by omega
  have hpage : w.pages[qs.length] = p := by
    simp [← hrest]
  have hrow : w.row qs.length = p.records := by
    rw [View.row_eq hi, hpage]
  have hplace : w.Place qs.length p.records.length :=
    ⟨by rwa [length_recordRows], Nat.le_of_eq (congrArg List.length hrow.symm)⟩
  refine ⟨⟨hplace, hat.isWriting, hat.expired, m, ?_⟩, ?_⟩
  · rw [hcur]
    unfold View.cursor
    rw [hrow, List.take_length]
  · rw [List.length_append, List.length_singleton]
    refine left_next_page (by rw [length_frameRows, length_recordRows]; exact hlt) ?_
    rw [length_frameRows_getD]
    exact congrArg List.length hrow.symm

/-- **If the first request is granted, the reader goes on.** -/
theorem goesOn_of_nil (hat : AtPageEnd s ps) (hxs : Growing ps xs) : GoesOn h s ps [] xs := by
  cases xs with
  | nil => exact ⟨[], rfl, fun x hx => by cases hx⟩
  | cons y xs =>
    obtain ⟨i, j, hplace⟩ := hat.readerAt
    have hbehind : ∀ x ∈ y :: xs, ReaderAt s x.2 i j ∧ left x.2.frames i j = left x.2.frames ps.length 0 :=
      fun x hx => hplace x.2 (hxs.behind x hx).1 (hxs.behind x hx).2
    obtain ⟨ds, hds, hpre⟩ := deliverAll_granted (h := h) hxs.rep hxs.grows
      (hbehind y List.mem_cons_self).1
    refine ⟨ds, hds, fun x hx => ?_⟩
    rw [← (hbehind x (List.mem_of_getLast? hx)).2]
    exact hpre x hx

/-! ### Requests that are not granted -/

/-- A request that yields no page. -/
theorem NoPage.getPage {n : Int16} (hno : NoPage c n) (hfiles : s.files = c.files) :
    ∃ t, Runs (getPage (c.host h) false n) s none t ∧ t.files = s.files ∧ t.journal = s.journal := by
  unfold NoPage at hno
  cases ha : c.answer with
  | some status =>
    rw [ha] at hno
    exact ⟨_, getPage_runs_none (h := c.host h) ha hno.1 hno.2 false, rfl, rfl⟩
  | none =>
    rw [ha] at hno
    have hg : (c.host h).Grants := fun _ => ha
    cases hb : s.files.lookup n with
    | none => exact ⟨_, getPage_runs_missing hg hb, rfl, rfl⟩
    | some b =>
      have hraw := hno b (hfiles ▸ hb)
      exact ⟨_, getPage_runs (serve_runs_isSome hg false (by rw [hb]; rfl)) (load_runs_reader_raw hb hraw),
        rfl, rfl⟩

/-- A reader without a page that has not expired. -/
structure Lost (s : Env) : Prop where
  isWriting : s.journal.isWriting = false
  expired : s.journal.expired = false
  curPage : s.journal.curPage = none

/-- The call that is given no page delivers nothing. -/
theorem deliver_lost {t : Env} (hturn : Runs (Journal.turnPage h) s ⟨⟩ t) (hw : s.journal.isWriting = false)
    (he : s.journal.expired = false) (hcur : t.journal.curPage = none) : Runs (deliver h) s none t := by
  have hloc : Runs (Journal.locateFrame h) s none t := by
    unfold Journal.locateFrame
    refine (Runs.get s).bind ?_
    simp only [he, hw, Bool.false_eq_true, if_false]
    refine hturn.bind ((Runs.get t).bind ?_)
    rw [hcur]
    exact Runs.pure _ _
  unfold deliver
  exact hloc.bind (Runs.pure _ _)

/-- **A reader that is given no page behind its own has none.** -/
theorem AtPageEnd.deliver (hat : AtPageEnd s ps) (hc : Closed c.files ps) (hfiles : s.files = c.files)
    (hno : NoPage c (pageNo ps.length)) : ∃ t, Runs (deliver (c.host h)) s none t ∧ Lost t := by
  obtain ⟨qs, p, m, rfl, hcur⟩ := hat.curPage
  obtain ⟨b, hb, hp⟩ := hc.page qs.length (by simp)
  have hlast : (qs ++ [p])[qs.length] = p := List.getElem_concat_length rfl _
  rw [hlast] at hp
  have hlen : (qs ++ [p]).length = qs.length + 1 := by simp
  rw [hlen, ← pageNo_succ] at hno
  obtain ⟨t, hget, -, hjournal⟩ := hno.getPage (h := h) hfiles
  let u := { t with released := t.released ++ [m] }.setCurPage none
  have hend : Page.isAtPageEnd (s.files.buffer (pageNo qs.length)) (Page.after m (pageNo qs.length) p.records) =
      true := by
    rw [hfiles, Files.buffer_of_lookup hb]
    exact beq_iff_eq.mpr hp.status
  have hload : Runs (Journal.loadNextPage (c.host h)) s ⟨⟩ u := by
    unfold Journal.loadNextPage
    refine (Runs.get s).bind ?_
    rw [hat.expired, hcur]
    simp only [hat.isWriting, Bool.false_eq_true, if_false]
    exact hget.bind ((releasePage_runs _ _).bind (setCurPage_runs none _))
  have hturn : Runs (Journal.turnPage (c.host h)) s ⟨⟩ u := by
    unfold Journal.turnPage
    refine (Runs.get s).bind ?_
    rw [hcur]
    have hno' : (Page.after m (pageNo qs.length) p.records).pageNum = pageNo qs.length := rfl
    simp only [hno', hend, if_true]
    exact hload
  refine ⟨u, deliver_lost hturn hat.isWriting hat.expired rfl, ?_, ?_, rfl⟩
  · show t.journal.isWriting = false
    rw [hjournal, hat.isWriting]
  · show t.journal.expired = false
    rw [hjournal, hat.expired]

/-- The first page is there, with a frame. -/
def FirstPage (fs : Files) : Prop :=
  ∃ b, fs.lookup (pageNo 0) = some b ∧ PageHeader.status b = journalPageStatusInited ∧
    (PageHeader.frameVersion b = 0 ∨ PageHeader.frameVersion b = frameHeaderVersion) ∧
    Frame.getStatus b pageInitPosition = journalFrameStatusWritten

theorem FirstPage.of_page {fs : Files} {b : Mem} {p : PageLog} {st : UInt8} (hb : fs.lookup (pageNo 0) = some b)
    (hp : PageRep b p st) (hfull : ¬ HasRoom p.endPos) : FirstPage fs := by
  refine ⟨b, hb, hp.inited, hp.version, ?_⟩
  have hchain := hp.chain
  cases hrec : p.records with
  | nil =>
    unfold PageLog.endPos at hfull
    rw [hrec] at hfull
    exact absurd hasRoom_pageInitPosition hfull
  | cons r rs =>
    rw [hrec] at hchain
    exact hchain.1

theorem Closed.firstPage {fs : Files} (hc : Closed fs ps) (hne : ps ≠ []) : FirstPage fs := by
  obtain ⟨b, hb, hp⟩ := hc.page 0 (List.length_pos_iff.mpr hne)
  exact .of_page hb hp (hc.full 0 (List.length_pos_iff.mpr hne))

theorem Growing.firstPage (hxs : Growing ps xs) (hne : ps ≠ []) (hx : x ∈ xs) : FirstPage x.1 := by
  have hr := hxs.rep x hx
  have hlt := (hxs.behind x hx).2
  have hpos := List.length_pos_iff.mpr hne
  obtain ⟨b, hb, hp⟩ := hr.page 0 (by omega)
  exact .of_page hb hp (hr.ok.full 0 (by omega))

theorem Lost.turnPage {q : Option Page} (hl : Lost s) (hget : Runs (getPage h false (pageNo 0)) s q t) :
    Runs (Journal.turnPage h) s ⟨⟩ (t.setCurPage q) := by
  unfold Journal.turnPage
  refine (Runs.get s).bind ?_
  rw [hl.curPage]
  unfold Journal.loadNextPage
  refine (Runs.get s).bind ?_
  rw [hl.expired, hl.curPage, hl.isWriting]
  exact hget.bind (setCurPage_runs q t)

/-- As long as requests are refused, the reader has no page. -/
theorem Lost.refused {status : CommStatus} (hl : Lost s) (hk : h.refuse s.asked = some status)
    (ha : status ≠ .allocated) (hm : status ≠ .moreThanOneWrite) :
    ∃ t, Runs (deliver h) s none t ∧ Lost t :=
  ⟨_, deliver_lost (hl.turnPage (getPage_runs_none hk ha hm false)) hl.isWriting hl.expired rfl, hl.isWriting,
    hl.expired, rfl⟩

/-- **The first page that it is given is page 1.** -/
theorem Lost.rewinds (hl : Lost s) (hg : h.Grants) (hf : FirstPage s.files) :
    ∃ t, Runs (deliver h) s (some (pageNo 0, pageInitPosition)) t := by
  obtain ⟨b, hb, hst, hv, hw⟩ := hf
  have hraw : (PageHeader.status b == journalPageStatusRaw) = false := by
    rw [hst]
    rfl
  obtain ⟨t, hget, hfiles⟩ : ∃ t, Runs (getPage h false (pageNo 0)) s (some (Page.new s.mapped (pageNo 0))) t ∧
      t.files = s.files :=
    ⟨_, getPage_runs (serve_runs_isSome hg false (by rw [hb]; rfl)) (load_runs_reader hb hraw hv), rfl⟩
  have hturn := hl.turnPage hget
  let q := Page.new s.mapped (pageNo 0)
  let u := t.setCurPage (some q)
  have hread : q.locateReadableFrame (u.files.buffer q.pageNum) = some pageInitPosition := by
    have hbuf : u.files.buffer q.pageNum = b := by
      show t.files.buffer (pageNo 0) = b
      rw [hfiles, Files.buffer_of_lookup hb]
    have hstat : Page.getCurStatus b q = journalFrameStatusWritten := hw
    rw [Page.locateReadableFrame, hbuf, hstat]
    rfl
  have hloc : Runs (Journal.locateFrame h) s (some pageInitPosition) u := by
    unfold Journal.locateFrame
    refine (Runs.get s).bind ?_
    simp only [hl.expired, hl.isWriting, Bool.false_eq_true, if_false]
    refine hturn.bind ((Runs.get u).bind ?_)
    rw [← hread]
    exact Runs.pure _ _
  have hpass : Runs Journal.passFrame u ⟨⟩ (u.setCurPage (some (q.passFrame (u.files.buffer q.pageNum)))) := by
    unfold Journal.passFrame
    exact (Runs.get u).bind (setCurPage_runs _ u)
  refine ⟨u.setCurPage (some (q.passFrame (u.files.buffer q.pageNum))), ?_⟩
  unfold deliver
  exact hloc.bind ((Runs.get u).bind (hpass.bind (Runs.pure _ _)))

/-- Whatever calls follow, the first frame that they deliver is the first frame of page 1. -/
theorem Lost.deliverAll (hl : Lost s) (hfirst : ∀ c ∈ cs, FirstPage c.files)
    (hanswer : ∀ c ∈ cs, ∀ status ∈ c.answer, status ≠ .allocated ∧ status ≠ .moreThanOneWrite)
    (hgrant : ∃ c ∈ cs, c.answer = none) {ds : List (Int16 × ℕ)}
    (hds : Rewind.deliverAll h s cs = some ds) : (pageNo 0, pageInitPosition) ∈ ds := by
  induction cs generalizing s ds with
  | nil =>
    obtain ⟨c, hc, -⟩ := hgrant
    cases hc
  | cons c cs ih =>
    have hl' : Lost { s with files := c.files } := ⟨hl.isWriting, hl.expired, hl.curPage⟩
    cases ha : c.answer with
    | none =>
      obtain ⟨t, hd⟩ := hl'.rewinds (h := c.host h) (fun _ => ha) (hfirst c List.mem_cons_self)
      rw [deliverAll_cons hd] at hds
      obtain ⟨ds', -, rfl⟩ := Option.map_eq_some_iff.mp hds
      exact List.mem_append_left _ (by simp)
    | some status =>
      obtain ⟨hne, hm⟩ := hanswer c List.mem_cons_self status ha
      obtain ⟨t, hd, hlt⟩ := Lost.refused (h := c.host h) hl' ha hne hm
      rw [deliverAll_cons hd] at hds
      obtain ⟨ds', hds', rfl⟩ := Option.map_eq_some_iff.mp hds
      refine List.mem_append_right _ (ih hlt (fun c' hc' => hfirst c' (List.mem_cons_of_mem c hc'))
        (fun c' hc' => hanswer c' (List.mem_cons_of_mem c hc')) ?_ hds')
      obtain ⟨c', hc', hnone⟩ := hgrant
      rcases List.mem_cons.mp hc' with rfl | hc'
      · rw [ha] at hnone
        cases hnone
      · exact ⟨c', hc', hnone⟩

theorem AtPageEnd.ne_nil (hat : AtPageEnd s ps) : ps ≠ [] := by
  obtain ⟨qs, p, m, rfl, -⟩ := hat.curPage
  simp

/-- **If a request is not granted, the reader is rewound to page 1.** -/
theorem not_goesOn_of_cons (hat : AtPageEnd s ps) (hcs : ∀ c' ∈ c :: cs, Closed c'.files ps)
    (hno : ∀ c' ∈ c :: cs, NoPage c' (pageNo ps.length)) (hxs : Growing ps xs) (hne : xs ≠ []) :
    ¬ GoesOn h s ps (c :: cs) xs := by
  rintro ⟨ds, hds, hpre⟩
  obtain ⟨t, hd, hlost⟩ := AtPageEnd.deliver (h := h) (s := { s with files := c.files })
    ⟨hat.isWriting, hat.expired, hat.curPage⟩ (hcs c List.mem_cons_self) rfl (hno c List.mem_cons_self)
  rw [List.cons_append, deliverAll_cons hd] at hds
  obtain ⟨ds', hds', rfl⟩ := Option.map_eq_some_iff.mp hds
  obtain ⟨x, hx⟩ := List.exists_mem_of_ne_nil xs hne
  have hmem : (pageNo 0, pageInitPosition) ∈ ds' := by
    refine hlost.deliverAll ?_ ?_ ⟨granted x, List.mem_append_right _ (List.mem_map_of_mem hx), rfl⟩ hds'
    · intro c' hc'
      rcases List.mem_append.mp hc' with hc' | hc'
      · exact (hcs c' (List.mem_cons_of_mem c hc')).firstPage hat.ne_nil
      · obtain ⟨y, hy, rfl⟩ := List.mem_map.mp hc'
        exact hxs.firstPage hat.ne_nil hy
    · intro c' hc' status hstatus
      rcases List.mem_append.mp hc' with hc' | hc'
      · have hno' := hno c' (List.mem_cons_of_mem c hc')
        rw [NoPage, Option.mem_def.mp hstatus] at hno'
        exact hno'
      · obtain ⟨y, -, rfl⟩ := List.mem_map.mp hc'
        cases hstatus
  -- but page 1 is not behind the reader's page
  obtain ⟨y, hy⟩ : ∃ y, y ∈ xs.getLast? := ⟨_, List.getLast?_eq_getLast_of_ne_nil hne⟩
  obtain ⟨k, hk, hlt, he⟩ := mem_left_frames ((hpre y hy).subset (List.mem_append_right _ hmem))
  have hle := (hxs.rep y (List.mem_of_getLast? hy)).ok.length_le
  have hpos := List.length_pos_iff.mpr hat.ne_nil
  have h0 := (pageNo_inj (by omega) (by omega)).mp he
  omega

/-- **A reader goes on behind its page** if and only if the first request for the next page is granted. -/
theorem goes_on_iff (h : Host) (hat : AtPageEnd s ps) (hcs : ∀ c ∈ cs, Closed c.files ps)
    (hno : ∀ c ∈ cs, NoPage c (pageNo ps.length)) (hxs : Growing ps xs) (hne : xs ≠ []) :
    GoesOn h s ps cs xs ↔ cs = [] := by
  constructor
  · intro hgoes
    cases cs with
    | nil => rfl
    | cons c cs => exact absurd hgoes (not_goesOn_of_cons hat hcs hno hxs hne)
  · rintro rfl
    exact goesOn_of_nil hat hxs

/-! ### A reader that is rewound -/

theorem Closed.of_rep {fs : Files} (hr : Rep fs v) (hpre : ps <+: v.pages) (hlt : ps.length < v.pages.length) :
    Closed fs ps := by
  obtain ⟨rest, hrest⟩ := hpre
  have hpage : ∀ i (hi : i < ps.length), v.pages[i] = ps[i] := fun i hi => by
    simp [← hrest, List.getElem_append_left hi]
  refine ⟨fun i hi => ?_, fun i hi => ?_, fun i hi => ?_⟩
  · obtain ⟨b, hb, hp⟩ := hr.page i (by omega)
    have hst : v.endStatus i = journalFrameStatusPageEnd := if_pos (by omega)
    rw [hpage i hi, hst] at hp
    exact ⟨b, hb, hp⟩
  · rw [← hpage i hi]
    exact hr.ok.roomy _ (List.getElem_mem _)
  · rw [← hpage i hi]
    exact hr.ok.full i (by omega)

/-- A reader at the end of the first of two pages. -/
theorem exists_atPageEnd : ∃ s ps fs v, AtPageEnd s ps ∧ Closed fs ps ∧ Growing ps [(fs, v)] := by
  have hg := (hostWith fun _ => 5).grants_granting
  obtain ⟨p, -, hp⟩ := Crash.run_filling hg (Nat.le_refl 63)
  have hone : (Ledger.filling (hostWith fun _ => 5).granting 63).pages.length < maxPages := by
    show 1 < maxPages
    decide
  have hfit : Party.Admissible Ledger.greatest := Nat.le_of_eq Ledger.size_greatest
  obtain ⟨t, ρ, -, -, -, hw⟩ := hp.can_write hg hone hfit 0 0 (by
    rw [Ledger.filling_full]
    show 2 < maxPages
    decide)
  rw [Ledger.filling_full] at hw
  obtain ⟨p₀, p₁, hr⟩ : ∃ p₀ p₁, Settled t.files [p₀, p₁] := ⟨_, _, hw.rep⟩
  have hpre : [p₀] <+: (View.mk [p₀, p₁] false).pages := ⟨[p₁], rfl⟩
  let journal : Journal :=
    { isWriting := false, expired := false, curPage := some (Page.after 0 (pageNo 0) p₀.records) }
  refine ⟨{ JournalReader.start t.files with journal := journal }, [p₀], t.files, ⟨[p₀, p₁], false⟩,
    ⟨rfl, rfl, [], p₀, 0, rfl, rfl⟩, .of_rep hr hpre (by simp), fun x hx => ?_, fun x hx => ?_, by simp⟩
  · obtain rfl := List.mem_singleton.mp hx
    exact hr
  · obtain rfl := List.mem_singleton.mp hx
    exact ⟨hpre, by simp⟩

/-- **A reader is rewound**: one request is answered that the page does not exist. -/
theorem reader_rewound : ∃ s ps fs v, AtPageEnd s ps ∧ Closed fs ps ∧ Growing ps [(fs, v)] ∧
    ¬ GoesOn (hostWith fun _ => 5) s ps [⟨fs, some .nonExist⟩] [(fs, v)] := by
  obtain ⟨s, ps, fs, v, hat, hc, hxs⟩ := exists_atPageEnd
  refine ⟨s, ps, fs, v, hat, hc, hxs, ?_⟩
  have hno : NoPage ⟨fs, some .nonExist⟩ (pageNo ps.length) := ⟨by decide, by decide⟩
  exact not_goesOn_of_cons hat (fun c' hc' => List.mem_singleton.mp hc' ▸ hc)
    (fun c' hc' => List.mem_singleton.mp hc' ▸ hno) hxs (List.cons_ne_nil _ _)

theorem goes_on_iff_refused : ∃ s ps fs v, AtPageEnd s ps ∧
    (GoesOn (hostWith fun _ => 5) s ps [⟨fs, some .nonExist⟩] [(fs, v)] ↔
      [Turn.mk fs (some .nonExist)] = []) := by
  obtain ⟨s, ps, fs, v, hat, hc, hxs⟩ := exists_atPageEnd
  refine ⟨s, ps, fs, v, hat, ?_⟩
  have hno : NoPage ⟨fs, some .nonExist⟩ (pageNo ps.length) := ⟨by decide, by decide⟩
  exact goes_on_iff (hostWith fun _ => 5) hat (fun c hc' => List.mem_singleton.mp hc' ▸ hc)
    (fun c hc' => List.mem_singleton.mp hc' ▸ hno) hxs (List.cons_ne_nil _ _)

end Rewind

end Yijinjing
