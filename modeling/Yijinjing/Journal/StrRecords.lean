import Yijinjing.Journal.MergeRuns
import Yijinjing.Journal.Sessions

/-!
# String records

`write_str` of `JournalWriter.cpp` and `getStr` of `Frame.hpp`.  The writer stores a string with its
terminator, and the reader takes all data of a frame for the string: it gets one byte more than was written
(`getStr_writeStr`).
-/

namespace Yijinjing

open Lib Prog

/-- `JournalWriter::write_str`: `length() + 1` bytes of `c_str()`. -/
def JournalWriter.writeStr (h : Host) (str : List UInt8) (msgType : Int16) : JournalM Int64 :=
  writeFrame h (str ++ [0]) msgType 1

/-- `Frame::getStr`: all data of the frame. -/
def Record.getStr (r : Record) : List UInt8 := r.data

namespace Sessions

open Merge MultiReader

/-! ### The frame that was written last -/

/-- A reader of any journals, one of which has the page files `fs` and unread frames. -/
structure Reads (fs : Files) (r : MultiReader) : Prop where
  placed : ∀ m ∈ r.journals, Placed m
  unread : ∃ m ∈ r.journals, m.env.files = fs ∧ ¬ Unread m.env []

/-- `frame` is the last frame of such a journal, and the reader is given it before `getNextFrame` returns
null. -/
def Obtains (fs : Files) (r : MultiReader) (frame : Record) : Prop :=
  ∃ m ∈ r.journals, m.env.files = fs ∧ ∃ before, Unread m.env (before ++ [frame]) ∧
    ∃ fuel out r', Runs (visitUntilNull fuel) r out r' ∧
      ((before ++ [frame]).map (Prod.mk m.shortName)).Sublist out

/-- **Every reader gets the string** from the last frame in the page files. -/
def StrRoundTrip (fs : Files) (str : List UInt8) : Prop :=
  ∀ r, Reads fs r → (∃ frame, Obtains fs r frame) ∧ ∀ frame, Obtains fs r frame → frame.getStr = str

variable {h : Host} {s : State} {v : View} {fs : Files} {r : MultiReader} {frame last : Record} {rs : List Record}
  {str : List UInt8} {a : Abs}

theorem Reads.obtains (hr : Reads fs r) : ∃ frame, Obtains fs r frame := by
  obtain ⟨m, hm, hfiles, hne⟩ := hr.unread
  obtain ⟨ls, hls⟩ := exists_forall₂ fun m hm => (hr.placed m hm).unread
  obtain ⟨out, r', hruns, hinter, -⟩ :=
    visitUntilNull_spec (fun m hm => (hr.placed m hm).granted) hls (Nat.lt_succ_self ls.flatten.length)
  obtain ⟨j, hj⟩ := List.getElem?_of_mem hm
  obtain ⟨l, hl, rs, hu, rfl⟩ := forall₂_getElem? hls hj
  rcases rs.eq_nil_or_concat with rfl | ⟨before, frame, rfl⟩
  · exact absurd hu hne
  · rw [List.concat_eq_append] at hu hl
    exact ⟨frame, m, hm, hfiles, before, hu, _, out, r', hruns, hinter.sublist (List.mem_of_getElem? hl)⟩

/-- What a reader obtains is the last record of the journal. -/
theorem Obtains.eq_last (ho : Obtains fs r frame) (hp : ∀ m ∈ r.journals, Placed m) (hr : Rep fs v)
    (hall : allRecords v.pages = rs ++ [last]) : frame = last := by
  obtain ⟨m, hm, rfl, before, hu, -⟩ := ho
  obtain ⟨rs', hu', hsuffix⟩ := hr.unread (hp m hm).onFrame
  obtain rfl := hu.det hu'
  obtain ⟨front, hfront⟩ := hsuffix
  rw [hall, ← List.append_assoc] at hfront
  exact List.singleton_inj.mp (List.append_inj' hfront rfl).2

/-- A reader that has just been made. -/
theorem exists_reads (hg : h.Grants) (hr : Rep fs v) (hne : allRecords v.pages ≠ []) : ∃ r, Reads fs r := by
  let m : Member := ⟨h, 0, JournalReader.start fs⟩
  have hplaced : Placed m := ⟨⟨hg, rfl⟩, ⟨v, hr⟩, fun _ hp => nomatch hp⟩
  refine ⟨⟨[m], none, ∅⟩, fun m' hm' => ?_, m, List.mem_singleton_self m, rfl, fun hu => ?_⟩
  · obtain rfl := List.mem_singleton.mp hm'
    exact hplaced
  · exact hne (hu.det (hr.unread_start rfl rfl)).symm

/-- Every reader gets the data of the last record. -/
theorem strRoundTrip_iff (hg : h.Grants) (hr : Rep fs v) (hall : allRecords v.pages = rs ++ [last]) :
    StrRoundTrip fs str ↔ last.data = str := by
  constructor
  · intro hrt
    obtain ⟨r, hreads⟩ := exists_reads hg hr (by rw [hall]; simp)
    obtain ⟨⟨frame, ho⟩, hstr⟩ := hrt r hreads
    rw [← hstr frame ho, ho.eq_last hreads.placed hr hall]
    rfl
  · rintro rfl r hreads
    exact ⟨hreads.obtains, fun frame ho => congrArg Record.data (ho.eq_last hreads.placed hr hall)⟩

/-! ### `write_str` -/

theorem writeStr_runs (hg : h.Grants) (hs : Refines s a) (hopen : s.isOpen = true)
    (hshort : Party.Admissible (str ++ [0])) (msgType : Int16) : ∃ nano e v,
      Runs (JournalWriter.writeStr h str msgType) s.env nano e ∧ Rep e.files v ∧
        allRecords v.pages = s.written ++ [⟨str ++ [0], nano, msgType, 1⟩] := by
  obtain ⟨l, hl, hw⟩ := hs.writer hopen
  obtain ⟨al, ad⟩ := a
  obtain rfl : al = some l := hl
  obtain ⟨e, hmoves⟩ := JournalWriter.writeFrame_spec hg hw hs.lt hshort msgType 1
  refine ⟨_, e, _, hmoves.runs, hmoves.2.rep, ?_⟩
  rw [Ledger.allRecords_write, hs.written]
  rfl

/-- **A string record is read with the terminator of the string**, and never as the string that was
written. -/
theorem getStr_writeStr (h : Host) (str : List UInt8) (as : List Action) :
    (sessions h.granting).Always (fun s => s.isOpen = true → s.draft = none → Party.Admissible (str ++ [0]) →
      ∀ msgType, ∃ nano e, Runs (JournalWriter.writeStr h.granting str msgType) s.env nano e ∧
        StrRoundTrip e.files (str ++ [0]) ∧ ¬ StrRoundTrip e.files str) (sessions h.granting).init as := by
  have hg := h.grants_granting
  refine System.always_of_step (I := Reached) (fun s act t hs ht => hs.step hg ht) ?_ as (Reached.init _)
  rintro s ⟨a, hs, -⟩ hopen - hshort msgType
  obtain ⟨nano, e, v, hruns, hrep, hall⟩ := writeStr_runs hg hs hopen hshort msgType
  refine ⟨nano, e, hruns, (strRoundTrip_iff hg hrep hall).mpr rfl, fun hrt => ?_⟩
  have hdata : str ++ [0] = str := (strRoundTrip_iff hg hrep hall).mp hrt
  simp at hdata

/-- The first session. -/
theorem run_create (hg : h.Grants) : ∃ s a, (sessions h).run (sessions h).init [.create] = some s ∧
    s.isOpen = true ∧ s.draft = none ∧ Refines s a := by
  have hone : (Ledger.reopen h [] 0).pages.length < maxPages := Nat.lt_of_le_of_lt (Nat.le_of_eq rfl)
    (by decide : 1 < maxPages)
  obtain ⟨s, hs, hopen, href⟩ := Refines.empty.can_create hg Bool.noConfusion hone
  exact ⟨s, _, (sessions h).run_cons_of_step (a := .create) hs [], hopen, href.draft, href⟩

/-- The empty string is read as one byte. -/
theorem empty_str_not_read : ¬ (sessions (hostWith fun _ => 5).granting).Always (fun s => s.isOpen = true →
    s.draft = none → Party.Admissible ([] ++ [0]) → ∀ msgType nano e,
      Runs (JournalWriter.writeStr (hostWith fun _ => 5).granting [] msgType) s.env nano e →
        StrRoundTrip e.files []) (sessions (hostWith fun _ => 5).granting).init [.create] := by
  have hg := (hostWith fun _ => 5).grants_granting
  obtain ⟨s, a, hrun, hopen, hdraft, hs⟩ := run_create hg
  refine System.not_always_of_run hrun fun hread => ?_
  have hshort : Party.Admissible ([] ++ [0]) := by unfold Party.Admissible; decide
  obtain ⟨nano, e, v, hruns, hrep, hall⟩ := writeStr_runs hg hs hopen hshort 0
  have hdata : ([] ++ [0] : List UInt8) = [] :=
    (strRoundTrip_iff hg hrep hall).mp (hread hopen hdraft hshort 0 nano e hruns)
  cases hdata

end Sessions

end Yijinjing
