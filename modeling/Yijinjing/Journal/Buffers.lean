import Yijinjing.Lib.Transition
import Yijinjing.Journal.Seek

/-!
# The page buffers of a client

A `Journal` holds the buffer of one page, which `getPage` has mapped and which goes back through
`releasePage` before another takes its place.  The runs of this module are of one journal, a reader's or
a writer's, whose page requests are answered in every way: a page, no page, or a throw.

`loadNextPage` and `expire` are balanced whatever the answer is.  `seekTime` releases the page before it
asks for another, and when the request throws, the journal is left with the released buffer
(`balanced_iff`).
-/

namespace Yijinjing

open Lib Prog

namespace Buffers

/-! ### The system -/

inductive Action where
  | seekTime (h : Host) (time : Int64)
  | loadNextPage (h : Host)
  /-- also the frames that are located on the page there is -/
  | locateFrame (h : Host)
  | passFrame
  | expire (h : Host)
  /-- other processes change the page files -/
  | others (fs : Files)

/-- What a call leaves, whether it returns or throws. -/
def after {α : Type} (x : JournalM α) (s : Env) : Env := (x.exec s).2

def step (s : Env) : Action → Option Env
  | .seekTime h time => some (after (Journal.seekTime h time) s)
  | .loadNextPage h => some (after (Journal.loadNextPage h) s)
  | .locateFrame h => some (after (Journal.locateFrame h) s)
  | .passFrame => some (after Journal.passFrame s)
  | .expire h => some (after (Journal.expire h) s)
  | .others fs => some { s with files := fs }

/-- A journal that has just been made, in some directory. -/
def start (isWriting : Bool) (fs : Files) : Env :=
  { JournalReader.start fs with journal := Journal.create isWriting }

/-- A journal of a reader or a writer; the host of a call says how its requests are answered. -/
def buffers (isWriting : Bool) (fs : Files) : System Env Action := ⟨start isWriting fs, step⟩

/-- **The buffers are balanced**: the current page has a buffer that was mapped and not released, and no
buffer was released twice. -/
structure Balanced (s : Env) : Prop where
  held : ∀ p, s.journal.curPage = some p → p.buffer < s.mapped ∧ p.buffer ∉ s.released
  once : s.released.Nodup

/-- The provider throws on the page request of a seek. -/
def SeekThrows (h : Host) (time : Int64) (s : Env) : Prop :=
  ∃ e t, Throws (getPage h s.journal.isWriting (Journal.soughtPageNum s.files time)) s.releaseCur e t

/-- No seek on a journal that has a page is answered with a throw. -/
def Answered (s : Env) : Action → Prop
  | .seekTime h time => s.journal.curPage.isSome → ¬ SeekThrows h time s
  | _ => True

/-! ### What leaves the buffers alone -/

/-- Nothing is released, and the journal is left as it is. -/
structure Untouched (s t : Env) : Prop where
  released : t.released = s.released
  journal : t.journal = s.journal
  mapped : s.mapped ≤ t.mapped

instance : Std.Refl Untouched := ⟨fun _ => ⟨rfl, rfl, Nat.le_refl _⟩⟩

instance : IsTrans Env Untouched := ⟨fun _ _ _ h₁ h₂ =>
  ⟨h₂.released.trans h₁.released, h₂.journal.trans h₁.journal, h₁.mapped.trans h₂.mapped⟩⟩

variable {h : Host} {s t : Env} {isWriting : Bool} {n : Int16}

theorem untouched_emit (es : List Effect) : Keeps Untouched (emit es) :=
  .modify fun _ => ⟨rfl, rfl, Nat.le_refl _⟩

theorem untouched_getNanoTime : Keeps Untouched (getNanoTime h) := fun s =>
  (getNanoTime_runs s).post ⟨rfl, rfl, Nat.le_refl _⟩

theorem untouched_serve : Keeps Untouched (serve h isWriting n) := by
  unfold serve
  refine .get fun s => .bind ((Runs.set s { s with asked := s.asked + 1 }).post ?_)
  cases h.refuse s.asked with
  | some status => exact (Runs.pure _ _).post ⟨rfl, rfl, Nat.le_refl _⟩
  | none =>
    dsimp only
    split
    · exact (Runs.pure _ _).post ⟨rfl, rfl, Nat.le_refl _⟩
    · split
      · exact .bind ((emit_runs [.create n] _).post ((Runs.pure _ _).post ⟨rfl, rfl, Nat.le_refl _⟩))
      · exact (Runs.pure _ _).post ⟨rfl, rfl, Nat.le_refl _⟩

theorem untouched_loadPageBuffer : Keeps Untouched (loadPageBuffer isWriting n) := by
  unfold loadPageBuffer
  cases isWriting with
  | true => exact (untouched_emit _).bind fun _ => .pure _
  | false => exact .get fun s => (Runs.pure _ s).post (refl_of _ s)

theorem untouched_init : Keeps Untouched ( Page.initialize h n) := by
  unfold Page.initialize
  exact (untouched_emit _).bind fun _ => untouched_getNanoTime.bind fun _ => untouched_emit _

theorem untouched_finishPage (p : Page) : Keeps Untouched (p.finishPage h) := by
  unfold Page.finishPage
  exact untouched_getNanoTime.bind fun _ => (untouched_emit _).bind fun _ => untouched_emit _

/-! ### What `getPage` gives -/

/-- Nothing is released, and a page that is given has a new buffer. -/
structure Gives (s : Env) (q : Option Page) (t : Env) : Prop where
  untouched : Untouched s t
  fresh : ∀ p, q = some p → s.mapped ≤ p.buffer ∧ p.buffer < t.mapped

theorem Gives.none (hu : Untouched s t) : Gives s none t := ⟨hu, fun _ hp => (by cases hp)⟩

theorem load_gives (s : Env) : Post (Page.load h isWriting n) s (Gives s) fun _ t => Untouched s t := by
  unfold Page.load
  refine .bind ((untouched_loadPageBuffer s).mono (fun opened t ht => ?_) fun _ _ ht => ht)
  cases opened with
  | false => exact (Runs.pure _ t).post (.none ht)
  | true =>
    refine .bind ((Runs.get t).post (.bind ((Runs.set t { t with mapped := t.mapped + 1 }).post ?_)))
    have hmap : Untouched s { t with mapped := t.mapped + 1 } :=
      ⟨ht.released, ht.journal, Nat.le_succ_of_le ht.mapped⟩
    have given : ∀ u, Untouched { t with mapped := t.mapped + 1 } u →
        Gives s (some (Page.new t.mapped n)) u := fun u hu =>
      ⟨trans_of Untouched hmap hu, fun p hp => Option.some.inj hp ▸ ⟨ht.mapped, hu.mapped⟩⟩
    dsimp only
    split
    · split
      · exact (Runs.pure _ _).post (.none hmap)
      · refine .bind ((untouched_init _).mono (fun _ u hu => ?_) fun _ _ hu => trans_of Untouched hmap hu)
        exact (Runs.pure _ u).post (given u hu)
    · split
      · exact (Throws.throw _ _).post hmap
      · exact (Runs.pure _ _).post (given _ (refl_of _ _))

theorem getPage_gives (s : Env) : Post (getPage h isWriting n) s (Gives s) fun _ t => Untouched s t := by
  unfold getPage
  refine .bind ((untouched_serve s).mono (fun status t ht => ?_) fun _ _ ht => ht)
  split
  · exact (load_gives t).mono
      (fun q u hu => ⟨trans_of Untouched ht hu.untouched, fun p hp =>
        ⟨ht.mapped.trans (hu.fresh p hp).1, (hu.fresh p hp).2⟩⟩)
      fun _ u hu => trans_of Untouched ht hu
  · split
    · exact (Throws.throw _ t).post ht
    · exact (Runs.pure _ t).post (.none ht)

/-! ### The page of the journal -/

/-- All the buffers there are were mapped. -/
structure Known (s : Env) : Prop where
  released_lt : ∀ b ∈ s.released, b < s.mapped
  held_lt : ∀ p, s.journal.curPage = some p → p.buffer < s.mapped

/-- The buffers stay known, and balanced if they were. -/
def Tidy (s t : Env) : Prop := Known s → Known t ∧ (Balanced s → Balanced t)

instance : Std.Refl Tidy := ⟨fun _ hk => ⟨hk, id⟩⟩

instance : IsTrans Env Tidy := ⟨fun _ _ _ h₁ h₂ hk =>
  have ⟨hk₁, hb₁⟩ := h₁ hk
  have ⟨hk₂, hb₂⟩ := h₂ hk₁
  ⟨hk₂, hb₂ ∘ hb₁⟩⟩

/-- The journal may go on in its page. -/
structure SameBuffer (s t : Env) : Prop where
  released : t.released = s.released
  buffer : t.journal.curPage.map Page.buffer = s.journal.curPage.map Page.buffer
  mapped : s.mapped ≤ t.mapped

theorem SameBuffer.tidy (hs : SameBuffer s t) : Tidy s t := by
  have hcur : ∀ p, t.journal.curPage = some p → ∃ p', s.journal.curPage = some p' ∧ p'.buffer = p.buffer := by
    intro p hp
    have hb := hs.buffer
    rw [hp] at hb
    exact Option.map_eq_some_iff.mp hb.symm
  refine fun hk => ⟨⟨fun b hb => ?_, fun p hp => ?_⟩, fun hbal => ⟨fun p hp => ?_, ?_⟩⟩
  · exact Nat.lt_of_lt_of_le (hk.released_lt b (hs.released ▸ hb)) hs.mapped
  · obtain ⟨p', hp', heq⟩ := hcur p hp
    exact heq ▸ Nat.lt_of_lt_of_le (hk.held_lt p' hp') hs.mapped
  · obtain ⟨p', hp', heq⟩ := hcur p hp
    obtain ⟨hlt, hnot⟩ := hbal.held p' hp'
    rw [hs.released, ← heq]
    exact ⟨Nat.lt_of_lt_of_le hlt hs.mapped, hnot⟩
  · rw [hs.released]
    exact hbal.once

theorem Untouched.tidy (hu : Untouched s t) : Tidy s t :=
  SameBuffer.tidy ⟨hu.released, by rw [hu.journal], hu.mapped⟩

theorem tidy_setExpired (s : Env) (expired : Bool) : Tidy s (s.setExpired expired) :=
  SameBuffer.tidy ⟨rfl, rfl, Nat.le_refl _⟩

/-- A page that was given is kept. -/
theorem Gives.keep {q : Option Page} (hg : Gives s q t) (hlt : ∀ b ∈ s.released, b < s.mapped) :
    Known (t.setCurPage q) ∧ (s.released.Nodup → Balanced (t.setCurPage q)) := by
  have hrel : (t.setCurPage q).released = s.released := hg.untouched.released
  refine ⟨⟨fun b hb => ?_, fun p hp => (hg.fresh p hp).2⟩, fun hnd => ⟨fun p hp => ?_, hrel ▸ hnd⟩⟩
  · exact Nat.lt_of_lt_of_le (hlt b (hrel ▸ hb)) hg.untouched.mapped
  · refine ⟨(hg.fresh p hp).2, fun hmem => ?_⟩
    have := hlt _ (hrel ▸ hmem)
    exact absurd (hg.fresh p hp).1 (by omega)

/-- The buffer of the current page is released. -/
theorem releaseCur_released (hk : Known s) : (∀ b ∈ s.releaseCur.released, b < s.releaseCur.mapped) ∧
    (Balanced s → s.releaseCur.released.Nodup) := by
  unfold Env.releaseCur
  cases hcur : s.journal.curPage with
  | none => exact ⟨hk.released_lt, Balanced.once⟩
  | some p =>
    refine ⟨fun b hb => ?_, fun hbal => ?_⟩
    · rcases List.mem_append.mp hb with hb | hb
      · exact hk.released_lt b hb
      · exact List.mem_singleton.mp hb ▸ hk.held_lt p hcur
    · refine List.Nodup.append hbal.once (List.nodup_singleton _) ?_
      exact List.disjoint_singleton.mpr (hbal.held p hcur).2

/-! ### The calls -/

theorem tidy_scan {c : Page → Bool} {b : Mem} {p q : Page}
    (h : whileLoop c (Page.passFrame b) Page.scanFuel p = some q) : q.buffer = p.buffer :=
  whileLoop_invariant (f := Page.passFrame b) (P := fun r : Page => r.buffer = p.buffer) (fun _ hr _ => hr) rfl h

/-- The loops over the frames of a page stay on it. -/
theorem tidy_scanCurPage {f : Mem → Page → Option Page}
    (hf : ∀ b p q, f b p = some q → q.buffer = p.buffer) : Keeps Tidy (scanCurPage f) := by
  unfold scanCurPage
  refine .get fun s => ?_
  split
  · exact (Runs.pure _ s).post (refl_of Tidy s)
  · rename_i p hcur
    split
    · rename_i q hscan
      refine (setCurPage_runs _ s).post (SameBuffer.tidy ⟨rfl, ?_, Nat.le_refl _⟩)
      rw [hcur]
      exact congrArg some (hf _ _ _ hscan)
    · exact (Throws.throw _ s).post (refl_of Tidy s)

theorem tidy_passFrame : Keeps Tidy Journal.passFrame := by
  unfold Journal.passFrame
  refine .get fun s => ?_
  split
  · exact (Throws.throw _ s).post (refl_of Tidy s)
  · rename_i p hcur
    refine (setCurPage_runs _ s).post (SameBuffer.tidy ⟨rfl, ?_, Nat.le_refl _⟩)
    rw [hcur]
    rfl

/-- `loadNextPage` releases the page when it has the answer to its request. -/
theorem tidy_loadNextPage : Keeps Tidy (Journal.loadNextPage h) := by
  unfold Journal.loadNextPage
  refine .get fun s => ?_
  split
  · exact (Runs.pure _ s).post (refl_of Tidy s)
  · split
    · refine .bind ((getPage_gives s).mono (fun q t hg => ?_) fun _ t hu => hu.tidy)
      refine (setCurPage_runs q t).post fun hk => ?_
      exact (hg.keep hk.released_lt).imp_right (· ∘ Balanced.once)
    · rename_i p hcur
      refine .bind ((getPage_gives s).mono (fun q t hg => ?_) fun _ t hu => hu.tidy)
      have release : ∀ u, Untouched t u →
          Post (do releasePage p; setCurPage q : JournalM Unit) u (fun _ v => Tidy s v) fun _ v => Tidy s v := by
        intro u hu
        refine .bind ((releasePage_runs p u).post ((setCurPage_runs q _).post fun hk => ?_))
        obtain ⟨hlt, hnd⟩ := releaseCur_released hk
        have hu' := trans_of Untouched hg.untouched hu
        have hgive : Gives s.releaseCur q { u with released := u.released ++ [p.buffer] } := by
          unfold Env.releaseCur
          rw [hcur]
          refine ⟨⟨?_, hu'.journal, hu'.mapped⟩, fun p' hp' => ?_⟩
          · show u.released ++ [p.buffer] = s.released ++ [p.buffer]
            rw [hu'.released]
          · exact ⟨(hg.fresh p' hp').1, Nat.lt_of_lt_of_le (hg.fresh p' hp').2 hu.mapped⟩
        exact (hgive.keep hlt).imp_right (· ∘ hnd)
      split
      · exact .bind ((untouched_finishPage p t).mono (fun _ u hu => release u hu)
          fun _ u hu => (trans_of Untouched hg.untouched hu).tidy)
      · exact release t (refl_of _ t)

/-- `expire` forgets the page that it has released before it asks for another. -/
theorem tidy_expire : Keeps Tidy (Journal.expire h) := by
  unfold Journal.expire
  refine .get fun s => ?_
  split
  · refine .bind ((Runs.set s (s.setExpired true)).post ?_)
    refine .bind ((releaseCurPage_runs _).post (.bind ((setCurPage_runs none _).post ?_)))
    have hforget : Tidy s ((s.setExpired true).releaseCur.setCurPage none) := by
      refine trans_of Tidy (tidy_setExpired s true) fun hk => ?_
      obtain ⟨hlt, hnd⟩ := releaseCur_released hk
      exact ⟨⟨hlt, fun p hp => (by cases hp)⟩, fun hbal => ⟨fun p hp => (by cases hp), hnd hbal⟩⟩
    refine .bind ((getPage_gives _).mono (fun q t hg => ?_) fun _ t hu => trans_of Tidy hforget hu.tidy)
    exact (Runs.pure _ t).post (trans_of Tidy hforget hg.untouched.tidy)
  · exact (Runs.pure _ s).post (refl_of Tidy s)

theorem buffer_passWrittenFrame {b : Mem} {p q : Page} (h : p.passWrittenFrame b = some q) :
    q.buffer = p.buffer := tidy_scan h

theorem buffer_passToTime {time : Int64} {b : Mem} {p q : Page} (h : p.passToTime b time = some q) :
    q.buffer = p.buffer := tidy_scan h

theorem tidy_locateWritableFrame : Keeps Tidy Journal.locateWritableFrame := by
  unfold Journal.locateWritableFrame
  refine .get fun s => ?_
  split
  · exact (Throws.throw _ s).post (refl_of Tidy s)
  · rename_i p hcur
    dsimp only
    split
    · exact (Throws.throw _ s).post (refl_of Tidy s)
    · rename_i q hscan
      refine .bind ((setCurPage_runs _ s).post ((Runs.pure _ _).post ?_))
      refine SameBuffer.tidy ⟨rfl, ?_, Nat.le_refl _⟩
      rw [hcur]
      exact congrArg some (buffer_passWrittenFrame hscan)

theorem tidy_locateFrameLoop (fuel : ℕ) : Keeps Tidy (Journal.locateFrameLoop h fuel) := by
  induction fuel with
  | zero => exact .throw _
  | succ fuel ih =>
    unfold Journal.locateFrameLoop
    refine tidy_locateWritableFrame.bind fun a => ?_
    cases a with
    | some a => exact .pure _
    | none => exact tidy_loadNextPage.bind fun _ => ih

theorem tidy_turnPage : Keeps Tidy (Journal.turnPage h) := by
  unfold Journal.turnPage
  refine .get fun s => ?_
  split
  · split
    · exact tidy_loadNextPage s
    · exact (Runs.pure _ s).post (refl_of Tidy s)
  · exact tidy_loadNextPage s

theorem tidy_locateFrame : Keeps Tidy (Journal.locateFrame h) := by
  unfold Journal.locateFrame
  refine .get fun s => ?_
  split
  · exact (Runs.pure _ s).post (refl_of Tidy s)
  · split
    · exact (tidy_locateFrameLoop _).bind (fun _ => .pure _) s
    · refine tidy_turnPage.bind (fun _ => .get fun t => ?_) s
      split
      · exact (Runs.pure _ t).post (refl_of Tidy t)
      · exact (Runs.pure _ t).post (refl_of Tidy t)

/-! ### Seeking -/

/-- What `seekTime` does with the page it has asked for. -/
theorem seekPage_exec (h : Host) (time : Int64) (s : Env) : ∃ x : JournalM Unit, Keeps Tidy x ∧
    Prog.exec (Journal.seekPage h time) s = Prog.exec (do
      setCurPage (← getPage h s.journal.isWriting (Journal.soughtPageNum s.files time))
      x) s := by
  unfold Journal.seekPage Journal.soughtPageNum
  rw [(Runs.get s).exec_bind]
  by_cases hlast : time = timeToLast
  · refine ⟨_, tidy_scanCurPage (f := fun b p => p.passWrittenFrame b)
      fun _ _ _ => buffer_passWrittenFrame, ?_⟩
    simp only [if_pos hlast]
  · by_cases hfirst : time = timeFromFirst
    · refine ⟨pure (), .pure _, ?_⟩
      simp only [if_neg hlast, if_pos hfirst, bind_pure_unit]
    · refine ⟨_, tidy_scanCurPage (f := fun b p => p.passToTime b time) fun _ _ _ => buffer_passToTime, ?_⟩
      simp only [if_neg hlast, if_neg hfirst]

theorem after_of_post {α : Type} {x : JournalM α} {P : Env → Prop} (hx : Post x s (fun _ t => P t) fun _ t => P t) :
    P (after x s) := by
  rcases runs_or_throws x s with ⟨a, t, hr⟩ | ⟨e, t, hr⟩
  · have hexec : x.exec s = (.ok a, t) := hr
    unfold after
    rw [hexec]
    exact hx.of_runs hr
  · have hexec : x.exec s = (.error e, t) := hr
    unfold after
    rw [hexec]
    exact hx.of_throws hr

/-- A seek whose request is answered has a page of its own. -/
theorem seekTime_answered {time : Int64} (hk : Known s) (hno : ¬ SeekThrows h time s) :
    Known (after (Journal.seekTime h time) s) ∧
      (Balanced s → Balanced (after (Journal.seekTime h time) s)) := by
  obtain ⟨hfiles, -, hjournal, -⟩ := s.releaseCur_eq
  obtain ⟨x, hx, hexec⟩ := seekPage_exec h time s.releaseCur
  rw [hfiles, hjournal] at hexec
  rcases runs_or_throws (getPage h s.journal.isWriting (Journal.soughtPageNum s.files time)) s.releaseCur with
    ⟨q, t, hget⟩ | ⟨e, t, hget⟩
  · obtain ⟨hlt, hnd⟩ := releaseCur_released hk
    obtain ⟨hknown, hbal⟩ := ((getPage_gives s.releaseCur).of_runs hget).keep hlt
    rw [hget.exec_bind, (setCurPage_runs q t).exec_bind] at hexec
    have hseek : Post (Journal.seekPage h time) s.releaseCur (fun _ u => Tidy (t.setCurPage q) u)
        fun _ u => Tidy (t.setCurPage q) u := .of_exec_eq hexec (hx _)
    have hall : Post (Journal.seekTime h time) s (fun _ u => Tidy (t.setCurPage q) u)
        fun _ u => Tidy (t.setCurPage q) u := by
      unfold Journal.seekTime
      refine .bind ((releaseCurPage_runs s).post (.bind (hseek.mono (fun _ u hu => ?_) fun _ _ hu => hu)))
      exact .bind ((Runs.get u).post (.bind ((Runs.set u _).post ((Runs.pure _ _).post
        (trans_of Tidy hu (tidy_setExpired u _))))))
    obtain ⟨hknown', hbal'⟩ := after_of_post hall hknown
    exact ⟨hknown', fun hb => hbal' (hbal (hnd hb))⟩
  · exact absurd ⟨e, t, hget⟩ hno

/-- A seek whose request is answered with a throw has released the page that the journal still holds. -/
theorem seekTime_thrown {time : Int64} (hk : Known s) (hthrow : SeekThrows h time s) :
    Known (after (Journal.seekTime h time) s) ∧
      (Balanced s → (Balanced (after (Journal.seekTime h time) s) ↔ s.journal.curPage = none)) := by
  obtain ⟨hfiles, -, hjournal, -⟩ := s.releaseCur_eq
  obtain ⟨x, -, hexec⟩ := seekPage_exec h time s.releaseCur
  rw [hfiles, hjournal] at hexec
  obtain ⟨e, t, hget⟩ := hthrow
  have hu : Untouched s.releaseCur t := (getPage_gives s.releaseCur).of_throws hget
  have hseek : Throws (Journal.seekPage h time) s.releaseCur e t := hexec.trans (hget.bind _)
  have hexec : (Journal.seekTime h time).exec s = (.error e, t) := by
    unfold Journal.seekTime
    exact (releaseCurPage_runs s).bind_throws (hseek.bind _)
  have hafter : after (Journal.seekTime h time) s = t := by
    unfold after
    rw [hexec]
  rw [hafter]
  obtain ⟨hlt, hnd⟩ := releaseCur_released hk
  have hcur : t.journal.curPage = s.journal.curPage := by rw [hu.journal, hjournal]
  refine ⟨⟨fun b hb => ?_, fun p hp => ?_⟩, fun hbal => ⟨fun hbal' => ?_, fun hnone => ⟨fun p hp => ?_, ?_⟩⟩⟩
  · exact Nat.lt_of_lt_of_le (hlt b (hu.released ▸ hb)) hu.mapped
  · have hmap : s.mapped ≤ t.mapped := by
      have := hu.mapped
      unfold Env.releaseCur at this
      split at this <;> exact this
    exact Nat.lt_of_lt_of_le (hk.held_lt p (hcur ▸ hp)) hmap
  · -- the page is held and released
    cases hs : s.journal.curPage with
    | none => rfl
    | some p =>
      refine absurd ?_ (hbal'.held p (hcur.trans hs)).2
      rw [hu.released]
      unfold Env.releaseCur
      rw [hs]
      exact List.mem_append_right _ List.mem_cons_self
  · rw [hcur, hnone] at hp
    cases hp
  · rw [hu.released]
    exact hnd hbal

/-! ### Runs -/

theorem Known.start (isWriting : Bool) (fs : Files) : Known (start isWriting fs) :=
  ⟨fun b hb => (by cases hb), fun p hp => (by cases hp)⟩

theorem Balanced.start (isWriting : Bool) (fs : Files) : Balanced (start isWriting fs) :=
  ⟨fun p hp => (by cases hp), List.nodup_nil⟩

/-- One step keeps the buffers balanced exactly if it is no seek that loses its page. -/
theorem step_balanced {a : Action} (hk : Known s) (ht : step s a = some t) :
    Known t ∧ (Balanced s → (Balanced t ↔ Answered s a)) := by
  have call : ∀ {α : Type} {x : JournalM α}, Keeps Tidy x → Known (after x s) ∧
      (Balanced s → (Balanced (after x s) ↔ True)) := fun hx => by
    obtain ⟨hknown, hbal⟩ := after_of_post (hx s) hk
    exact ⟨hknown, fun hb => iff_true_intro (hbal hb)⟩
  cases a with
  | seekTime h time =>
    obtain rfl := Option.some.inj ht
    by_cases hthrow : SeekThrows h time s
    · obtain ⟨hknown, hbal⟩ := seekTime_thrown hk hthrow
      refine ⟨hknown, fun hb => (hbal hb).trans ?_⟩
      show s.journal.curPage = none ↔ (s.journal.curPage.isSome → ¬ SeekThrows h time s)
      rw [← Option.not_isSome_iff_eq_none]
      exact ⟨fun hnone hsome => absurd hsome hnone, fun himp hsome => himp hsome hthrow⟩
    · obtain ⟨hknown, hbal⟩ := seekTime_answered hk hthrow
      exact ⟨hknown, fun hb => ⟨fun _ _ => hthrow, fun _ => hbal hb⟩⟩
  | loadNextPage h => exact Option.some.inj ht ▸ call tidy_loadNextPage
  | locateFrame h => exact Option.some.inj ht ▸ call tidy_locateFrame
  | passFrame => exact Option.some.inj ht ▸ call tidy_passFrame
  | expire h => exact Option.some.inj ht ▸ call tidy_expire
  | others fs =>
    obtain rfl := Option.some.inj ht
    obtain ⟨hknown, hbal⟩ := SameBuffer.tidy (s := s) (t := { s with files := fs }) ⟨rfl, rfl, Nat.le_refl _⟩ hk
    exact ⟨hknown, fun hb => iff_true_intro (hbal hb)⟩

theorem step_isSome (s : Env) (a : Action) : (step s a).isSome := by
  cases a <;> rfl

/-- **The buffers of a client are balanced exactly as long as no seek on a journal that has a page is
answered with a throw.** -/
theorem balanced_iff (isWriting : Bool) (fs : Files) (as : List Action) :
    (buffers isWriting fs).Always Balanced (buffers isWriting fs).init as ↔
      (buffers isWriting fs).EachStep Answered (buffers isWriting fs).init as :=
  System.always_iff_eachStep (M := buffers isWriting fs) (I := Known)
    (fun _ _ _ hk ht => (step_balanced hk ht).1) (fun _ _ _ hk hb ht => (step_balanced hk ht).2 hb) as
    (.start isWriting fs) (.start isWriting fs) (System.run_isSome step_isSome _ as)

/-- A service that finds another writer on every page. -/
def refusing : Host := { hostWith fun _ => 5 with refuse := fun _ => some .moreThanOneWrite }

/-- A writer seeks the end, seeks it again and is refused, and expires: its page is released twice. -/
theorem released_twice : ¬ (buffers true ∅).Always Balanced (buffers true ∅).init
    [.seekTime (hostWith fun _ => 5) timeToLast, .seekTime refusing timeToLast, .expire refusing] := by
  refine System.not_always_of_test (fun s => decide (s.released = [0, 0])) (by decide +kernel) fun t ht hbal => ?_
  have honce := hbal.once
  rw [of_decide_eq_true ht] at honce
  exact absurd honce (by decide)

end Buffers

end Yijinjing
