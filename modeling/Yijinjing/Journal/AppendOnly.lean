import Yijinjing.Journal.Recovery

/-!
# The journal is append-only

In the runs of a journal with either write path, new writers and deaths outside of a page change, no
byte of a WRITTEN frame and no PAGE_END ever changes again (`append_only`).  The frames are those that
the code reaches from the first one on.  A frame ends before the last byte of the page, or right there,
so the zero that `LoadPageBuffer` writes at the last byte meets none.
-/

namespace Yijinjing

open Lib Prog

/-- The addresses of the frames of a page. -/
inductive OnChain (b : Mem) : ℕ → Prop
  | first : OnChain b pageInitPosition
  | next {a : ℕ} : OnChain b a → Frame.getStatus b a = journalFrameStatusWritten →
      OnChain b (Frame.getNextEntry b a)

/-- The byte `x` belongs to a WRITTEN frame, or is a PAGE_END. -/
def Frozen (b : Mem) (x : ℕ) : Prop :=
  ∃ a, OnChain b a ∧ (Frame.getStatus b a = journalFrameStatusWritten ∧ a ≤ x ∧ x < Frame.getNextEntry b a ∨
    Frame.getStatus b a = journalFrameStatusPageEnd ∧ x = a)

/-- No such byte of any page has changed. -/
def AppendOnly (fs fs' : Files) : Prop :=
  ∀ n x, Frozen (fs.buffer n) x → fs'.buffer n x = fs.buffer n x

variable {fs fs' : Files} {v w : View} {b : Mem} {p : PageLog} {st : UInt8}
  {ρ : Option Record} {e : Effect} {n : Int16} {i a x : ℕ}

/-! ### The frames of a represented page -/

theorem OnChain.place (hp : PageRep b p st) (hroomy : Roomy pageInitPosition p.records)
    (hst : st ≠ journalFrameStatusWritten) (ha : OnChain b a) :
    ∃ j ≤ p.records.length, a = pageInitPosition + framesSize (p.records.take j) := by
  induction ha with
  | first => exact ⟨0, Nat.zero_le _, rfl⟩
  | next _ hw ih =>
    obtain ⟨j, hj, rfl⟩ := ih
    rcases Nat.lt_or_ge j p.records.length with hlt | hge
    · exact ⟨j + 1, hlt, (hp.frameAt hroomy hlt).getNextEntry hlt⟩
    · -- the status behind the last frame is not WRITTEN
      obtain rfl : j = p.records.length := by omega
      rw [List.take_length] at hw
      exact absurd (hp.status.symm.trans hw) hst

theorem OnChain.passFrame {p : Page} (h : OnChain b p.frame)
    (hst : Page.getCurStatus b p = journalFrameStatusWritten) : OnChain b (p.passFrame b).frame := by
  rw [Page.passFrame_frame]
  exact h.next hst

/-- A page whose first status is RAW has one address to stand at. -/
theorem OnChain.eq_first (hs : Frame.getStatus b pageInitPosition = journalFrameStatusRaw) (ha : OnChain b a) :
    a = pageInitPosition := by
  induction ha with
  | first => rfl
  | next _ hw ih =>
    rw [ih, hs] at hw
    exact absurd hw (by decide)

theorem not_frozen (hs : Frame.getStatus b pageInitPosition = journalFrameStatusRaw) : ¬ Frozen b x := by
  rintro ⟨a, ha, hor⟩
  rw [ha.eq_first hs, hs] at hor
  rcases hor with ⟨hw, -⟩ | ⟨hw, -⟩ <;> exact absurd hw (by decide)

/-- The frozen bytes of a page of the view. -/
theorem Frozen.written_page (hr : Rep fs v) (hi : i < v.pages.length)
    (hx : Frozen (fs.buffer (pageNo i)) x) : v.Written i x := by
  obtain ⟨b, hb, hp⟩ := hr.page i hi
  have hroomy := hr.ok.roomy _ (List.getElem_mem hi)
  rw [Files.buffer_of_lookup hb] at hx
  obtain ⟨a, ha, hor⟩ := hx
  obtain ⟨j, hj, rfl⟩ := ha.place hp hroomy (v.endStatus_ne_written i)
  rcases Nat.lt_or_ge j v.pages[i].records.length with hlt | hge
  · have hf := hp.frameAt hroomy hlt
    rcases hor with ⟨-, hle, hend⟩ | ⟨hpe, -⟩
    · have hnext := framesSize_take_le v.pages[i].records (j + 1)
      rw [List.take_succ_eq_append_getElem hlt, framesSize_append] at hnext
      simp only [framesSize_cons, framesSize_nil] at hnext
      rw [hf.filled.getNextEntry hf.hasRoom hf.fits] at hend
      refine ⟨hi, by omega, .inl ?_⟩
      unfold PageLog.endPos
      omega
    · exact absurd (hf.written.symm.trans hpe) (by decide)
  · obtain rfl : j = v.pages[i].records.length := by omega
    rw [List.take_length] at hor
    have hstat :
        Frame.getStatus b (pageInitPosition + framesSize v.pages[i].records) = v.endStatus i := hp.status
    rw [hstat] at hor
    rcases hor with ⟨hw, -⟩ | ⟨hpe, rfl⟩
    · exact absurd hw (v.endStatus_ne_written i)
    · refine ⟨hi, by omega, .inr ⟨rfl, ?_⟩⟩
      by_contra hlast
      rw [View.endStatus, if_neg hlast] at hpe
      exact absurd hpe (by decide)

theorem Frozen.written (hr : Rep fs v) (hx : Frozen (fs.buffer n) x) : ∃ i, n = pageNo i ∧ v.Written i x := by
  cases hb : fs.lookup n with
  | none =>
    have hz : fs.buffer n = zeroPage := by
      unfold Files.buffer
      rw [hb]
      rfl
    rw [hz] at hx
    exact absurd hx (not_frozen rfl)
  | some b =>
    obtain ⟨i, hi, rfl⟩ := (hr.files n).mp (by rw [hb]; rfl)
    rcases View.lt_or_next hi with hlt | ⟨ho, rfl⟩
    · exact ⟨i, rfl, hx.written_page hr hlt⟩
    · rw [Files.buffer_of_lookup hb] at hx
      exact absurd hx (not_frozen (hr.next ho b hb).status)

/-! ### What a step leaves alone -/

/-- What is written stays written. -/
theorem View.Written.next (hn : Next ρ fs v e w) (hx : v.Written i x) : w.Written i x := by
  obtain ⟨hi, hpos, hend⟩ := hx
  have hle := hn.grows.length_le
  have hi' : i < (recordRows v.pages).length := by rwa [length_recordRows]
  have hrow := hn.grows.row_prefix hi'
  rw [length_recordRows, length_recordRows] at hle
  have hiw : i < w.pages.length := by omega
  rw [recordRows_getD hi, recordRows_getD hiw] at hrow
  have hgrow : v.pages[i].endPos ≤ w.pages[i].endPos := by
    obtain ⟨rs, hrs⟩ := hrow
    unfold PageLog.endPos
    rw [← hrs, framesSize_append]
    omega
  refine ⟨hiw, hpos, ?_⟩
  rcases hend with hlt | ⟨heq, hlast⟩
  · exact .inl (by omega)
  · have hsame := hn.grows.getD_of_lt (i := i) (by rwa [length_recordRows])
    rw [recordRows_getD hi, recordRows_getD hiw] at hsame
    refine .inr ⟨?_, by omega⟩
    rw [heq]
    unfold PageLog.endPos
    rw [hsame]

namespace Recovery

variable {h : Host} {s t : State}

theorem Moved.written (hm : Moved ρ fs v fs' w) (hx : v.Written i x) :
    fs'.buffer (pageNo i) x = fs.buffer (pageNo i) x ∧ w.Written i x := by
  cases hm with
  | same => exact ⟨rfl, hx⟩
  | store hn => exact ⟨hn.spares i x hx, hx.next hn⟩

/-- Whatever the writers do, and however long. -/
theorem Inv.run_written (hg : h.Grants) {as : List Action} (hs : Inv s v)
    (hord : (recovery h).EachStep Orderly s as) (hrun : (recovery h).run s as = some t)
    (hx : v.Written i x) : t.party.files.buffer (pageNo i) x = s.party.files.buffer (pageNo i) x := by
  induction as generalizing s v with
  | nil =>
    obtain rfl := Option.some.inj hrun
    rfl
  | cons a as ih =>
    obtain ⟨u, hu, hrest⟩ := System.run_cons_some hrun
    obtain ⟨w, hm, hw⟩ := hs.step hg a hord.1 hu
    obtain ⟨hsame, hx'⟩ := hm.written hx
    exact (ih hw (hord.2 u hu) hrest hx').trans hsame

/-- Everything written stays as it is from here on. -/
def KeepsWritten (h : Host) (s : State) : Prop :=
  ∀ as t, (recovery h).EachStep Orderly s as → (recovery h).run s as = some t →
    AppendOnly s.party.files t.party.files

/-- **The journal is append-only at byte level.** -/
theorem append_only (h : Host) (as : List Action)
    (hord : (recovery h.granting).EachStep Orderly (recovery h.granting).init as) :
    (recovery h.granting).Always (KeepsWritten h.granting) (recovery h.granting).init as := by
  have hg := h.grants_granting
  refine System.always_of_eachStep (I := fun s => ∃ v, Inv s v) ?_ ?_ as ⟨_, Inv.empty⟩ hord
  · rintro s a t ⟨v, hs⟩ ha ht
    obtain ⟨w, -, hw⟩ := hs.step hg a ha ht
    exact ⟨w, hw⟩
  · rintro s ⟨v, hs⟩ as t hord hrun n x hx
    obtain ⟨i, rfl, hx'⟩ := hx.written hs.party.rep
    exact hs.run_written hg hord hrun hx'

theorem append_only_torn : ∃ as bs t,
    (recovery (hostWith fun _ => 5).granting).run (recovery (hostWith fun _ => 5).granting).init
      (as ++ .die :: bs) = some t ∧
    t.party.published.length = 65 ∧ getPageNums t.party.files = [1, 2] ∧
    (recovery (hostWith fun _ => 5).granting).Always (KeepsWritten (hostWith fun _ => 5).granting)
      (recovery (hostWith fun _ => 5).granting).init (as ++ .die :: bs) := by
  obtain ⟨as, bs, -, t, -, -, hord, hrun, hlen, hnums, -⟩ := exists_torn (hostWith fun _ => 5).grants_granting
  exact ⟨as, bs, t, hrun, hlen, hnums, append_only (hostWith fun _ => 5) _ hord⟩

end Recovery

end Yijinjing
