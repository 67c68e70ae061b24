import Yijinjing.Lib.Publish
import Yijinjing.Journal.Layout

/-!
# What the stores of a writer do to the represented journal

One lemma for each kind of effect: a page file is made (`Rep.create`), something is stored into the
page that is being opened (`Rep.update_next`), into the last page behind its frames
(`Rep.update_last`), the status WRITTEN makes the frame behind the last one part of the page
(`Rep.write`) and the status PAGE_END closes the page and lets the next one in (`Rep.close`).

`Next` is what one effect may do to the view, and `Publishes` a list of effects that does so.
-/

namespace Yijinjing

open Lib

variable {fs : Files} {v w : View} {ps qs : List PageLog} {p p' : PageLog} {b : Mem} {f : Mem → Mem}

/-! ### One effect -/

theorem Rep.lookup_isSome (h : Rep fs v) {i : ℕ} (hi : i < maxPages) :
    (fs.lookup (pageNo i)).isSome ↔ i < v.numFiles := by
  rw [h.files]
  have hle := h.numFiles_le
  constructor
  · rintro ⟨j, hj, hij⟩
    rwa [(pageNo_inj hi (by omega)).mp hij]
  · exact fun hlt => ⟨i, hlt, rfl⟩

/-- A store into one page file. -/
theorem Rep.update {i : ℕ} (h : Rep fs v) (hi : i < v.numFiles) (hn : w.numFiles = v.numFiles)
    (hok : LayoutOk w.pages)
    (hother : ∀ j (hj : j < w.pages.length), j ≠ i → ∃ b, fs.lookup (pageNo j) = some b ∧
      PageRep b w.pages[j] (w.endStatus j))
    (hthis : ∀ b, fs.lookup (pageNo i) = some b → ∀ hi : i < w.pages.length,
      PageRep (f b) w.pages[i] (w.endStatus i))
    (hblank : w.pages = [] → ∀ b, fs.lookup (pageNo 0) = some b → i = 0 ∧ Blank (f b))
    (hnext : w.opening = true → ∀ b, (fs.update (pageNo i) f).lookup (pageNo w.pages.length) = some b →
      Unused b) :
    Rep (fs.update (pageNo i) f) w := by
  have hle := h.numFiles_le
  have hsome := (h.lookup_isSome (by omega)).mpr hi
  obtain ⟨b, hb⟩ := Option.isSome_iff_exists.mp hsome
  refine ⟨hok, hn ▸ hle, fun n => ?_, fun j hj => ?_, fun hnil b' hb' => ?_, hnext⟩
  · rw [hn, ← h.files, Files.lookup_update]
    split
    · rename_i hni
      rw [hni, hb]
      rfl
    · rfl
  · have hjv : j < v.numFiles := by
      have : w.numFiles = w.pages.length + w.opening.toNat := rfl
      omega
    rw [Files.lookup_update]
    by_cases hji : j = i
    · subst hji
      rw [if_pos rfl, hb]
      exact ⟨f b, rfl, hthis b hb hj⟩
    · rw [if_neg fun e => hji ((pageNo_inj (by omega) (by omega)).mp e)]
      exact hother j hj hji
  · obtain ⟨b0, hb0⟩ := Option.isSome_iff_exists.mp
      ((h.lookup_isSome (i := 0) (by omega)).mpr (by omega))
    obtain ⟨rfl, hbl⟩ := hblank hnil b0 hb0
    rw [Files.lookup_update, if_pos rfl, hb0] at hb'
    obtain rfl : f b0 = b' := Option.some.inj hb'
    exact hbl

/-- The other pages of the view when only the page `i` changes. -/
theorem Rep.page_of (h : Rep fs v) {j : ℕ} {q : PageLog} {st : UInt8} (hj : j < v.pages.length)
    (hq : v.pages[j] = q) (hst : v.endStatus j = st) :
    ∃ b, fs.lookup (pageNo j) = some b ∧ PageRep b q st := by
  obtain ⟨b, hb, hp⟩ := h.page j hj
  exact ⟨b, hb, hq ▸ hst ▸ hp⟩

theorem blank_zeroPage : Blank zeroPage where
  raw := rfl
  version := by decide
  status := rfl

theorem startNano_zeroPage : PageHeader.startNano zeroPage = 0 := by decide

/-- The file of the page behind the last one is made. -/
theorem Rep.create (h : Rep fs ⟨ps, false⟩) (hlt : ps.length < maxPages) :
    Rep (Effect.exec fs (.create (pageNo ps.length))) ⟨ps, true⟩ := by
  have hnone : fs.lookup (pageNo ps.length) = none := by
    rw [← Option.not_isSome_iff_eq_none, h.lookup_isSome hlt]
    simp [View.numFiles]
  refine ⟨h.ok, hlt, fun n => ?_, fun i hi => ?_, fun hnil b hb => ?_, fun _ b hb => ?_⟩
  · rw [Files.lookup_create hnone]
    by_cases hn : n = pageNo ps.length
    · rw [if_pos hn]
      exact ⟨fun _ => ⟨ps.length, by simp [View.numFiles], hn⟩, fun _ => rfl⟩
    · rw [if_neg hn, h.files]
      constructor
      · rintro ⟨i, hi, rfl⟩
        exact ⟨i, Nat.lt_succ_of_lt hi, rfl⟩
      · rintro ⟨i, hi, rfl⟩
        refine ⟨i, ?_, rfl⟩
        simp only [View.numFiles, Bool.toNat_true, Bool.toNat_false] at hi ⊢
        by_contra hge
        exact hn (congrArg pageNo (by omega))
  · obtain ⟨b, hb, hp⟩ := h.page i hi
    have hi' : i < ps.length := hi
    refine ⟨b, ?_, hp⟩
    rw [Files.lookup_create hnone, if_neg fun e => ?_]
    · exact hb
    · have := (pageNo_inj (by omega) hlt).mp e
      omega
  · obtain rfl : ps = [] := hnil
    rw [Files.lookup_create hnone, if_pos (by simp)] at hb
    obtain rfl : zeroPage = b := Option.some.inj hb
    exact blank_zeroPage
  · rw [Files.lookup_create hnone, if_pos rfl] at hb
    obtain rfl : zeroPage = b := Option.some.inj hb
    exact blank_zeroPage.unused

/-- A page file after a store into it. -/
theorem Files.of_lookup_update {n : Int16} (hb : (fs.update n f).lookup n = some b) :
    ∃ b', fs.lookup n = some b' ∧ f b' = b := by
  rw [Files.lookup_update, if_pos rfl] at hb
  exact Option.map_eq_some_iff.mp hb

/-- A store into the page that is being opened, behind an open page. -/
theorem Rep.update_next (h : Rep fs ⟨ps, true⟩) (hne : ps ≠ []) (hf : ∀ b, Unused b → Unused (f b)) :
    Rep (fs.update (pageNo ps.length) f) ⟨ps, true⟩ := by
  refine h.update (by simp [View.numFiles]) rfl h.ok (fun j hj _ => h.page j hj)
    (fun _ _ hi => absurd hi (by simp)) (fun hnil => absurd hnil hne) fun _ b hb => ?_
  obtain ⟨b', hb', rfl⟩ := Files.of_lookup_update hb
  exact hf b' (h.next rfl b' hb')

/-- A store into the first page before it is initialized. -/
theorem Rep.update_blank (h : Rep fs ⟨[], true⟩) (hf : ∀ b, Blank b → Blank (f b)) :
    Rep (fs.update (pageNo 0) f) ⟨[], true⟩ := by
  refine h.update (by simp [View.numFiles]) rfl h.ok (fun j hj => absurd hj (by simp))
    (fun _ _ hi => absurd hi (by simp)) (fun _ b hb => ⟨rfl, hf b (h.blank rfl b hb)⟩) fun _ b hb => ?_
  obtain ⟨b', hb', rfl⟩ := Files.of_lookup_update hb
  exact (hf b' (h.blank rfl b' hb')).unused

/-- The store that initializes the first page. -/
theorem Rep.init_first (h : Rep fs ⟨[], true⟩) (hp : p.records = [])
    (hf : ∀ b, fs.lookup (pageNo 0) = some b → PageRep (f b) p journalFrameStatusRaw) :
    Rep (fs.update (pageNo 0) f) ⟨[p], false⟩ := by
  have hok : LayoutOk [p] := ⟨by simp [maxPages], by simp [hp, Roomy], by simp⟩
  refine h.update (w := ⟨[p], false⟩) (by simp [View.numFiles]) rfl hok ?_ ?_ ?_
    fun ho => Bool.noConfusion ho
  · intro j hj hne
    simp only [List.length_singleton] at hj
    omega
  · intro b hb _
    exact hf b hb
  · intro hnil
    simp at hnil

variable {o : Bool}

theorem endStatus_last : (View.mk (ps ++ [p]) o).endStatus ps.length = journalFrameStatusRaw := by
  simp [View.endStatus]

/-- The page before the last one is as it was when the last one changes. -/
theorem Rep.page_init (h : Rep fs ⟨ps ++ [p], o⟩) {j : ℕ} (hj : j < (ps ++ [p']).length)
    (hne : j ≠ ps.length) : ∃ b, fs.lookup (pageNo j) = some b ∧
      PageRep b (ps ++ [p'])[j] ((View.mk (ps ++ [p']) o).endStatus j) := by
  have hj' : j < ps.length := by simp at hj; omega
  refine h.page_of (by simp; omega) ?_ (by simp [View.endStatus])
  simp [List.getElem_append_left hj']

theorem Rep.last (h : Rep fs ⟨ps ++ [p], o⟩) :
    ∃ b, fs.lookup (pageNo ps.length) = some b ∧ PageRep b p journalFrameStatusRaw := by
  refine h.page_of (by simp) (by simp) endStatus_last

/-- A store into the last page. -/
theorem Rep.update_last (h : Rep fs ⟨ps ++ [p], o⟩) (hok : LayoutOk (ps ++ [p']))
    (hf : ∀ b, fs.lookup (pageNo ps.length) = some b → PageRep b p journalFrameStatusRaw →
      PageRep (f b) p' journalFrameStatusRaw) :
    Rep (fs.update (pageNo ps.length) f) ⟨ps ++ [p'], o⟩ := by
  refine h.update (w := ⟨ps ++ [p'], o⟩) (by simp [View.numFiles]; omega) (by simp [View.numFiles])
    hok (fun j hj hne => h.page_init hj hne) ?_ (fun hnil => absurd hnil (by simp)) ?_
  · intro b hb _
    obtain ⟨b0, hb0, hp⟩ := h.last
    obtain rfl : b0 = b := Option.some.inj (hb0.symm.trans hb)
    have e : (ps ++ [p'])[ps.length] = p' := by simp
    simp only [e, endStatus_last]
    exact hf b0 hb hp
  · -- the file behind is another one
    intro ho b hb
    obtain rfl : o = true := ho
    have hle := h.numFiles_le
    have hlen : (View.mk (ps ++ [p']) true).pages.length = (ps ++ [p]).length := by simp
    rw [hlen] at hb
    simp only [View.numFiles, List.length_append, List.length_singleton, Bool.toNat_true] at hle
    have hlen' : (ps ++ [p]).length = ps.length + 1 := by simp
    rw [Files.lookup_update, if_neg fun e => ?_] at hb
    · exact h.next rfl b hb
    · have := (pageNo_inj (by omega) (by omega)).mp e
      omega

/-- The last page is closed, and the page behind it is the new last one. -/
theorem Rep.close (h : Rep fs ⟨ps ++ [p], true⟩) (hroom : ¬ HasRoom p.endPos) (hp' : p'.records = [])
    (hnext : ∃ b, fs.lookup (pageNo (ps ++ [p]).length) = some b ∧
      PageRep b p' journalFrameStatusRaw)
    (hf : ∀ b, PageRep b p journalFrameStatusRaw → PageRep (f b) p journalFrameStatusPageEnd) :
    Rep (fs.update (pageNo ps.length) f) ⟨ps ++ [p] ++ [p'], false⟩ := by
  have hok : LayoutOk (ps ++ [p] ++ [p']) := by
    refine ⟨?_, fun q hq => ?_, fun i hi => ?_⟩
    · have := h.numFiles_le
      simp [View.numFiles] at this ⊢
      omega
    · rcases List.mem_append.mp hq with hq | hq
      · exact h.ok.roomy q hq
      · rw [List.mem_singleton.mp hq, hp']
        trivial
    · rcases Nat.lt_or_ge (i + 1) (ps ++ [p]).length with hlt | hge
      · have := h.ok.full i hlt
        rwa [List.getElem_append_left (by omega)]
      · obtain rfl : i = ps.length := by
          simp only [List.length_append, List.length_singleton] at hi hge
          omega
        simpa using hroom
  have hnum : ps.length < (View.mk (ps ++ [p]) true).numFiles := by
    simp only [View.numFiles, List.length_append, List.length_singleton]
    omega
  refine h.update (w := ⟨ps ++ [p] ++ [p'], false⟩) hnum
    (by simp [View.numFiles]) hok ?_ ?_ (fun hnil => absurd hnil (by simp)) fun ho => Bool.noConfusion ho
  · intro j hj hne
    rcases Nat.lt_or_ge j (ps ++ [p]).length with hlt | hge
    · have hj' : j < ps.length := by simp at hlt; omega
      refine h.page_of hlt ?_ ?_
      · exact (List.getElem_append_left hlt).symm
      · simp [View.endStatus, hj']
        omega
    · obtain rfl : j = (ps ++ [p]).length := by simp at hj hge; simp; omega
      obtain ⟨b, hb, hr⟩ := hnext
      refine ⟨b, hb, ?_⟩
      have e : (ps ++ [p] ++ [p'])[(ps ++ [p]).length] = p' := List.getElem_concat_length rfl _
      simp only [e, endStatus_last]
      exact hr
  · intro b hb _
    obtain ⟨b0, hb0, hr⟩ := h.last
    obtain rfl : b0 = b := Option.some.inj (hb0.symm.trans hb)
    have hlt : ps.length < (ps ++ [p] ++ [p']).length := by simp
    have e : (ps ++ [p] ++ [p'])[ps.length] = p := by simp
    have e' : (View.mk (ps ++ [p] ++ [p']) false).endStatus ps.length = journalFrameStatusPageEnd := by
      simp [View.endStatus]
    simp only [e, e']
    exact hf b0 hr

end Yijinjing
