import Yijinjing.Paged.Mappings

/-!
# The temp page

`initiate_page` for a page that does not exist yet has two ways to make it: from the temp page in the
pool, by `rename`, or from scratch, by `LoadPageBuffer`.  They agree exactly when the `rename` succeeds:
`LoadPageBuffer` makes the folders that are missing, and `rename` does not.
-/

namespace Yijinjing.PageEngine

open Lib

variable {e t : PageEngine} {msg : PageCommMsg} {addr addr' buffer : ℕ} {w : Bool}

/-- The engine with the temp page in the pool. -/
def withTemp (e : PageEngine) (buffer : ℕ) : PageEngine :=
  { e with fileAddrs := e.fileAddrs.insert e.tempPath buffer }

/-- The engine without a temp page in the pool. -/
def withoutTemp (e : PageEngine) : PageEngine := { e with fileAddrs := e.fileAddrs.erase e.tempPath }

/-- Two answers are the same in the status, the counts and the mapped pages of journals. -/
structure SameAnswer (r r' : CommStatus × PageEngine) : Prop where
  status : r.1 = r'.1
  counts : ∀ w, r.2.counts w = r'.2.counts w
  mapped : ∀ path, path ≠ r.2.tempPath →
    ((r.2.fileAddrs.lookup path).isSome ↔ (r'.2.fileAddrs.lookup path).isSome)

/-- A writer asks for a page that has no file and is not mapped. -/
structure NewPage (e : PageEngine) (msg : PageCommMsg) : Prop where
  writer : msg.isWriter = true
  unmapped : e.fileAddrs.lookup msg.path = none
  noFile : e.os.fileExists msg.path = false
  /-- the page asked for is not the temp page -/
  ne_temp : msg.path ≠ e.tempPath

/-! ### The two ways -/

theorem mapPage_withoutTemp (hn : NewPage e msg) (addr : ℕ) :
    e.withoutTemp.mapPage msg addr = .ok (e.withoutTemp.loadPage msg.path true addr) := by
  have hl : e.withoutTemp.fileAddrs.lookup msg.path = none := by
    show (e.fileAddrs.erase e.tempPath).lookup msg.path = none
    rw [AList.lookup_erase_ne hn.ne_temp]
    exact hn.unmapped
  have hf : e.withoutTemp.os.fileExists msg.path = false := hn.noFile
  have ht : e.withoutTemp.fileAddrs.lookup e.withoutTemp.tempPath = none := AList.lookup_erase ..
  unfold mapPage
  rw [hl, hf, hn.writer, ht]
  rfl

theorem mapPage_withTemp (hn : NewPage e msg) (buffer addr : ℕ) : (e.withTemp buffer).mapPage msg addr =
    match e.os.rename e.tempPath msg.path with
    | none => .error .cannotRenameFromTemp
    | some os => .ok ((e.withTemp buffer).takeTemp msg.path buffer os) := by
  have hl : (e.withTemp buffer).fileAddrs.lookup msg.path = none := by
    show (e.fileAddrs.insert e.tempPath buffer).lookup msg.path = none
    rw [AList.lookup_insert_ne hn.ne_temp]
    exact hn.unmapped
  have hf : (e.withTemp buffer).os.fileExists msg.path = false := hn.noFile
  have ht : (e.withTemp buffer).fileAddrs.lookup (e.withTemp buffer).tempPath = some buffer :=
    AList.lookup_insert ..
  unfold mapPage
  rw [hl, hf, hn.writer, ht]
  rfl

/-- The count depends on the counts only. -/
theorem countPage_congr (h : t.counts = e.counts) (msg : PageCommMsg) :
    (t.countPage msg).1 = (e.countPage msg).1 ∧
      ∀ w, (t.countPage msg).2.counts w = (e.countPage msg).2.counts w := by
  unfold countPage
  rw [h]
  cases (e.counts msg.isWriter).lookup msg.key with
  | none =>
    refine ⟨rfl, fun w => ?_⟩
    rw [counts_setCounts, counts_setCounts, h]
  | some n =>
    dsimp only
    split
    · exact ⟨rfl, fun w => by rw [h]⟩
    · refine ⟨rfl, fun w => ?_⟩
      rw [counts_setCounts, counts_setCounts, h]

theorem countPage_ne_cannotRename (e : PageEngine) (msg : PageCommMsg) :
    (e.countPage msg).1 ≠ .cannotRenameFromTemp := by
  rcases e.countPage_status msg with h | h <;> rw [h] <;> simp

/-- **A page from the temp page is answered like a page from scratch exactly when the temp file can be
renamed to it.** -/
theorem temp_page_agrees_iff (e : PageEngine) (msg : PageCommMsg) (hn : NewPage e msg)
    (buffer addr addr' : ℕ) :
    SameAnswer ((e.withTemp buffer).initiatePage msg addr) (e.withoutTemp.initiatePage msg addr') ↔
      e.os.CanRename e.tempPath msg.path := by
  unfold initiatePage
  rw [mapPage_withTemp hn, mapPage_withoutTemp hn]
  by_cases hr : e.os.CanRename e.tempPath msg.path
  · refine iff_of_true ?_ hr
    have hos : ∃ os, e.os.rename e.tempPath msg.path = some os := ⟨_, if_pos hr⟩
    obtain ⟨os, hos⟩ := hos
    rw [hos]
    dsimp only
    have hcounts : ((e.withTemp buffer).takeTemp msg.path buffer os).counts =
        (e.withoutTemp.loadPage msg.path true addr').counts := rfl
    obtain ⟨hst, hc⟩ := countPage_congr hcounts msg
    refine ⟨hst, hc, fun path hne => ?_⟩
    rw [(keeps_countPage _ msg).tempPath] at hne
    rw [(countPage_maps _ msg).1, (countPage_maps _ msg).1, takeTemp_lookup, loadPage_lookup]
    by_cases hp : path = msg.path
    · rw [if_pos hp, if_pos hp]
      simp
    · have hne' : path ≠ e.tempPath := hne
      have hleft : (e.withTemp buffer).fileAddrs.lookup path = e.fileAddrs.lookup path :=
        AList.lookup_insert_ne hne'
      have hright : e.withoutTemp.fileAddrs.lookup path = e.fileAddrs.lookup path :=
        AList.lookup_erase_ne hne'
      have hne'' : path ≠ (e.withTemp buffer).tempPath := hne
      rw [if_neg hp, if_neg hp, if_neg hne'', hleft, hright]
  · refine iff_of_false (fun h => ?_) hr
    have hos : e.os.rename e.tempPath msg.path = none := if_neg hr
    rw [hos] at h
    exact countPage_ne_cannotRename _ msg h.status.symm

/-- A writer asks for page 1 of a journal, in a state of the engine. -/
theorem temp_page_agrees_iff_bare :
    SameAnswer ((Setup.bare.engine.withTemp 3).initiatePage ⟨.requesting, ['d'], ['j'], true, 1, 0⟩ 4)
        (Setup.bare.engine.withoutTemp.initiatePage ⟨.requesting, ['d'], ['j'], true, 1, 0⟩ 4) ↔
      Setup.bare.engine.os.CanRename Setup.bare.engine.tempPath
        (PageCommMsg.path ⟨.requesting, ['d'], ['j'], true, 1, 0⟩) :=
  temp_page_agrees_iff Setup.bare.engine _ ⟨rfl, rfl, rfl, by decide⟩ 3 4 4

/-- The folder of the journal does not exist: the temp page cannot be renamed, and `LoadPageBuffer` would
have made the folder. -/
theorem folder_missing :
    NewPage (Setup.bare.engine.tempPage 3) ⟨.requesting, ['d'], ['j'], true, 1, 0⟩ ∧
      ¬ SameAnswer
        (((Setup.bare.engine.tempPage 3).withTemp 3).initiatePage ⟨.requesting, ['d'], ['j'], true, 1, 0⟩ 4)
        ((Setup.bare.engine.tempPage 3).withoutTemp.initiatePage ⟨.requesting, ['d'], ['j'], true, 1, 0⟩ 4) := by
  refine ⟨⟨rfl, by decide, by decide, by decide⟩, fun h => ?_⟩
  have hs := h.status
  revert hs
  decide +kernel

end Yijinjing.PageEngine
