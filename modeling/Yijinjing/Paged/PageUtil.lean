import Yijinjing.Lib.Text
import Yijinjing.Journal.PageCommStruct

/-!
# The paths of page files

`GenPageFileName` and `GenPageFullPath` of `PageUtil.cpp`.  For journal names without a slash the path
of a page determines its folder, its journal and its number.
-/

namespace Yijinjing

open Lib

/-- `JOURNAL_PREFIX` -/
def journalPrefix : CStr := "yjj".toList

/-- `JOURNAL_SUFFIX` -/
def journalSuffix : CStr := "journal".toList

/-- `PageUtil::GenPageFileName` -/
def genPageFileName (jname : CStr) (pageNum : Int16) : CStr :=
  journalPrefix ++ '.' :: (jname ++ '.' :: (decimal pageNum.toInt ++ '.' :: journalSuffix))

/-- `PageUtil::GenPageFullPath` -/
def genPageFullPath (dir jname : CStr) (pageNum : Int16) : CStr :=
  dir ++ '/' :: genPageFileName jname pageNum

/-- The path of the page file that a key stands for. -/
def PageKey.path (k : PageKey) : CStr := genPageFullPath k.folder k.name k.pageNum

theorem not_mem_decimal {n : ℤ} {c : Char} (hc : c ≠ '-') (hd : c.isDigit = false) : c ∉ decimal n := by
  intro hmem
  rcases mem_decimal hmem with h | h
  · exact hc h
  · rw [hd] at h
    cases h

theorem slash_not_mem_fileName {jname : CStr} {n : Int16} (h : '/' ∉ jname) :
    '/' ∉ genPageFileName jname n := by
  have hd := not_mem_decimal (n := n.toInt) (c := '/') (by decide) (by decide)
  have hpre : '/' ∉ journalPrefix := by decide
  have hsuf : '/' ∉ journalSuffix := by decide
  simp [genPageFileName, hpre, hsuf, h, hd]

theorem genPageFileName_injective {j₁ j₂ : CStr} {n₁ n₂ : Int16}
    (h : genPageFileName j₁ n₁ = genPageFileName j₂ n₂) : j₁ = j₂ ∧ n₁ = n₂ := by
  have hdot : ∀ n : ℤ, '.' ∉ decimal n := fun n => not_mem_decimal (by decide) (by decide)
  have hbody := (List.cons.inj (List.append_cancel_left h)).2
  -- the suffix, and then the number behind the last dot
  have hfront : j₁ ++ '.' :: decimal n₁.toInt = j₂ ++ '.' :: decimal n₂.toInt := by
    refine @List.append_cancel_right _ _ ('.' :: journalSuffix) _ ?_
    simpa using hbody
  obtain ⟨hname, hnum⟩ := append_sep_inj hfront (hdot _) (hdot _)
  exact ⟨hname, Int16.toInt_inj.mp (decimal_injective hnum)⟩

theorem PageKey.suffix_path (k : PageKey) : journalSuffix <:+ k.path :=
  ⟨k.folder ++ '/' :: (journalPrefix ++ '.' :: (k.name ++ '.' :: (decimal k.pageNum.toInt ++ ['.']))), by
    simp only [PageKey.path, genPageFullPath, genPageFileName, List.append_assoc, List.cons_append,
      List.nil_append]⟩

/-- **The path of a page determines the page**, for names without a slash. -/
theorem PageKey.path_injective {k₁ k₂ : PageKey} (h₁ : '/' ∉ k₁.name) (h₂ : '/' ∉ k₂.name)
    (h : k₁.path = k₂.path) : k₁ = k₂ := by
  obtain ⟨hfolder, hfile⟩ := append_sep_inj h (slash_not_mem_fileName h₁) (slash_not_mem_fileName h₂)
  obtain ⟨hname, hnum⟩ := genPageFileName_injective hfile
  cases k₁
  cases k₂
  simp only [PageKey.mk.injEq]
  exact ⟨hfolder, hname, hnum⟩

end Yijinjing
