import Yijinjing.Lib.Pattern
import Yijinjing.Paged.PageUtil
import Yijinjing.Journal.TimeLookup

/-!
# The directory functions of `PageUtil.cpp`, on file names

`GetPageNums` and `RemoveJournal` match the names in a directory against a regular expression that the
journal name is spliced into as it is.  `pattern_spec` says what that expression matches: a name in which
every dot of the journal name may be any character.

For names of letters, digits and underscores the listing is exact (`listing_exact`), whatever else is in
the directory; with dots in a name it takes in, and `RemoveJournal` removes, the pages of every journal
whose name differs from it in the place of a dot only (`only_own_iff`).

`GetPageNumWithTime` lists the directory too, and falls back on page 1 whether it is there or not
(`looks_up_iff`).
-/

namespace Yijinjing

open Lib

/-! ### The functions -/

/-- `PageUtil::GetPageFileNamePattern` -/
def getPageFileNamePattern (jname : CStr) : CStr :=
  journalPrefix ++ "\\.".toList ++ jname ++ "\\.[0-9]+\\.".toList ++ journalSuffix

/-- `PageUtil::ExtractPageNum`; `none` stands for the exception of `substr`. -/
def extractPageNum (filename jname : CStr) : Option Int16 :=
  (substr filename (journalPrefix.length + jname.length + 2) (filename.length - journalSuffix.length)).map
    fun numStr => Int16.ofInt (atoi numStr)

/-- A file name matches; `none` stands for a journal name that makes another expression than the ones
modelled. -/
def pageFiles (dir : List CStr) (jname : CStr) : Option (List CStr) :=
  (Pattern.parse (getPageFileNamePattern jname)).map fun pattern => dir.filter (Pattern.isMatch pattern)

/-- `PageUtil::GetPageNums`, on the file names of the directory in the order of the iterator. -/
def listPageNums (dir : List CStr) (jname : CStr) : Option (List Int16) := do
  let nums ← (← pageFiles dir jname).mapM (extractPageNum · jname)
  return nums.mergeSort fun m n => decide (m ≤ n)

/-- `PageUtil::GetPageNumWithTime`, with the headers of the page files. -/
def listPageNumWithTime (dir : List CStr) (jname : CStr) (fs : Files) (time : Int64) : Option Int16 :=
  (listPageNums dir jname).map fun pageNums => pageNumWithTime fs time pageNums.reverse

/-- `PageUtil::RemoveJournal`, which leaves the other files. -/
def removeJournal (dir : List CStr) (jname : CStr) : Option (List CStr) :=
  (pageFiles dir jname).map fun files => dir.filter fun f => !files.contains f

/-! ### What the pattern matches -/

/-- A character of a journal name: a letter, a digit, an underscore or a dot. -/
def IsNameChar (c : Char) : Prop := c.isAlphanum = true ∨ c = '_' ∨ c = '.'

/-- The decimal digits, as the range of the expression. -/
def isDecimalDigit (c : Char) : Bool := decide ('0' ≤ c) && decide (c ≤ '9')

/-- The expression that the pattern of a journal name is. -/
def namePattern (jname : CStr) : Pattern Char :=
  Pattern.classes journalPrefix ++ [Piece.once (· == '.')] ++ Pattern.classes jname ++
    [Piece.once (· == '.')] ++ [⟨isDecimalDigit, true⟩] ++ [Piece.once (· == '.')] ++
      Pattern.classes journalSuffix

theorem IsNameChar.literal {c : Char} (hc : IsNameChar c) : Pattern.isLiteral c ∨ c = '.' := by
  rcases hc with hc | rfl | rfl
  · left
    have hne : ∀ d : Char, d.isAlphanum = false → ¬ c = d := by
      rintro d hd rfl
      exact Bool.noConfusion (hc.symm.trans hd)
    simp (disch := decide) [Pattern.isLiteral, hne]
  · exact .inl (by decide)
  · exact .inr rfl

/-- Every character of the name stands for itself in the pattern, or is a dot. -/
def IsLiteralName (jname : CStr) : Prop := ∀ c ∈ jname, Pattern.isLiteral c ∨ c = '.'

theorem IsLiteralName.of_nameChar {jname : CStr} (hname : ∀ c ∈ jname, IsNameChar c) : IsLiteralName jname :=
  fun c hc => (hname c hc).literal

theorem parse_namePattern {jname : CStr} (hname : IsLiteralName jname) :
    Pattern.parse (getPageFileNamePattern jname) = some (namePattern jname) := by
  -- the pattern, token by token
  have hpattern : getPageFileNamePattern jname = ['y', 'j', 'j'] ++ '\\' :: '.' :: (jname ++
      '\\' :: '.' :: '[' :: '0' :: '-' :: '9' :: ']' :: '+' :: '\\' :: '.' :: (journalSuffix ++ [])) := by
    simp [getPageFileNamePattern, journalPrefix]
  have hpre : ∀ c ∈ ['y', 'j', 'j'], Pattern.isLiteral c ∨ c = '.' := fun c hc =>
    IsNameChar.literal (.inl (List.all_eq_true.mp (show ['y', 'j', 'j'].all Char.isAlphanum = true from rfl) c hc))
  have hsuf : ∀ c ∈ journalSuffix, Pattern.isLiteral c ∨ c = '.' := fun c hc =>
    IsNameChar.literal (.inl (List.all_eq_true.mp (show journalSuffix.all Char.isAlphanum = true from rfl) c hc))
  have htokens := congrArg Pattern.tokens hpattern
  rw [Pattern.tokens_append hpre, Pattern.tokens_escape (by decide), Pattern.tokens_append hname,
    Pattern.tokens_escape (by decide), Pattern.tokens_range (by decide) (by decide), Pattern.tokens_plus,
    Pattern.tokens_escape (by decide), Pattern.tokens_append hsuf] at htokens
  simp only [Pattern.tokens, Option.map_some] at htokens
  let front := journalPrefix.map Pattern.charClass ++ (· == '.') ::
    (jname.map Pattern.charClass ++ [(· == '.')])
  let back := (· == '.') :: journalSuffix.map Pattern.charClass
  have hsplit : Pattern.tokens (getPageFileNamePattern jname) =
      some (front.map .cls ++ .cls isDecimalDigit :: .plus :: back.map .cls) := by
    rw [htokens]
    simp [front, back, journalPrefix, Function.comp_def]
    rfl
  unfold Pattern.parse
  rw [hsplit, Option.bind_some, Pattern.pieces_append, Pattern.pieces_many, Pattern.pieces_map]
  simp [front, back, namePattern, Pattern.classes]

/-- **What the pattern of a journal name matches**: a name in which every dot may be any character. -/
theorem pattern_spec {jname f : CStr} : f ∈ Pattern.lang (namePattern jname) ↔
    ∃ w ds, Pattern.Covers jname w ∧ ds ≠ [] ∧ (∀ c ∈ ds, isDecimalDigit c = true) ∧
      f = journalPrefix ++ '.' :: (w ++ '.' :: (ds ++ '.' :: journalSuffix)) := by
  unfold namePattern
  simp only [Pattern.lang_append, Language.mem_mul, Pattern.mem_lang_classes, Pattern.mem_lang_letter,
    Pattern.mem_lang_many]
  have hpre : '.' ∉ journalPrefix := by decide
  have hsuf : '.' ∉ journalSuffix := by decide
  constructor
  · rintro ⟨_, ⟨_, ⟨_, ⟨_, ⟨_, ⟨u, hu, _, rfl, rfl⟩, w, hw, rfl⟩, _, rfl, rfl⟩, ds, hds, rfl⟩, _, rfl, rfl⟩,
      v, hv, rfl⟩
    obtain rfl := (Pattern.covers_iff_eq hpre).mp hu
    obtain rfl := (Pattern.covers_iff_eq hsuf).mp hv
    exact ⟨w, ds, hw, hds.1, hds.2, by simp⟩
  · rintro ⟨w, ds, hw, hne, hall, rfl⟩
    exact ⟨_, ⟨_, ⟨_, ⟨_, ⟨_, ⟨_, .refl _, _, rfl, rfl⟩, w, hw, rfl⟩, _, rfl, rfl⟩, ds, ⟨hne, hall⟩, rfl⟩, _,
      rfl, rfl⟩, _, .refl _, by simp⟩

theorem isDecimalDigit_iff {c : Char} : isDecimalDigit c = true ↔ c.isDigit = true := by
  simp [isDecimalDigit, Char.isDigit, Char.le_def]

/-- **A page of another journal matches exactly if the pattern covers its name.** -/
theorem genPageFileName_matches {jname j : CStr} {n : Int16} :
    genPageFileName j n ∈ Pattern.lang (namePattern jname) ↔ 0 ≤ n ∧ Pattern.Covers jname j := by
  rw [pattern_spec]
  have hdec : '.' ∉ decimal n.toInt := not_mem_decimal (by decide) (by decide)
  constructor
  · rintro ⟨w, ds, hw, hne, hall, heq⟩
    have hds : '.' ∉ ds := fun h => absurd (hall _ h) (by decide)
    have hbody := (List.cons.inj (List.append_cancel_left heq)).2
    have hfront : j ++ '.' :: decimal n.toInt = w ++ '.' :: ds := by
      refine @List.append_cancel_right _ _ ('.' :: journalSuffix) _ ?_
      simpa using hbody
    obtain ⟨rfl, rfl⟩ := append_sep_inj hfront hdec hds
    have hnonneg : 0 ≤ n.toInt := forall_isDigit_decimal.mp fun c hc => isDecimalDigit_iff.mp (hall c hc)
    exact ⟨Int16.le_iff_toInt_le.mpr (by simpa using hnonneg), hw⟩
  · rintro ⟨hn, hj⟩
    have hnonneg : 0 ≤ n.toInt := by simpa using Int16.le_iff_toInt_le.mp hn
    exact ⟨j, decimal n.toInt, hj, decimal_ne_nil _,
      fun c hc => isDecimalDigit_iff.mpr (forall_isDigit_decimal.mpr hnonneg c hc), rfl⟩

/-! ### The number in a file name -/

/-- The number is found behind any name of that length. -/
theorem extractPageNum_genPageFileName {jname j : CStr} (hlen : jname.length = j.length) (n : Int16) :
    extractPageNum (genPageFileName j n) jname = some n := by
  have hfile : genPageFileName j n =
      (journalPrefix ++ '.' :: (j ++ ['.'])) ++ (decimal n.toInt ++ '.' :: journalSuffix) := by
    simp [genPageFileName]
  have hpos : journalPrefix.length + jname.length + 2 = (journalPrefix ++ '.' :: (j ++ ['.'])).length := by
    simp [hlen]
    omega
  have hcount : (genPageFileName j n).length - journalSuffix.length =
      (decimal n.toInt).length + (journalPrefix.length + j.length + 3) := by
    rw [hfile]
    simp
    omega
  unfold extractPageNum substr
  rw [hcount, hpos, hfile, if_pos (by simp), Option.map_some, List.drop_left, List.take_append,
    List.take_of_length_le (by omega)]
  have hrest : ∀ k, ∀ c ∈ (('.' :: journalSuffix).take k).head?, c.isDigit = false := by
    intro k c hc
    cases k with
    | zero => cases hc
    | succ k =>
      obtain rfl := Option.some.inj hc
      decide
  rw [atoi_decimal _ (hrest _), Int16.ofInt_toInt]

/-- A name that matches is long enough to have a number cut out. -/
theorem extractPageNum_isSome {jname f : CStr} (hf : f ∈ Pattern.lang (namePattern jname)) :
    (extractPageNum f jname).isSome := by
  obtain ⟨w, ds, hw, -, -, rfl⟩ := pattern_spec.mp hf
  have hpos : journalPrefix.length + jname.length + 2 ≤
      (journalPrefix ++ '.' :: (w ++ '.' :: (ds ++ '.' :: journalSuffix))).length := by
    simp [hw.length_eq]
    omega
  unfold extractPageNum substr
  rw [if_pos hpos]
  rfl

/-- **Page file names decode**: the number is found again behind the name of the journal, and the name of a
file, or the full path for a journal name without a slash, determines what it was made of. -/
theorem page_names_decode :
    (∀ (jname : CStr) (n : Int16), extractPageNum (genPageFileName jname n) jname = some n) ∧
      (∀ (j₁ j₂ : CStr) (n₁ n₂ : Int16), genPageFileName j₁ n₁ = genPageFileName j₂ n₂ → j₁ = j₂ ∧ n₁ = n₂) ∧
      ∀ (d₁ d₂ j₁ j₂ : CStr) (n₁ n₂ : Int16), '/' ∉ j₁ → '/' ∉ j₂ →
        genPageFullPath d₁ j₁ n₁ = genPageFullPath d₂ j₂ n₂ → d₁ = d₂ ∧ j₁ = j₂ ∧ n₁ = n₂ := by
  refine ⟨fun jname n => extractPageNum_genPageFileName rfl n, fun j₁ j₂ n₁ n₂ h => ?_, ?_⟩
  · exact genPageFileName_injective h
  · intro d₁ d₂ j₁ j₂ n₁ n₂ h₁ h₂ h
    have hkeys : PageKey.mk d₁ j₁ n₁ = PageKey.mk d₂ j₂ n₂ := PageKey.path_injective h₁ h₂ h
    exact PageKey.mk.inj hkeys

/-- A journal name with dots and digits, and a negative number. -/
example : extractPageNum (genPageFileName "a.7".toList (-12)) "a.7".toList = some (-12) := by decide +kernel

/-! ### Listings -/

section Listing

variable {dir : List CStr} {jname : CStr}

theorem mapM_of_isSome {α β : Type} {f : α → Option β} {xs : List α} (h : ∀ x ∈ xs, (f x).isSome) :
    ∃ ys, xs.mapM f = some ys ∧ List.Forall₂ (fun x y => f x = some y) xs ys := by
  induction xs with
  | nil => exact ⟨[], rfl, .nil⟩
  | cons x xs ih =>
    obtain ⟨y, hy⟩ := Option.isSome_iff_exists.mp (h x List.mem_cons_self)
    obtain ⟨ys, hys, hall⟩ := ih fun z hz => h z (List.mem_cons_of_mem x hz)
    refine ⟨y :: ys, ?_, .cons hy hall⟩
    rw [List.mapM_cons, hy, hys]
    rfl

theorem pageFiles_eq (hname : IsLiteralName jname) (dir : List CStr) :
    pageFiles dir jname = some (dir.filter (Pattern.isMatch (namePattern jname))) := by
  unfold pageFiles
  rw [parse_namePattern hname, Option.map_some]

/-- The listing is the sorted list of the numbers of the names that match. -/
theorem listPageNums_eq (hname : IsLiteralName jname) (dir : List CStr) :
    ∃ nums, List.Forall₂ (fun f n => extractPageNum f jname = some n)
        (dir.filter (Pattern.isMatch (namePattern jname))) nums ∧
      listPageNums dir jname = some (nums.mergeSort fun m n => decide (m ≤ n)) := by
  have hsome : ∀ f ∈ dir.filter (Pattern.isMatch (namePattern jname)), (extractPageNum f jname).isSome :=
    fun f hf => extractPageNum_isSome (Pattern.isMatch_iff.mp (List.mem_filter.mp hf).2)
  obtain ⟨nums, hnums, hall⟩ := mapM_of_isSome hsome
  refine ⟨nums, hall, ?_⟩
  unfold listPageNums
  rw [pageFiles_eq hname]
  simp only [Option.bind_eq_bind, Option.bind_some, hnums]
  rfl

/-- A letter, a digit or an underscore. -/
def IsPlainChar (c : Char) : Prop := c.isAlphanum = true ∨ c = '_'

theorem IsPlainChar.nameChar {c : Char} (hc : IsPlainChar c) : IsNameChar c := hc.imp_right .inl

theorem dot_notMem_of_plain (hname : ∀ c ∈ jname, IsPlainChar c) : '.' ∉ jname := fun h => by
  rcases hname _ h with hdot | hdot
  · exact absurd hdot (by decide)
  · exact absurd hdot (by decide)

/-- A file that is a page of some journal, or does not look like one. -/
def PageOrOther (f : CStr) : Prop :=
  (∃ j n, f = genPageFileName j n) ∨ ¬ (journalPrefix ++ ['.']) <+: f

/-- The names that match are those of the pages of the journal. -/
theorem page_of_match (hname : ∀ c ∈ jname, IsPlainChar c) {f : CStr} (hf : PageOrOther f)
    (hmatch : f ∈ Pattern.lang (namePattern jname)) : ∃ n, 0 ≤ n ∧ f = genPageFileName jname n := by
  rcases hf with ⟨j, n, rfl⟩ | hother
  · obtain ⟨hn, hcov⟩ := genPageFileName_matches.mp hmatch
    rw [Pattern.covers_iff_eq (dot_notMem_of_plain hname)] at hcov
    exact ⟨n, hn, by rw [hcov]⟩
  · obtain ⟨w, ds, -, -, -, rfl⟩ := pattern_spec.mp hmatch
    exact absurd ⟨w ++ '.' :: (ds ++ '.' :: journalSuffix), by simp⟩ hother

/-- Where only the pages of the journal match, the numbers are those of its files, negative ones left out. -/
theorem listPageNums_pages (hname : IsLiteralName jname)
    (hpages : ∀ f ∈ dir, f ∈ Pattern.lang (namePattern jname) → ∃ n, f = genPageFileName jname n) :
    ∃ nums : List Int16, listPageNums dir jname = some (nums.mergeSort fun m n => decide (m ≤ n)) ∧
      (dir.Nodup → nums.Nodup) ∧ ∀ n, n ∈ nums ↔ 0 ≤ n ∧ genPageFileName jname n ∈ dir := by
  obtain ⟨nums, hall, hlist⟩ := listPageNums_eq hname dir
  -- every number is that of its file
  have hnums : dir.filter (Pattern.isMatch (namePattern jname)) = nums.map (genPageFileName jname) := by
    rw [← List.forall₂_eq_eq_eq, List.forall₂_map_right_iff]
    refine List.forall₂_iff_get.mpr ⟨hall.length_eq, fun i hi hi' => ?_⟩
    obtain ⟨hmem, hmatch⟩ := List.mem_filter.mp (List.get_mem _ ⟨i, hi⟩)
    obtain ⟨n, hn⟩ := hpages _ hmem (Pattern.isMatch_iff.mp hmatch)
    have hextract := hall.get hi hi'
    rw [hn, extractPageNum_genPageFileName rfl] at hextract
    rw [hn, Option.some.inj hextract]
  refine ⟨nums, hlist, fun hnodup => ?_, fun n => ⟨fun hn => ?_, fun hn => ?_⟩⟩
  · exact (hnums ▸ hnodup.filter _ : (nums.map (genPageFileName jname)).Nodup).of_map _
  · have hfile : genPageFileName jname n ∈ dir.filter (Pattern.isMatch (namePattern jname)) :=
      hnums ▸ List.mem_map_of_mem hn
    obtain ⟨hmem, hmatch⟩ := List.mem_filter.mp hfile
    exact ⟨(genPageFileName_matches.mp (Pattern.isMatch_iff.mp hmatch)).1, hmem⟩
  · have hmatch := genPageFileName_matches.mpr ⟨hn.1, Pattern.Covers.refl jname⟩
    have hin := List.mem_filter.mpr ⟨hn.2, Pattern.isMatch_iff.mpr hmatch⟩
    rw [hnums, List.mem_map] at hin
    obtain ⟨m, hm, heq⟩ := hin
    exact (genPageFileName_injective heq).2 ▸ hm

/-- The listing of a directory of page files, negative numbers left out. -/
theorem listPageNums_spec (hname : ∀ c ∈ jname, IsPlainChar c) (hnodup : dir.Nodup)
    (hdir : ∀ f ∈ dir, PageOrOther f) : ∃ ns, listPageNums dir jname = some ns ∧ ns.Pairwise (· < ·) ∧
      ∀ n, n ∈ ns ↔ 0 ≤ n ∧ genPageFileName jname n ∈ dir := by
  have hpages : ∀ f ∈ dir, f ∈ Pattern.lang (namePattern jname) → ∃ n, f = genPageFileName jname n :=
    fun f hf hmatch => (page_of_match hname (hdir f hf) hmatch).imp fun _ => And.right
  obtain ⟨nums, hlist, hnd, hmem⟩ := listPageNums_pages (.of_nameChar fun c hc => (hname c hc).nameChar) hpages
  refine ⟨_, hlist, ?_, fun n => List.mem_mergeSort.trans (hmem n)⟩
  have hsorted := mergeSort_pairwise nums
  have hne : (nums.mergeSort fun m n => decide (m ≤ n)).Pairwise (· ≠ ·) :=
    (List.mergeSort_perm nums _).nodup_iff.mpr (hnd hnodup)
  exact (hsorted.and hne).imp fun h => Int16.lt_of_le_of_ne h.1 h.2

/-- The names in the directory and the page files of the journal: both give the same listing. -/
theorem listPageNums_files (hname : IsLiteralName jname) (hnodup : dir.Nodup)
    (hpages : ∀ f ∈ dir, f ∈ Pattern.lang (namePattern jname) → ∃ n, f = genPageFileName jname n) {fs : Files}
    (hfs : ∀ n, genPageFileName jname n ∈ dir ↔ n ∈ fs) : listPageNums dir jname = some (getPageNums fs) := by
  obtain ⟨nums, hlist, hnd, hmem⟩ := listPageNums_pages hname hpages
  have hnd' : (getPageNums fs).Nodup := (List.mergeSort_perm _ _).nodup_iff.mpr (fs.keys_nodup.filter _)
  have hperm : (nums.mergeSort fun m n => decide (m ≤ n)).Perm (getPageNums fs) := by
    refine (List.mergeSort_perm _ _).trans ((List.perm_ext_iff_of_nodup (hnd hnodup) hnd').mpr fun n => ?_)
    rw [hmem, hfs, mem_getPageNums, and_comm]
  rw [hlist]
  exact congrArg some (hperm.eq_of_pairwise (fun m n _ _ => Int16.le_antisymm) (mergeSort_pairwise nums)
    (getPageNums_pairwise fs))

/-- **The listing of a journal with a plain name is exact**, whatever other journals there are. -/
theorem listing_exact (jname : CStr) (hname : ∀ c ∈ jname, IsPlainChar c) (dir : List CStr)
    (hnodup : dir.Nodup)
    (hdir : ∀ f ∈ dir, (∃ j n, 0 ≤ n ∧ f = genPageFileName j n) ∨ ¬ (journalPrefix ++ ['.']) <+: f) :
    ∃ ns, listPageNums dir jname = some ns ∧ ns.Pairwise (· < ·) ∧
      ∀ n, n ∈ ns ↔ genPageFileName jname n ∈ dir := by
  obtain ⟨ns, hlist, hsorted, hmem⟩ := listPageNums_spec hname hnodup fun f hf =>
    (hdir f hf).imp_left fun ⟨j, n, _, heq⟩ => ⟨j, n, heq⟩
  refine ⟨ns, hlist, hsorted, fun n => (hmem n).trans (and_iff_right_of_imp fun hfile => ?_)⟩
  rcases hdir _ hfile with ⟨j, m, hm, heq⟩ | hother
  · exact (genPageFileName_injective heq).2 ▸ hm
  · exact absurd ⟨jname ++ '.' :: (decimal n.toInt ++ '.' :: journalSuffix), by simp [genPageFileName]⟩ hother

/-- Pages 9 and 10 of one journal, in any order, and a journal whose name has a dot. -/
theorem listing_exact_two : ∃ ns,
    listPageNums [genPageFileName ['a'] 10, genPageFileName ['a', '.', '7'] 2, genPageFileName ['a'] 9, ['x']]
      ['a'] = some ns ∧ ns.Pairwise (· < ·) ∧ ∀ n, n ∈ ns ↔ genPageFileName ['a'] n ∈
        [genPageFileName ['a'] 10, genPageFileName ['a', '.', '7'] 2, genPageFileName ['a'] 9, ['x']] := by
  refine listing_exact ['a'] ?_ _ (by decide +kernel) fun f hf => ?_
  · intro c hc
    obtain rfl := List.mem_singleton.mp hc
    exact .inl (by decide)
  · simp only [List.mem_cons, List.not_mem_nil, or_false] at hf
    rcases hf with rfl | rfl | rfl | rfl
    · exact .inl ⟨_, 10, by decide, rfl⟩
    · exact .inl ⟨_, 2, by decide, rfl⟩
    · exact .inl ⟨_, 9, by decide, rfl⟩
    · exact .inr (by decide)

end Listing

/-! ### Removing a journal -/

/-- The files of the other journal are left alone, and the journal's own are removed: in the directory
after `RemoveJournal`, and in the listing, which is the same without any one of the other's pages. -/
structure OnlyOwn (dir : List CStr) (j₁ j₂ : CStr) : Prop where
  removes : ∃ rest, removeJournal dir j₁ = some rest ∧
    (∀ n, 0 ≤ n → genPageFileName j₁ n ∉ rest) ∧ ∀ n, genPageFileName j₂ n ∈ dir → genPageFileName j₂ n ∈ rest
  lists : ∀ n, listPageNums (dir.erase (genPageFileName j₂ n)) j₁ = listPageNums dir j₁

section Remove

variable {dir : List CStr} {jname : CStr}

theorem removeJournal_spec (hname : IsLiteralName jname) (dir : List CStr) :
    ∃ rest, removeJournal dir jname = some rest ∧
      ∀ f, f ∈ rest ↔ f ∈ dir ∧ f ∉ Pattern.lang (namePattern jname) := by
  refine ⟨_, by rw [removeJournal, pageFiles_eq hname, Option.map_some], fun f => ?_⟩
  simp only [List.mem_filter, Bool.not_eq_true', List.contains_eq_mem, decide_eq_false_iff_not, ← Pattern.isMatch_iff]
  tauto

/-- A file that does not match is not seen by the listing. -/
theorem filter_erase {f : CStr} {p : CStr → Bool} (hf : p f = false) :
    (dir.erase f).filter p = dir.filter p := by
  induction dir with
  | nil => rfl
  | cons g dir ih =>
    rw [List.erase_cons]
    split
    · rename_i hgf
      obtain rfl := beq_iff_eq.mp hgf
      rw [List.filter_cons, hf, if_neg (by decide)]
    · rw [List.filter_cons, List.filter_cons, ih]

theorem listPageNums_erase (hname : IsLiteralName jname) {f : CStr}
    (hf : f ∉ Pattern.lang (namePattern jname)) :
    listPageNums (dir.erase f) jname = listPageNums dir jname := by
  have hmatch : Pattern.isMatch (namePattern jname) f = false :=
    Bool.not_eq_true _ ▸ fun h => hf (Pattern.isMatch_iff.mp h)
  unfold listPageNums
  rw [pageFiles_eq hname, pageFiles_eq hname, filter_erase hmatch]

end Remove

/-- **A journal's pages are removed and listed apart from another's exactly when its name, read as a
pattern in which a dot is any character, does not match the other's, or that one has no pages.** -/
theorem only_own_iff (j₁ j₂ : CStr) (hname : ∀ c ∈ j₁, IsNameChar c) (dir : List CStr) :
    OnlyOwn dir j₁ j₂ ↔ (Pattern.Covers j₁ j₂ → ∀ n, 0 ≤ n → genPageFileName j₂ n ∉ dir) := by
  obtain ⟨rest, hrest, hmem⟩ := removeJournal_spec (.of_nameChar hname) dir
  constructor
  · rintro ⟨⟨rest', hrest', -, hkeep⟩, -⟩ hcov n hn hfile
    obtain rfl := Option.some.inj (hrest.symm.trans hrest')
    exact ((hmem _).mp (hkeep n hfile)).2 (genPageFileName_matches.mpr ⟨hn, hcov⟩)
  · intro hcond
    have hother : ∀ n, genPageFileName j₂ n ∈ dir → genPageFileName j₂ n ∉ Pattern.lang (namePattern j₁) :=
      fun n hfile hmatch => by
        obtain ⟨hn, hcov⟩ := genPageFileName_matches.mp hmatch
        exact hcond hcov n hn hfile
    refine ⟨⟨rest, hrest, fun n hn hfile => ?_, fun n hfile => ?_⟩, fun n => ?_⟩
    · exact ((hmem _).mp hfile).2 (genPageFileName_matches.mpr ⟨hn, Pattern.Covers.refl j₁⟩)
    · exact (hmem _).mpr ⟨hfile, hother n hfile⟩
    · by_cases hfile : genPageFileName j₂ n ∈ dir
      · exact listPageNums_erase (.of_nameChar hname) (hother n hfile)
      · rw [List.erase_of_not_mem hfile]

/-- Removing the journal `a.b` removes the page of the journal `axb`. -/
theorem dot_removes_other :
    removeJournal [genPageFileName ['a', 'x', 'b'] 1] ['a', '.', 'b'] = some [] ∧
      ¬ OnlyOwn [genPageFileName ['a', 'x', 'b'] 1] ['a', '.', 'b'] ['a', 'x', 'b'] := by
  have hrest : removeJournal [genPageFileName ['a', 'x', 'b'] 1] ['a', '.', 'b'] = some [] := by
    decide +kernel
  refine ⟨hrest, fun h => ?_⟩
  obtain ⟨rest, hrest', -, hkeep⟩ := h.removes
  obtain rfl := Option.some.inj (hrest.symm.trans hrest')
  exact absurd (hkeep 1 List.mem_cons_self) List.not_mem_nil

theorem only_own_iff_two :
    OnlyOwn [genPageFileName ['b'] 1] ['a', '.'] ['b'] ↔
      (Pattern.Covers ['a', '.'] ['b'] → ∀ n, 0 ≤ n → genPageFileName ['b'] n ∉ [genPageFileName ['b'] 1]) := by
  refine only_own_iff ['a', '.'] ['b'] (fun c hc => ?_) _
  rcases List.mem_cons.mp hc with rfl | hc
  · exact .inl (by decide)
  · obtain rfl := List.mem_singleton.mp hc
    exact .inr (.inr rfl)

/-! ### Looking a time up -/

section Lookup

open Prog

variable {dir : List CStr} {jname : CStr} {fs : Files} {time : Int64} {n : Int16}

/-- A listing of the directory: the page files of the journal, and files that its pattern does not match. -/
structure PageDir (jname : CStr) (fs : Files) (dir : List CStr) : Prop where
  pages : ∀ n, genPageFileName jname n ∈ dir ↔ n ∈ fs
  others : ∀ f ∈ dir, ∀ pattern, Pattern.parse (getPageFileNamePattern jname) = some pattern →
    f ∈ Pattern.lang pattern → ∃ n, f = genPageFileName jname n

/-- The lookup is right, and a reader that seeks the time on initialized pages is given a page. -/
structure LooksUp (dir : List CStr) (jname : CStr) (fs : Files) (time : Int64) : Prop where
  page : ∃ n, listPageNumWithTime dir jname fs time = some n ∧ IsPageAt fs time n
  not_expired : (∀ n ∈ fs, Readable fs n) → ∀ (h : Host) (s t : Env) (b : Bool), h.Grants → s.files = fs →
    s.journal.isWriting = false → Runs (Journal.seekTime h time) s b t → b = true

/-- The lookup in the directory is the one in the page files. -/
theorem PageDir.listPageNumWithTime (hd : PageDir jname fs dir) (hname : IsLiteralName jname) (hnodup : dir.Nodup)
    (time : Int64) : listPageNumWithTime dir jname fs time = some (getPageNumWithTime fs time) := by
  unfold Yijinjing.listPageNumWithTime
  rw [listPageNums_files hname hnodup (fun f hf => hd.others f hf _ (parse_namePattern hname)) hd.pages]
  rfl

theorem getLast?_eq_of_pairwise {ns : List Int16} (hsorted : ns.Pairwise (· ≤ ·)) (hn : n ∈ ns)
    (hmax : ∀ k ∈ ns, k ≤ n) : ns.getLast? = some n := by
  have hne := List.ne_nil_of_mem hn
  rw [List.getLast?_eq_some_getLast hne, Option.some.injEq]
  refine Int16.le_antisymm (hmax _ (List.getLast_mem hne)) ?_
  exact hsorted.rel_getLast_of_rel_getLast_getLast hn (Int16.le_refl _)

/-- The last page of the listing is the last one of the page files. -/
theorem PageDir.getLast? (hd : PageDir jname fs dir) (hname : IsLiteralName jname)
    (hn : n ∈ fs) (h0 : 0 ≤ n) (hmax : ∀ k ∈ fs, k ≤ n) :
    ∃ ns, listPageNums dir jname = some ns ∧ ns.getLast? = some n := by
  obtain ⟨nums, hlist, -, hmem⟩ := listPageNums_pages hname fun f hf hmatch =>
    hd.others f hf _ (parse_namePattern hname) hmatch
  refine ⟨_, hlist, getLast?_eq_of_pairwise (mergeSort_pairwise nums) ?_ fun k hk => ?_⟩
  · exact List.mem_mergeSort.mpr ((hmem n).mpr ⟨h0, (hd.pages n).mpr hn⟩)
  · exact hmax k ((hd.pages k).mp ((hmem k).mp (List.mem_mergeSort.mp hk)).2)

/-- **A time lookup is right exactly when page 1 is there or some page was opened before the time**, in every
directory that lists the pages of the journal as what they are. -/
theorem looks_up_iff (jname : CStr) (hname : IsLiteralName jname) (dir : List CStr) (fs : Files)
    (hnodup : dir.Nodup) (hd : PageDir jname fs dir) (hpos : ∀ n ∈ fs, 1 ≤ n) (time : Int64) :
    LooksUp dir jname fs time ↔ 1 ∈ fs ∨ ∃ n ∈ fs, OpenedBefore fs time n := by
  have hlookup := hd.listPageNumWithTime hname hnodup time
  rw [← isPageAt_iff hpos]
  constructor
  · rintro ⟨⟨n, hn, hpage⟩, -⟩
    obtain rfl := Option.some.inj (hlookup.symm.trans hn)
    exact hpage
  · intro hpage
    refine ⟨⟨_, hlookup, hpage⟩, fun hread h s t b hg hfiles hw hrun => ?_⟩
    subst hfiles
    exact seekTime_of_readable hg hw (hread _ (soughtPageNum_mem hpos hpage)) hrun

/-- A journal whose page 1 has been removed, with page 2 opened at 5. -/
def pageTwoOnly : Files := (∅ : Files).insert 2 (zeroPage.storeAs 33 (5 : Int64))

/-- Its directory. -/
def pageTwoDir : List CStr := [genPageFileName "test".toList 2]

theorem mem_pageTwoOnly : n ∈ pageTwoOnly ↔ n = 2 := by
  unfold pageTwoOnly
  rw [AList.mem_insert]
  exact or_iff_left (AList.notMem_empty n)

theorem pageDir_pageTwo : PageDir "test".toList pageTwoOnly pageTwoDir where
  pages n := by
    rw [mem_pageTwoOnly, pageTwoDir, List.mem_singleton]
    exact ⟨fun h => (genPageFileName_injective h).2, fun h => h ▸ rfl⟩
  others f hf _ _ _ := ⟨2, List.mem_singleton.mp hf⟩

theorem isLiteralName_test : IsLiteralName "test".toList :=
  .of_nameChar fun c hc => .inl (List.all_eq_true.mp (by decide : "test".toList.all Char.isAlphanum = true) c hc)

theorem startNano_pageTwoOnly : PageHeader.startNano (pageTwoOnly.buffer 2) = 5 := by
  have hbuf : pageTwoOnly.buffer 2 = zeroPage.storeAs 33 (5 : Int64) :=
    Files.buffer_of_lookup (AList.lookup_insert _)
  rw [hbuf]
  exact Mem.loadAs_storeAs _ _ _

theorem looks_up_iff_pageTwoOnly : LooksUp pageTwoDir "test".toList pageTwoOnly 7 ↔
    1 ∈ pageTwoOnly ∨ ∃ n ∈ pageTwoOnly, OpenedBefore pageTwoOnly 7 n :=
  looks_up_iff _ isLiteralName_test _ _ (List.nodup_singleton _) pageDir_pageTwo
    (fun n hn => mem_pageTwoOnly.mp hn ▸ by decide) 7

/-- The lookup of a time before it gives page 1. -/
theorem pageTwoOnly_not_looksUp : PageDir "test".toList pageTwoOnly pageTwoDir ∧ (∃ n, n ∈ pageTwoOnly) ∧
    (∀ n ∈ pageTwoOnly, 1 ≤ n) ∧ listPageNumWithTime pageTwoDir "test".toList pageTwoOnly 3 = some 1 ∧
    ¬ LooksUp pageTwoDir "test".toList pageTwoOnly 3 := by
  have hnone : ∀ n ∈ pageTwoOnly, ¬ OpenedBefore pageTwoOnly 3 n := fun n hn => by
    obtain rfl := mem_pageTwoOnly.mp hn
    unfold OpenedBefore
    rw [startNano_pageTwoOnly]
    decide
  have hone := pageDir_pageTwo.listPageNumWithTime isLiteralName_test (List.nodup_singleton _) 3
  rw [getPageNumWithTime_of_forall hnone] at hone
  refine ⟨pageDir_pageTwo, ⟨2, mem_pageTwoOnly.mpr rfl⟩, fun n hn => mem_pageTwoOnly.mp hn ▸ by decide, hone,
    fun hl => ?_⟩
  obtain ⟨n, hn, hpage⟩ := hl.page
  obtain rfl := Option.some.inj (hone.symm.trans hn)
  exact absurd (mem_pageTwoOnly.mp hpage.mem) (by decide)

end Lookup

end Yijinjing
