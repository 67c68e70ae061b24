import Mathlib.Data.List.DropRight
import Mathlib.Tactic.IntervalCases
import Yijinjing.Journal.Strptime

/-!
# Times as texts

What `strftime` prints for a format, and that `strptime` reads it back (`strptime_strftime`).  A conversion
reads exactly what is printed for it, whatever is behind it, because the limit of a number determines its
digits; and white space in the format reads all white space of the text, so the text is followed only up to
white space (`UpToSpace`).  Conversions from which the field cannot be read back are left out: abbreviated
names, hours of twelve, the century alone and the numbers of weeks.
-/

namespace Yijinjing

open Lib

/-! ### What `strftime` prints -/

namespace Strptime

/-- The conversions from which `strftime` prints a number, its digits and the number. -/
def printed (c : Char) (tm : Tm) : Option (ℕ × ℕ) :=
  match c with
  | 'd' => some (2, tm.mday.toNat)
  | 'H' => some (2, tm.hour.toNat)
  | 'j' => some (3, (tm.yday + 1).toNat)
  | 'M' => some (2, tm.min.toNat)
  | 'm' => some (2, (tm.mon + 1).toNat)
  | 'S' => some (2, tm.sec.toNat)
  | 'w' => some (1, tm.wday.toNat)
  -- the years with four digits
  | 'Y' => if -900 ≤ tm.year ∧ tm.year ≤ 8099 then some (4, (tm.year + tmYearBase).toNat) else none
  -- the years from 1969 to 2068
  | 'y' => if 69 ≤ tm.year ∧ tm.year ≤ 168 then some (2, (tm.year % 100).toNat) else none
  | _ => none

/-- The number that is read is stored where it has been printed from. -/
def told (c : Char) (tm t : Tm) : Tm :=
  match c with
  | 'A' | 'w' => { t with wday := tm.wday }
  | 'B' | 'm' => { t with mon := tm.mon }
  | 'd' => { t with mday := tm.mday }
  | 'H' => { t with hour := tm.hour }
  | 'j' => { t with yday := tm.yday }
  | 'M' => { t with min := tm.min }
  | 'S' => { t with sec := tm.sec }
  | 'Y' | 'y' => { t with year := tm.year }
  | 'D' | 'x' => { t with mon := tm.mon, mday := tm.mday, year := tm.year }
  | 'R' => { t with hour := tm.hour, min := tm.min }
  | 'T' | 'X' => { t with hour := tm.hour, min := tm.min, sec := tm.sec }
  | _ => t

/-- What `strftime` prints for a format, if it prints this for the conversions. -/
def printFormat (print : Char → Option (List Char)) : List Char → Option (List Char)
  | [] => some []
  | c :: fmt =>
    if c = '%' then
      match fmt with
      | [] => none
      | d :: fmt => do return (← print d) ++ (← printFormat print fmt)
    else (printFormat print fmt).map (c :: ·)

def numbers (tm : Tm) (c : Char) : Option (List Char) := (printed c tm).map fun (w, n) => padded w n

/-- What `strftime` prints for the conversions from which it can be read back, in the C locale. -/
def print (tm : Tm) (c : Char) : Option (List Char) :=
  match c with
  | '%' => some ['%']
  | 'n' => some ['\n']
  | 't' => some ['\t']
  | 'A' => day[tm.wday.toNat]?.map Prod.fst
  | 'B' => mon[tm.mon.toNat]?.map Prod.fst
  | 'D' | 'x' => printFormat (numbers tm) "%m/%d/%y".toList
  | 'R' => printFormat (numbers tm) "%H:%M".toList
  | 'T' | 'X' => printFormat (numbers tm) "%H:%M:%S".toList
  | c => numbers tm c

def strftime (fmt : List Char) (tm : Tm) : Option (List Char) := printFormat (print tm) fmt

/-- The fields after all conversions of a format. -/
def toldBy (tm : Tm) : List Char → Tm → Tm
  | [], t => t
  | c :: fmt, t =>
    if c = '%' then
      match fmt with
      | [] => t
      | d :: fmt => toldBy tm fmt (told d tm t)
    else toldBy tm fmt t

/-! ### Reading back -/

variable {tm t : Tm} {c : Char} {w n llim ulim : ℕ} {bp rest text out fmt : List Char} {split : Bool} {sub : Reader}
variable {print : Char → Option (List Char)}

theorem convDigits_padded {result rulim : ℕ} (v : ℕ) (hlo : 10 ^ w ≤ rulim) (hhi : rulim < 10 ^ (w + 1))
    (hle : result * 10 ^ (w + 1) + v % 10 ^ (w + 1) ≤ ulim) (rest : List Char) :
    convDigits ulim result rulim (padded (w + 1) v ++ rest) = (result * 10 ^ (w + 1) + v % 10 ^ (w + 1), rest) := by
  induction w generalizing result rulim with
  | zero =>
    have hdigit := (digitChar_lt (Nat.mod_lt (v / 10 ^ 0) (by decide : 0 < 10))).2
    have hrulim : rulim / 10 = 0 := by omega
    simp only [padded, List.cons_append, List.nil_append, convDigits, hdigit, hrulim]
    simp
  | succ w ih =>
    have hdigit := (digitChar_lt (Nat.mod_lt (v / 10 ^ (w + 1)) (by decide : 0 < 10))).2
    have hpow : 10 ^ (w + 1 + 1) = 10 ^ (w + 1) * 10 := Nat.pow_succ ..
    have hpow' : 10 ^ (w + 1) = 10 ^ w * 10 := Nat.pow_succ ..
    have hpos : 0 < 10 ^ w := Nat.pow_pos (by decide)
    have hsum : (result * 10 + v / 10 ^ (w + 1) % 10) * 10 ^ (w + 1) + v % 10 ^ (w + 1) =
        result * 10 ^ (w + 1 + 1) + v % 10 ^ (w + 1 + 1) := by
      have hmod : v % 10 ^ (w + 1 + 1) = v % 10 ^ (w + 1) + 10 ^ (w + 1) * (v / 10 ^ (w + 1) % 10) := Nat.mod_pow_succ
      rw [hmod, hpow, Nat.add_mul, Nat.mul_assoc, Nat.mul_comm 10, Nat.mul_comm (_ % 10)]
      omega
    have hten : (result * 10 + v / 10 ^ (w + 1) % 10) * 10 ≤ ulim := by
      have hmul : (result * 10 + v / 10 ^ (w + 1) % 10) * 10 ≤ (result * 10 + v / 10 ^ (w + 1) % 10) * 10 ^ (w + 1) :=
        Nat.mul_le_mul_left _ (by omega)
      omega
    have hrulim : 10 ^ w ≤ rulim / 10 ∧ rulim / 10 < 10 ^ (w + 1) := by omega
    rw [padded, List.cons_append]
    unfold convDigits
    simp only [hdigit]
    rw [if_pos ⟨hten, by omega, head_padded w v rest⟩, ih hrulim.1 hrulim.2 (hsum ▸ hle), hsum]

/-- **A number of full width** is read, whatever is behind it. -/
theorem convNum_padded (hlo : 10 ^ w ≤ ulim) (hhi : ulim < 10 ^ (w + 1)) (hl : llim ≤ n) (hu : n ≤ ulim)
    (rest : List Char) : convNum (padded (w + 1) n ++ rest) llim ulim = some (n, rest) := by
  have hmod : n % 10 ^ (w + 1) = n := Nat.mod_eq_of_lt (hu.trans_lt hhi)
  have hle : 0 * 10 ^ (w + 1) + n % 10 ^ (w + 1) ≤ ulim := by omega
  have hread := convDigits_padded n hlo hhi hle rest
  rw [Nat.zero_mul, Nat.zero_add, hmod] at hread
  unfold convNum
  rw [if_pos (head_padded w n rest), hread]
  exact if_pos ⟨hl, hu⟩

theorem legalAlt_zero (allowed : UInt8) : legalAlt allowed 0 = true := by
  unfold legalAlt
  simp

theorem convert_number {allowed : UInt8} {split' : Bool → Bool} {store : Bool → ℕ → Tm → Tm}
    (hrule : rule c = some (allowed, .number llim ulim split' store)) (hlo : 10 ^ w ≤ ulim) (hhi : ulim < 10 ^ (w + 1))
    (hl : llim ≤ n) (hu : n ≤ ulim) (rest : List Char) (t : Tm) (split : Bool) :
    convert sub c 0 ⟨padded (w + 1) n ++ rest, t, split⟩ = .ok ⟨rest, store split n t, split' split⟩ := by
  unfold convert
  rw [hrule]
  simp only [legalAlt_zero, if_true, Rule.read, convNum_padded hlo hhi hl hu]

/-- The conversion reads what is printed for it. -/
def ReadsBack (sub : Reader) (tm : Tm) (c : Char) (out : List Char) : Prop :=
  ∀ rest t split, (split = true → t.year = tm.year) → ∃ split',
    convert sub c 0 ⟨out ++ rest, t, split⟩ = .ok ⟨rest, told c tm t, split'⟩ ∧
      (split' = true → (told c tm t).year = tm.year)

theorem storeYear_told {i : ℕ} (hlo : 69 ≤ tm.year) (hhi : tm.year ≤ 168) (hi : (i : ℤ) = tm.year % 100)
    (hsplit : split = true → t.year = tm.year) : storeYear split i t = { t with year := tm.year } := by
  unfold storeYear
  cases split with
  | true =>
    have hdiv : tm.year.tdiv 100 = tm.year / 100 := Int.tdiv_eq_ediv_of_nonneg (by omega)
    have hsum : tm.year / 100 * 100 + i = tm.year := by omega
    rw [if_pos rfl, hsplit rfl, hdiv, hsum]
  | false =>
    have hbase : tmYearBase = 1900 := rfl
    rw [if_neg Bool.false_ne_true, hbase]
    split
    · have hsum : (i : ℤ) + 2000 - 1900 = tm.year := by omega
      rw [hsum]
    · have hsum : (i : ℤ) + 1900 - 1900 = tm.year := by omega
      rw [hsum]

theorem number_readsBack {allowed : UInt8} {split' : Bool → Bool} {store : Bool → ℕ → Tm → Tm}
    (hrule : rule c = some (allowed, .number llim ulim split' store)) (hlo : 10 ^ w ≤ ulim) (hhi : ulim < 10 ^ (w + 1))
    (hl : llim ≤ n) (hu : n ≤ ulim)
    (htold : ∀ split t, (split = true → t.year = tm.year) → store split n t = told c tm t)
    (hyear : ∀ split t, (split = true → t.year = tm.year) → split' split = true → (told c tm t).year = tm.year) :
    ReadsBack sub tm c (padded (w + 1) n) := by
  intro rest t split hsplit
  refine ⟨split' split, ?_, hyear split t hsplit⟩
  rw [convert_number hrule hlo hhi hl hu, htold split t hsplit]

/-- **Every number** that is printed is read back. -/
theorem printed_readsBack {i : ℕ} (htm : tm.InRange) (h : printed c tm = some (w, i)) :
    ReadsBack sub tm c (padded w i) := by
  obtain ⟨hsec, hmin, hhour, hmday, hmon, hyear, hwday, hyday⟩ := htm
  have hbase : tmYearBase = 1900 := rfl
  unfold printed at h
  split at h
  case h_8 =>
    split at h
    case isFalse => cases h
    obtain ⟨rfl, rfl⟩ := Prod.mk.inj (Option.some.inj h)
    refine number_readsBack (c := 'Y') rfl (by decide) (by decide) (by omega) (by omega) ?_ fun _ _ _ _ => rfl
    intro _ t _
    simp only [told, Tm.mk.injEq, true_and, and_true]
    omega
  case h_9 =>
    split at h
    case isFalse => cases h
    rename_i h69
    obtain ⟨rfl, rfl⟩ := Prod.mk.inj (Option.some.inj h)
    have hn : ((tm.year % 100).toNat : ℤ) = tm.year % 100 := Int.toNat_of_nonneg (by omega)
    refine number_readsBack (c := 'y') rfl (by decide) (by decide) (by omega) (by omega) ?_ fun _ _ _ _ => rfl
    intro _ t hsplit
    exact storeYear_told h69.1 h69.2 hn hsplit
  case h_10 => cases h
  -- the other numbers are stored as they are, or without the one that has been added
  all_goals
    obtain ⟨rfl, rfl⟩ := Prod.mk.inj (Option.some.inj h)
    refine number_readsBack rfl (by decide) (by decide) (by omega) (by omega) ?_ fun _ _ h => h
    intro _ t _
    simp only [told, Tm.mk.injEq, true_and, and_true]
    omega

/-! ### Formats -/

/-- The text, or the text behind its first white space. -/
def UpToSpace (bp text : List Char) : Prop := bp = text ∨ bp = text.dropWhile isSpace

theorem UpToSpace.dropWhile (h : UpToSpace bp text) : bp.dropWhile isSpace = text.dropWhile isSpace := by
  rcases h with rfl | rfl
  · rfl
  · exact List.dropWhile_idempotent _ _

/-- A text that does not begin with white space. -/
theorem UpToSpace.eq {d : Char} (h : UpToSpace bp (d :: text)) (hd : isSpace d = false) : bp = d :: text := by
  rcases h with rfl | rfl
  · rfl
  · rw [List.dropWhile_cons, hd]
    rfl

/-- The same for a conversion whose text may be white space. -/
def Reads (sub : Reader) (tm : Tm) (c : Char) (out : List Char) : Prop :=
  ∀ bp rest t split, UpToSpace bp (out ++ rest) → (split = true → t.year = tm.year) → ∃ bp' split',
    convert sub c 0 ⟨bp, t, split⟩ = .ok ⟨bp', told c tm t, split'⟩ ∧ UpToSpace bp' rest ∧
      (split' = true → (told c tm t).year = tm.year)

theorem ReadsBack.reads (h : ReadsBack sub tm c out) (hout : out.head?.any fun d => !isSpace d) :
    Reads sub tm c out := by
  intro bp rest t split hbp hsplit
  cases out with
  | nil => cases hout
  | cons d out =>
    have hd : isSpace d = false := by simpa using hout
    rw [hbp.eq hd]
    obtain ⟨split', hconvert, hyear⟩ := h rest t split hsplit
    exact ⟨rest, split', hconvert, .inl rfl, hyear⟩

/-- A conversion character is no modifier. -/
theorem loop_conversion {bp' : List Char} {split' : Bool} {t' : Tm}
    (h : convert sub c 0 ⟨bp, t, split⟩ = .ok ⟨bp', t', split'⟩) (fmt : List Char) :
    loop sub none ('%' :: c :: fmt) ⟨bp, t, split⟩ = loop sub none fmt ⟨bp', t', split'⟩ := by
  have hE : c ≠ 'E' := by
    rintro rfl
    cases h
  have hO : c ≠ 'O' := by
    rintro rfl
    cases h
  have hspace : ¬ isSpace '%' = true := by decide
  simp only [loop, if_neg hspace, if_true, if_neg hE, if_neg hO, h, Except.bind]

/-- **A format** whose conversions are read back is read back. -/
theorem loop_printFormat (hread : ∀ c out, print c = some out → Reads sub tm c out)
    (hprint : printFormat print fmt = some text) (hbp : UpToSpace bp (text ++ rest))
    (hsplit : split = true → t.year = tm.year) : ∃ bp' split',
      loop sub none fmt ⟨bp, t, split⟩ = .ok ⟨bp', toldBy tm fmt t, split'⟩ ∧ UpToSpace bp' rest := by
  induction fmt using printFormat.induct generalizing bp text t split with
  | case1 =>
    obtain rfl := Option.some.inj hprint
    exact ⟨bp, split, rfl, hbp⟩
  | case2 => cases hprint
  | case3 c fmt ih =>
    simp only [printFormat, if_true, Option.bind_eq_bind, Option.bind_eq_some_iff] at hprint
    obtain ⟨out, hout, text', htext, hsome⟩ := hprint
    obtain rfl := Option.some.inj hsome
    rw [List.append_assoc] at hbp
    obtain ⟨bp', split', hconvert, hbp', hsplit'⟩ := hread c out hout bp _ t split hbp hsplit
    rw [loop_conversion hconvert]
    exact ih htext hbp' hsplit'
  | case4 c fmt hc ih =>
    rw [printFormat.eq_def] at hprint
    simp only [if_neg hc] at hprint
    obtain ⟨text', htext, rfl⟩ := Option.map_eq_some_iff.mp hprint
    have htold : toldBy tm (c :: fmt) t = toldBy tm fmt t := by
      rw [toldBy.eq_def]
      exact if_neg hc
    rw [htold]
    unfold loop
    by_cases hspace : isSpace c = true
    · have hdrop : bp.dropWhile isSpace = (text' ++ rest).dropWhile isSpace := by
        rw [hbp.dropWhile, List.cons_append, List.dropWhile_cons, if_pos hspace]
      rw [if_pos hspace]
      exact ih htext (.inr hdrop) hsplit
    · rw [if_neg hspace, if_neg hc, hbp.eq (Bool.eq_false_of_not_eq_true hspace)]
      have hliteral : readLiteral c ⟨c :: (text' ++ rest), t, split⟩ = .ok ⟨text' ++ rest, t, split⟩ := if_pos rfl
      simp only [List.append_eq, hliteral, Except.bind]
      exact ih htext (.inl rfl) hsplit

theorem printed_width {i : ℕ} (h : printed c tm = some (w, i)) : 0 < w := by
  unfold printed at h
  split at h
  case h_8 | h_9 =>
    split at h
    · obtain ⟨rfl, -⟩ := Prod.mk.inj (Option.some.inj h)
      decide
    · cases h
  case h_10 => cases h
  all_goals
    obtain ⟨rfl, -⟩ := Prod.mk.inj (Option.some.inj h)
    decide

theorem numbers_reads (htm : tm.InRange) (h : numbers tm c = some out) : Reads sub tm c out := by
  obtain ⟨⟨w, i⟩, hprinted, rfl⟩ := Option.map_eq_some_iff.mp h
  refine (printed_readsBack htm hprinted).reads ?_
  obtain ⟨w, rfl⟩ := Nat.exists_eq_succ_of_ne_zero (printed_width hprinted).ne'
  have hdigit := (digitChar_lt (Nat.mod_lt (i / 10 ^ w) (by decide : 0 < 10))).1
  show (!isSpace _) = true
  rw [(isDigit_not_isSpace hdigit).1]
  rfl

/-- A conversion with a format of its own. -/
theorem complex_reads {allowed : UInt8} (hrule : rule c = some (allowed, .complex fmt)) (htm : tm.InRange)
    (hprint : printFormat (numbers tm) fmt = some out) (htold : ∀ t, toldBy tm fmt t = told c tm t)
    (hyear : ∀ t, t.year = tm.year → (told c tm t).year = tm.year) : Reads strptime tm c out := by
  intro bp rest t split hbp hsplit
  obtain ⟨bp', split', hloop, hbp'⟩ : ∃ bp' split',
      loop strptime none fmt ⟨bp, t, false⟩ = .ok ⟨bp', toldBy tm fmt t, split'⟩ ∧ UpToSpace bp' rest :=
    loop_printFormat (fun c out hout => numbers_reads htm hout) hprint hbp (fun h => nomatch h)
  refine ⟨bp', split, ?_, hbp', fun h => hyear t (hsplit h)⟩
  have hcall : strptime fmt bp t = .ok (bp', told c tm t) := by
    rw [strptime_eq, body, hloop, htold]
    rfl
  unfold convert
  rw [hrule]
  simp only [legalAlt_zero, if_true, Rule.read, hcall]
  rfl

theorem name_reads {allowed : UInt8} {names : List (List Char × List Char)} {store : ℕ → Tm → Tm} {i : ℕ}
    (hrule : rule c = some (allowed, .name names store))
    (hfind : ∀ rest, findName names 0 (out ++ rest) = some (i, rest)) (htold : ∀ t, store i t = told c tm t)
    (hyear : ∀ t, (told c tm t).year = t.year) (hout : out.head?.any fun d => !isSpace d) : Reads sub tm c out := by
  refine ReadsBack.reads (fun rest t split hsplit => ⟨split, ?_, fun h => ?_⟩) hout
  · unfold convert
    rw [hrule]
    simp only [legalAlt_zero, if_true, Rule.read, hfind, htold]
  · rw [hyear]
    exact hsplit h

theorem findName_day {i : ℕ} {name : List Char × List Char} (h : day[i]? = some name) (rest : List Char) :
    findName day 0 (name.1 ++ rest) = some (i, rest) ∧ name.1.head?.any fun d => !isSpace d := by
  obtain ⟨hi, rfl⟩ := List.getElem?_eq_some_iff.mp h
  rw [day_length] at hi
  interval_cases i <;> exact ⟨rfl, rfl⟩

theorem findName_mon {i : ℕ} {name : List Char × List Char} (h : mon[i]? = some name) (rest : List Char) :
    findName mon 0 (name.1 ++ rest) = some (i, rest) ∧ name.1.head?.any fun d => !isSpace d := by
  obtain ⟨hi, rfl⟩ := List.getElem?_eq_some_iff.mp h
  rw [mon_length] at hi
  interval_cases i <;> exact ⟨rfl, rfl⟩

/-- White space is read by a conversion of its own. -/
theorem space_reads {d : Char} (hrule : rule c = some (0, .space)) (hd : isSpace d = true) (htold : ∀ t, told c tm t = t) :
    Reads sub tm c [d] := by
  intro bp rest t split hbp hsplit
  have hdrop : bp.dropWhile isSpace = rest.dropWhile isSpace := by
    rw [hbp.dropWhile, List.singleton_append, List.dropWhile_cons, if_pos hd]
  refine ⟨bp.dropWhile isSpace, split, ?_, .inr hdrop, fun h => ?_⟩
  · unfold convert
    rw [hrule, htold]
    rfl
  · rw [htold]
    exact hsplit h

theorem toldBy_date (tm t : Tm) :
    toldBy tm "%m/%d/%y".toList t = { t with mon := tm.mon, mday := tm.mday, year := tm.year } := by
  have hlist : "%m/%d/%y".toList = ['%', 'm', '/', '%', 'd', '/', '%', 'y'] := by decide
  rw [hlist]
  rfl

theorem toldBy_minutes (tm t : Tm) : toldBy tm "%H:%M".toList t = { t with hour := tm.hour, min := tm.min } := by
  have hlist : "%H:%M".toList = ['%', 'H', ':', '%', 'M'] := by decide
  rw [hlist]
  rfl

theorem toldBy_time (tm t : Tm) :
    toldBy tm "%H:%M:%S".toList t = { t with hour := tm.hour, min := tm.min, sec := tm.sec } := by
  have hlist : "%H:%M:%S".toList = ['%', 'H', ':', '%', 'M', ':', '%', 'S'] := by decide
  rw [hlist]
  rfl

/-- **Every conversion** reads what is printed for it. -/
theorem print_reads (htm : tm.InRange) (h : Strptime.print tm c = some out) : Reads strptime tm c out := by
  unfold Strptime.print at h
  split at h
  · obtain rfl := Option.some.inj h
    refine ReadsBack.reads (fun rest t split hsplit => ⟨split, ?_, hsplit⟩) rfl
    rfl
  · obtain rfl := Option.some.inj h
    exact space_reads rfl rfl fun _ => rfl
  · obtain rfl := Option.some.inj h
    exact space_reads rfl rfl fun _ => rfl
  · obtain ⟨name, hname, rfl⟩ := Option.map_eq_some_iff.mp h
    have hn : (tm.wday.toNat : ℤ) = tm.wday := Int.toNat_of_nonneg htm.wday.1
    refine name_reads rfl (fun rest => (findName_day hname rest).1) (fun t => ?_) (fun _ => rfl) (findName_day hname []).2
    simp only [hn, told]
  · obtain ⟨name, hname, rfl⟩ := Option.map_eq_some_iff.mp h
    have hn : (tm.mon.toNat : ℤ) = tm.mon := Int.toNat_of_nonneg htm.mon.1
    refine name_reads rfl (fun rest => (findName_mon hname rest).1) (fun t => ?_) (fun _ => rfl) (findName_mon hname []).2
    simp only [hn, told]
  · have hrule : rule 'D' = some (0, .complex "%m/%d/%y".toList) := rfl
    exact complex_reads hrule htm h (toldBy_date tm) fun _ _ => rfl
  · have hrule : rule 'x' = some (altE, .complex "%m/%d/%y".toList) := rfl
    exact complex_reads hrule htm h (toldBy_date tm) fun _ _ => rfl
  · have hrule : rule 'R' = some (0, .complex "%H:%M".toList) := rfl
    exact complex_reads hrule htm h (toldBy_minutes tm) fun _ h => h
  · have hrule : rule 'T' = some (0, .complex "%H:%M:%S".toList) := rfl
    exact complex_reads hrule htm h (toldBy_time tm) fun _ h => h
  · have hrule : rule 'X' = some (altE, .complex "%H:%M:%S".toList) := rfl
    exact complex_reads hrule htm h (toldBy_time tm) fun _ h => h
  · exact numbers_reads htm h

end Strptime

open Strptime in
/-- **Round trip**: what `strftime` prints is read to its end, and the fields that it tells are those that
have been printed. -/
theorem strptime_strftime (fmt text : List Char) (tm t : Tm) (h : tm.InRange) (hprint : strftime fmt tm = some text) :
    strptime fmt text t = .ok ([], toldBy tm fmt t) := by
  have hbp : UpToSpace text (text ++ []) := .inl (List.append_nil text).symm
  obtain ⟨bp, split, hloop, hrest⟩ : ∃ bp split,
      loop strptime none fmt ⟨text, t, false⟩ = .ok ⟨bp, toldBy tm fmt t, split⟩ ∧ UpToSpace bp [] :=
    loop_printFormat (fun c out hout => print_reads h hout) hprint hbp (fun h => nomatch h)
  have hnil : bp = [] := by
    rcases hrest with rfl | rfl
    · rfl
    · rfl
  rw [strptime_eq, body, hloop, hnil]
  rfl

open Strptime in
/-- A leap day and a leap second, in the format that `Timer.h` gives as its example. -/
theorem strptime_strftime_leap :
    strptime "%Y%m%d-%H:%M:%S".toList "20240229-23:59:60".toList ⟨0, 0, 0, 1, 0, 0, 0, 0⟩ =
      .ok ([], toldBy ⟨60, 59, 23, 29, 1, 124, 4, 59⟩ "%Y%m%d-%H:%M:%S".toList ⟨0, 0, 0, 1, 0, 0, 0, 0⟩) := by
  refine strptime_strftime _ _ ⟨60, 59, 23, 29, 1, 124, 4, 59⟩ _ ?_ (by decide +kernel)
  exact ⟨by decide, by decide, by decide, by decide, by decide, by decide, by decide, by decide⟩

end Yijinjing
