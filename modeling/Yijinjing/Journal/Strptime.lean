import Yijinjing.Lib.CInt
import Yijinjing.Lib.Text

/-!
# `strptime`

The reader of times that `Timer.cpp` has for systems without one, and `parseTime` calls.  The format is read
from left to right; a `%` starts a conversion, perhaps with a modifier, and each conversion character has a
rule: a number with its limits, a name, a format of its own that is read by a recursive call, and a few
others.  Texts are without the final zero, and a reader that returns `0` leaves the fields as they are then.

Whatever the format and the text, the fields stay in their ranges and what is returned is the rest of the
text (`strptime_inRange`).
-/

namespace Yijinjing

open Lib

/-! ### `Timer.h` -/

/-- `struct tm` -/
structure Tm where
  sec : ℤ
  min : ℤ
  hour : ℤ
  mday : ℤ
  mon : ℤ
  year : ℤ
  wday : ℤ
  yday : ℤ
  deriving DecidableEq

namespace Strptime

/-- `TM_YEAR_BASE` -/
def tmYearBase : ℤ := 1900

/-- `ALT_E` -/
def altE : UInt8 := 0x01
/-- `ALT_O` -/
def altO : UInt8 := 0x02

/-- `LEGAL_ALT(x)` goes on. -/
def legalAlt (x alt : UInt8) : Bool := alt &&& ~~~x == 0

/-- `day` and `abday` -/
def day : List (List Char × List Char) :=
  [("Sunday".toList, "Sun".toList), ("Monday".toList, "Mon".toList), ("Tuesday".toList, "Tue".toList),
    ("Wednesday".toList, "Wed".toList), ("Thursday".toList, "Thu".toList), ("Friday".toList, "Fri".toList),
    ("Saturday".toList, "Sat".toList)]

/-- `mon` and `abmon` -/
def mon : List (List Char × List Char) :=
  [("January".toList, "Jan".toList), ("February".toList, "Feb".toList), ("March".toList, "Mar".toList),
    ("April".toList, "Apr".toList), ("May".toList, "May".toList), ("June".toList, "Jun".toList),
    ("July".toList, "Jul".toList), ("August".toList, "Aug".toList), ("September".toList, "Sep".toList),
    ("October".toList, "Oct".toList), ("November".toList, "Nov".toList), ("December".toList, "Dec".toList)]

/-- `am_pm` -/
def am : List Char := "AM".toList
def pm : List Char := "PM".toList

/-! ### `Timer.cpp` -/

/-- The loop of `conv_num`, on a text that begins with a digit. -/
def convDigits (ulim : ℕ) : (result rulim : ℕ) → List Char → ℕ × List Char
  | result, _, [] => (result, [])
  | result, rulim, c :: buf =>
    let result := result * 10 + (c.toNat - '0'.toNat)
    let rulim := rulim / 10
    if result * 10 ≤ ulim ∧ rulim ≠ 0 ∧ buf.head?.any Char.isDigit then convDigits ulim result rulim buf
    else (result, buf)

/-- `conv_num`; the limit also determines the number of digits. -/
def convNum (buf : List Char) (llim ulim : ℕ) : Option (ℕ × List Char) :=
  if buf.head?.any Char.isDigit then
    let (result, buf) := convDigits ulim 0 ulim buf
    if llim ≤ result ∧ result ≤ ulim then some (result, buf) else none
  else none

/-- The variables of `strptime`; the rest of the format is an argument. -/
structure State where
  bp : List Char
  tm : Tm
  splitYear : Bool

/-- What a conversion does. -/
inductive Rule
  /-- the character itself -/
  | literal (c : Char)
  /-- a format of its own -/
  | complex (fmt : List Char)
  /-- one of the names, which are tried in order -/
  | name (names : List (List Char × List Char)) (store : ℕ → Tm → Tm)
  /-- a number in its limits, and what it stores; `split` is the value of `split_year` then -/
  | number (llim ulim : ℕ) (split : Bool → Bool) (store : Bool → ℕ → Tm → Tm)
  | ampm
  | space

/-- What `%C` makes of the year. -/
def storeCentury (splitYear : Bool) (i : ℕ) (tm : Tm) : Tm :=
  if splitYear then { tm with year := tm.year.tmod 100 + i * 100 } else { tm with year := i * 100 }

/-- What `%y` makes of the year. -/
def storeYear (splitYear : Bool) (i : ℕ) (tm : Tm) : Tm :=
  if splitYear then { tm with year := tm.year.tdiv 100 * 100 + i }
  else if i ≤ 68 then { tm with year := i + 2000 - tmYearBase }
  else { tm with year := i + 1900 - tmYearBase }

/-- What `%I` makes of the hour. -/
def storeHour12 (i : ℕ) (tm : Tm) : Tm := { tm with hour := if i = 12 then 0 else i }

/-- The modifiers that a conversion allows, and its rule. -/
def rule (c : Char) : Option (UInt8 × Rule) :=
  match c with
  | '%' => some (altE ||| altO, .literal '%')
  | 'c' => some (altE, .complex "%x %X".toList)
  | 'D' => some (0, .complex "%m/%d/%y".toList)
  | 'R' => some (0, .complex "%H:%M".toList)
  | 'r' => some (0, .complex "%I:%M:%S %p".toList)
  | 'T' => some (0, .complex "%H:%M:%S".toList)
  | 'X' => some (altE, .complex "%H:%M:%S".toList)
  | 'x' => some (altE, .complex "%m/%d/%y".toList)
  | 'A' | 'a' => some (0, .name day fun i tm => { tm with wday := i })
  | 'B' | 'b' | 'h' => some (0, .name mon fun i tm => { tm with mon := i })
  | 'C' => some (altE, .number 0 99 (fun _ => true) storeCentury)
  | 'd' | 'e' => some (altO, .number 1 31 id fun _ i tm => { tm with mday := i })
  -- both `LEGAL_ALT`s of a case that falls through
  | 'k' => some (0, .number 0 23 id fun _ i tm => { tm with hour := i })
  | 'H' => some (altO, .number 0 23 id fun _ i tm => { tm with hour := i })
  | 'l' => some (0, .number 1 12 id fun _ i tm => storeHour12 i tm)
  | 'I' => some (altO, .number 1 12 id fun _ i tm => storeHour12 i tm)
  | 'j' => some (0, .number 1 366 id fun _ i tm => { tm with yday := i - 1 })
  | 'M' => some (altO, .number 0 59 id fun _ i tm => { tm with min := i })
  | 'm' => some (altO, .number 1 12 id fun _ i tm => { tm with mon := i - 1 })
  | 'p' => some (0, .ampm)
  | 'S' => some (altO, .number 0 61 id fun _ i tm => { tm with sec := i })
  -- only the range is checked
  | 'U' | 'W' => some (altO, .number 0 53 id fun _ _ tm => tm)
  | 'w' => some (altO, .number 0 6 id fun _ i tm => { tm with wday := i })
  | 'Y' => some (altE, .number 0 9999 id fun _ i tm => { tm with year := i - tmYearBase })
  | 'y' => some (altE ||| altO, .number 0 99 (fun _ => true) storeYear)
  | 'n' | 't' => some (0, .space)
  | _ => none

/-- The first name that the text begins with, in full or abbreviated, and the text behind it. -/
def findName : List (List Char × List Char) → ℕ → List Char → Option (ℕ × List Char)
  | [], _, _ => none
  | (full, ab) :: names, i, bp =>
    if full.isPrefixOf bp then some (i, bp.drop full.length)
    else if ab.isPrefixOf bp then some (i, bp.drop ab.length)
    else findName names (i + 1) bp

/-- A reader of a text by a format: the rest of the text and the fields, or the fields when it gives up. -/
abbrev Reader := List Char → List Char → Tm → Except Tm (List Char × Tm)

def readLiteral (c : Char) (s : State) : Except Tm State :=
  match s.bp with
  | [] => .error s.tm
  | d :: bp => if c = d then .ok { s with bp := bp } else .error s.tm

/-- `strcmp` compares all of the text that is left. -/
def readAmpm (s : State) : Except Tm State :=
  if s.bp = am then
    if s.tm.hour > 11 then .error s.tm else .ok { s with bp := s.bp.drop am.length }
  else if s.bp = pm then
    if s.tm.hour > 11 then .error s.tm
    else .ok { s with bp := s.bp.drop pm.length, tm := { s.tm with hour := s.tm.hour + 12 } }
  else .error s.tm

/-- A rule; the formats of the complex ones are read by `sub`. -/
def Rule.read (sub : Reader) (s : State) : Rule → Except Tm State
  | .literal c => readLiteral c s
  | .complex fmt => (sub fmt s.bp s.tm).map fun (bp, tm) => { s with bp := bp, tm := tm }
  | .name names store =>
    match findName names 0 s.bp with
    | some (i, bp) => .ok { s with bp := bp, tm := store i s.tm }
    | none => .error s.tm
  | .number llim ulim split store =>
    match convNum s.bp llim ulim with
    | some (i, bp) => .ok { bp := bp, tm := store s.splitYear i s.tm, splitYear := split s.splitYear }
    | none => .error s.tm
  | .ampm => readAmpm s
  | .space => .ok { s with bp := s.bp.dropWhile isSpace }

def convert (sub : Reader) (c : Char) (alt : UInt8) (s : State) : Except Tm State :=
  match rule c with
  | some (allowed, r) => if legalAlt allowed alt then r.read sub s else .error s.tm
  | none => .error s.tm

/-- The loop of `strptime`; behind a `%` there are the modifiers so far. -/
def loop (sub : Reader) : Option UInt8 → List Char → State → Except Tm State
  | none, [], s => .ok s
  | none, c :: fmt, s =>
    if isSpace c then loop sub none fmt { s with bp := s.bp.dropWhile isSpace }
    else if c = '%' then loop sub (some 0) fmt s
    else (readLiteral c s).bind (loop sub none fmt)
  | some _, [], s => .error s.tm
  | some alt, c :: fmt, s =>
    if c = 'E' then if legalAlt 0 alt then loop sub (some (alt ||| altE)) fmt s else .error s.tm
    else if c = 'O' then if legalAlt 0 alt then loop sub (some (alt ||| altO)) fmt s else .error s.tm
    else (convert sub c alt s).bind (loop sub none fmt)

/-- A call of `strptime`; the recursive calls are calls of `sub`. -/
def body (sub : Reader) : Reader := fun fmt bp tm => (loop sub none fmt ⟨bp, tm, false⟩).map fun s => (s.bp, s.tm)

/-- `strptime` with so many calls inside each other. -/
def nested : ℕ → Reader
  | 0 => fun _ _ tm => .error tm
  | depth + 1 => body (nested depth)

end Strptime

open Strptime in
/-- `strptime`: `%c` calls `%x`, which calls numbers. -/
def strptime : Reader := nested 3

namespace Strptime

/-! ### Calls inside each other -/

/-- The format that a conversion reads by a call. -/
def Rule.format : Rule → Option (List Char)
  | .complex fmt => some fmt
  | _ => none

def callee (c : Char) : Option (List Char) := (rule c).bind fun r => r.2.format

/-- A format without calls. -/
def Flat (fmt : List Char) : Prop := ∀ c ∈ fmt, callee c = none

instance (fmt : List Char) : Decidable (Flat fmt) := List.decidableBAll _ fmt

variable {sub sub' : Reader} {c : Char} {fmt : List Char} {s t : State} {tm : Tm}

theorem callee_flat (h : callee c = some fmt) : fmt = "%x %X".toList ∨ Flat fmt := by
  unfold callee rule at h
  split at h
  all_goals first
    | cases h
      done
    | obtain rfl := Option.some.inj h
      decide

theorem convert_congr (h : ∀ f, callee c = some f → sub f = sub' f) (alt : UInt8) (s : State) :
    convert sub c alt s = convert sub' c alt s := by
  unfold convert
  cases hrule : rule c with
  | none => rfl
  | some r =>
    obtain ⟨allowed, r⟩ := r
    have hread : r.read sub s = r.read sub' s := by
      cases r with
      | complex f =>
        have hf : sub f = sub' f := h f (by rw [callee, hrule]; rfl)
        simp only [Rule.read, hf]
      | _ => rfl
    simp only [hread]

/-- The loop depends on the calls that the format makes. -/
theorem loop_congr (h : ∀ c ∈ fmt, ∀ f, callee c = some f → sub f = sub' f) (mode : Option UInt8) (s : State) :
    loop sub mode fmt s = loop sub' mode fmt s := by
  induction fmt generalizing mode s with
  | nil => cases mode <;> rfl
  | cons c fmt ih =>
    have ih := ih fun d hd => h d (List.mem_cons_of_mem c hd)
    have hrest : loop sub none fmt = loop sub' none fmt := funext (ih none)
    cases mode with
    | none => simp only [loop, ih, hrest]
    | some alt => simp only [loop, ih, convert_congr (h c List.mem_cons_self), hrest]

theorem body_congr (h : ∀ c ∈ fmt, ∀ f, callee c = some f → sub f = sub' f) : body sub fmt = body sub' fmt := by
  funext bp tm
  simp only [body, loop_congr h]

theorem nested_flat (h : Flat fmt) (d d' : ℕ) : nested (d + 1) fmt = nested (d' + 1) fmt :=
  body_congr fun c hc _ hf => nomatch (h c hc).symm.trans hf

/-- Two calls inside each other are enough for a format that a conversion reads. -/
theorem nested_callee (h : callee c = some fmt) (d d' : ℕ) : nested (d + 2) fmt = nested (d' + 2) fmt := by
  rcases callee_flat h with rfl | hflat
  · refine body_congr fun c hc f hf => ?_
    have hall : ∀ c ∈ "%x %X".toList, ∀ f ∈ callee c, Flat f := List.forall_iff_forall_mem.mp (by decide)
    exact nested_flat (hall c hc f hf) d d'
  · exact nested_flat hflat _ _

end Strptime

open Strptime in
/-- **The recursive calls of `strptime`** are calls of `strptime`. -/
theorem strptime_eq : strptime = body strptime := by
  funext fmt
  exact body_congr fun c _ f hf => nested_callee hf 0 1

/-! ### Ranges -/

/-- The fields are in their ranges; the year goes up to 9999 because `%C` does not subtract its base. -/
structure Tm.InRange (tm : Tm) : Prop where
  sec : 0 ≤ tm.sec ∧ tm.sec ≤ 61
  min : 0 ≤ tm.min ∧ tm.min ≤ 59
  hour : 0 ≤ tm.hour ∧ tm.hour ≤ 23
  mday : 1 ≤ tm.mday ∧ tm.mday ≤ 31
  mon : 0 ≤ tm.mon ∧ tm.mon ≤ 11
  year : -1900 ≤ tm.year ∧ tm.year ≤ 9999
  wday : 0 ≤ tm.wday ∧ tm.wday ≤ 6
  yday : 0 ≤ tm.yday ∧ tm.yday ≤ 365

namespace Tm.InRange

variable {tm : Tm} {v : ℤ}

theorem set_sec (h : tm.InRange) (hv : 0 ≤ v ∧ v ≤ 61) : { tm with sec := v }.InRange := { h with sec := hv }
theorem set_min (h : tm.InRange) (hv : 0 ≤ v ∧ v ≤ 59) : { tm with min := v }.InRange := { h with min := hv }
theorem set_hour (h : tm.InRange) (hv : 0 ≤ v ∧ v ≤ 23) : { tm with hour := v }.InRange := { h with hour := hv }
theorem set_mday (h : tm.InRange) (hv : 1 ≤ v ∧ v ≤ 31) : { tm with mday := v }.InRange := { h with mday := hv }
theorem set_mon (h : tm.InRange) (hv : 0 ≤ v ∧ v ≤ 11) : { tm with mon := v }.InRange := { h with mon := hv }
theorem set_year (h : tm.InRange) (hv : -1900 ≤ v ∧ v ≤ 9999) : { tm with year := v }.InRange := { h with year := hv }
theorem set_wday (h : tm.InRange) (hv : 0 ≤ v ∧ v ≤ 6) : { tm with wday := v }.InRange := { h with wday := hv }
theorem set_yday (h : tm.InRange) (hv : 0 ≤ v ∧ v ≤ 365) : { tm with yday := v }.InRange := { h with yday := hv }

end Tm.InRange

namespace Strptime

variable {sub : Reader} {c : Char} {fmt bp rest : List Char} {s : State} {tm : Tm} {n llim ulim : ℕ}

theorem convDigits_suffix (result rulim : ℕ) (buf : List Char) : (convDigits ulim result rulim buf).2 <:+ buf := by
  induction buf generalizing result rulim with
  | nil => exact List.suffix_refl []
  | cons c buf ih =>
    unfold convDigits
    dsimp only
    split
    · exact (ih _ _).trans (List.suffix_cons c buf)
    · exact List.suffix_cons c buf

/-- **A number** is in its limits, and something is behind it. -/
theorem convNum_some (h : convNum bp llim ulim = some (n, rest)) : llim ≤ n ∧ n ≤ ulim ∧ rest <:+ bp := by
  unfold convNum at h
  split at h
  · dsimp only at h
    split at h
    · rename_i hlim
      obtain ⟨rfl, rfl⟩ := Prod.mk.inj (Option.some.inj h)
      exact ⟨hlim.1, hlim.2, convDigits_suffix 0 ulim bp⟩
    · cases h
  · cases h

theorem findName_some {names : List (List Char × List Char)} {i : ℕ} (h : findName names i bp = some (n, rest)) :
    n < i + names.length ∧ rest <:+ bp := by
  induction names generalizing i with
  | nil => cases h
  | cons name names ih =>
    obtain ⟨full, ab⟩ := name
    unfold findName at h
    rw [List.length_cons]
    split at h
    · obtain ⟨rfl, rfl⟩ := Prod.mk.inj (Option.some.inj h)
      exact ⟨by omega, List.drop_suffix _ bp⟩
    · split at h
      · obtain ⟨rfl, rfl⟩ := Prod.mk.inj (Option.some.inj h)
        exact ⟨by omega, List.drop_suffix _ bp⟩
      · obtain ⟨hlt, hrest⟩ := ih h
        exact ⟨by omega, hrest⟩

/-- What the rule stores is in range. -/
def Rule.Fits : Rule → Prop
  | .name names store => ∀ i < names.length, ∀ tm : Tm, tm.InRange → (store i tm).InRange
  | .number llim ulim _ store => ∀ i, llim ≤ i → i ≤ ulim → ∀ split, ∀ tm : Tm, tm.InRange → (store split i tm).InRange
  | _ => True

theorem storeCentury_inRange (hn : n ≤ 99) (split : Bool) (h : tm.InRange) : (storeCentury split n tm).InRange := by
  have hmod := Int.tmod_lt_of_pos tm.year (by decide : (0 : ℤ) < 100)
  have hmod' := Int.lt_tmod_of_pos tm.year (by decide : (0 : ℤ) < 100)
  cases split with
  | true => exact h.set_year ⟨by omega, by omega⟩
  | false => exact h.set_year ⟨by omega, by omega⟩

theorem storeYear_inRange (hn : n ≤ 99) (split : Bool) (h : tm.InRange) : (storeYear split n tm).InRange := by
  obtain ⟨hlo, hhi⟩ := h.year
  have hbase : tmYearBase = 1900 := rfl
  cases split with
  | true =>
    have hdiv : -19 ≤ tm.year.tdiv 100 ∧ tm.year.tdiv 100 ≤ 99 := by
      have hmod := Int.tmod_lt_of_pos tm.year (by decide : (0 : ℤ) < 100)
      have hmod' := Int.lt_tmod_of_pos tm.year (by decide : (0 : ℤ) < 100)
      have hsum := Int.mul_tdiv_add_tmod tm.year 100
      rcases Int.le_total 0 tm.year with h0 | h0
      · have hmod₀ := Int.tmod_nonneg 100 h0
        omega
      · omega
    exact h.set_year ⟨by omega, by omega⟩
  | false =>
    unfold storeYear
    rw [if_neg Bool.false_ne_true]
    split
    · exact h.set_year ⟨by omega, by omega⟩
    · exact h.set_year ⟨by omega, by omega⟩

theorem storeHour12_inRange (hn : n ≤ 12) (h : tm.InRange) : (storeHour12 n tm).InRange := by
  refine h.set_hour ?_
  split
  · omega
  · omega

theorem day_length : day.length = 7 := rfl
theorem mon_length : mon.length = 12 := rfl

theorem rule_fits {allowed : UInt8} {r : Rule} (h : rule c = some (allowed, r)) : r.Fits := by
  unfold rule at h
  split at h
  case h_33 => cases h
  all_goals obtain ⟨-, rfl⟩ := Prod.mk.inj (Option.some.inj h)
  all_goals first
    | trivial
    | exact fun i hi tm h => h.set_wday ⟨by omega, by rw [day_length] at hi; omega⟩
    | exact fun i hi tm h => h.set_mon ⟨by omega, by rw [mon_length] at hi; omega⟩
    | exact fun i _ hhi split tm h => storeCentury_inRange hhi split h
    | exact fun i _ hhi split tm h => storeYear_inRange hhi split h
    | exact fun i _ hhi _ tm h => storeHour12_inRange hhi h
    | exact fun i hlo hhi _ tm h => h.set_sec ⟨by omega, by omega⟩
    | exact fun i hlo hhi _ tm h => h.set_min ⟨by omega, by omega⟩
    | exact fun i hlo hhi _ tm h => h.set_hour ⟨by omega, by omega⟩
    | exact fun i hlo hhi _ tm h => h.set_mday ⟨by omega, by omega⟩
    | exact fun i hlo hhi _ tm h => h.set_mon ⟨by omega, by omega⟩
    | exact fun i hlo hhi _ tm h => h.set_wday ⟨by omega, by omega⟩
    | exact fun i hlo hhi _ tm h => h.set_yday ⟨by omega, by omega⟩
    | exact fun i hlo hhi _ tm h => h.set_year ⟨by unfold tmYearBase; omega, by unfold tmYearBase; omega⟩
    | exact fun _ _ _ _ _ h => h

/-- The fields are in range, and the text that is left is an end of the text. -/
def Sound (bp : List Char) : Except Tm (List Char × Tm) → Prop
  | .ok (rest, tm) => rest <:+ bp ∧ tm.InRange
  | .error tm => tm.InRange

/-- The same of a state of the loop. -/
def Keeps (bp : List Char) : Except Tm State → Prop
  | .ok t => t.bp <:+ bp ∧ t.tm.InRange
  | .error tm => tm.InRange

theorem Keeps.bind {x : Except Tm State} {f : State → Except Tm State} (hx : Keeps bp x)
    (hf : ∀ t : State, t.bp <:+ bp → t.tm.InRange → Keeps bp (f t)) : Keeps bp (x.bind f) := by
  cases x with
  | error tm => exact hx
  | ok t => exact hf t hx.1 hx.2

theorem Keeps.widen {x : Except Tm State} (hx : Keeps rest x) (h : rest <:+ bp) : Keeps bp x := by
  cases x with
  | error tm => exact hx
  | ok t => exact ⟨hx.1.trans h, hx.2⟩

theorem readLiteral_keeps (h : s.tm.InRange) : Keeps s.bp (readLiteral c s) := by
  unfold readLiteral
  cases hbp : s.bp with
  | nil => exact h
  | cons d bp =>
    dsimp only
    split
    · exact ⟨List.suffix_cons d bp, h⟩
    · exact h

theorem readAmpm_keeps (h : s.tm.InRange) : Keeps s.bp (readAmpm s) := by
  obtain ⟨hlo, -⟩ := h.hour
  unfold readAmpm
  split
  · split
    · exact h
    · exact ⟨List.drop_suffix _ _, h⟩
  · split
    · split
      · exact h
      · exact ⟨List.drop_suffix _ _, h.set_hour ⟨by omega, by omega⟩⟩
    · exact h

theorem Rule.read_keeps {r : Rule} (hsub : ∀ fmt bp tm, Tm.InRange tm → Sound bp (sub fmt bp tm)) (hr : r.Fits)
    (h : s.tm.InRange) : Keeps s.bp (r.read sub s) := by
  cases r with
  | literal c => exact readLiteral_keeps h
  | complex fmt =>
    have hs := hsub fmt s.bp s.tm h
    simp only [Rule.read]
    cases hx : sub fmt s.bp s.tm with
    | error tm =>
      rw [hx] at hs
      exact hs
    | ok r =>
      rw [hx] at hs
      exact hs
  | name names store =>
    simp only [Rule.read]
    split
    · rename_i i rest hname
      obtain ⟨hi, hrest⟩ := findName_some hname
      exact ⟨hrest, hr i (by omega) s.tm h⟩
    · exact h
  | number llim ulim split store =>
    simp only [Rule.read]
    split
    · rename_i i rest hnum
      obtain ⟨hlo, hhi, hrest⟩ := convNum_some hnum
      exact ⟨hrest, hr i hlo hhi s.splitYear s.tm h⟩
    · exact h
  | ampm => exact readAmpm_keeps h
  | space => exact ⟨List.dropWhile_suffix _, h⟩

theorem convert_keeps (hsub : ∀ fmt bp tm, Tm.InRange tm → Sound bp (sub fmt bp tm)) (alt : UInt8) (h : s.tm.InRange) :
    Keeps s.bp (convert sub c alt s) := by
  unfold convert
  split
  · rename_i hrule
    split
    · exact Rule.read_keeps hsub (rule_fits hrule) h
    · exact h
  · exact h

theorem loop_keeps (hsub : ∀ fmt bp tm, Tm.InRange tm → Sound bp (sub fmt bp tm)) (mode : Option UInt8)
    (hs : s.bp <:+ bp) (h : s.tm.InRange) : Keeps bp (loop sub mode fmt s) := by
  induction fmt generalizing mode s with
  | nil =>
    cases mode with
    | none => exact ⟨hs, h⟩
    | some alt => exact h
  | cons c fmt ih =>
    cases mode with
    | none =>
      unfold loop
      split
      · exact ih none ((List.dropWhile_suffix _).trans hs) h
      · split
        · exact ih (some 0) hs h
        · exact ((readLiteral_keeps h).widen hs).bind fun t ht htm => ih none ht htm
    | some alt =>
      unfold loop
      split
      · split
        · exact ih _ hs h
        · exact h
      · split
        · split
          · exact ih _ hs h
          · exact h
        · exact ((convert_keeps hsub alt h).widen hs).bind fun t ht htm => ih none ht htm

theorem body_sound (hsub : ∀ fmt bp tm, Tm.InRange tm → Sound bp (sub fmt bp tm)) (fmt bp : List Char) (tm : Tm)
    (h : tm.InRange) : Sound bp (body sub fmt bp tm) := by
  have hloop : Keeps bp (loop sub none fmt ⟨bp, tm, false⟩) := loop_keeps hsub none (List.suffix_refl bp) h
  unfold body
  cases hx : loop sub none fmt ⟨bp, tm, false⟩ with
  | error tm' =>
    rw [hx] at hloop
    exact hloop
  | ok t =>
    rw [hx] at hloop
    exact hloop

theorem nested_sound (depth : ℕ) (fmt bp : List Char) (tm : Tm) (h : tm.InRange) :
    Sound bp (nested depth fmt bp tm) := by
  induction depth generalizing fmt bp tm with
  | zero => exact h
  | succ depth ih => exact body_sound ih fmt bp tm h

end Strptime

/-- **Whatever the format and the text**, what is returned is an end of the text, and the fields are in range
also if the text does not match. -/
theorem strptime_inRange (fmt bp : List Char) (tm : Tm) (h : tm.InRange) : Strptime.Sound bp (strptime fmt bp tm) :=
  Strptime.nested_sound 3 fmt bp tm h

/-- A text with a minute that does not exist. -/
theorem strptime_inRange_day : Strptime.Sound "10:61 Sun".toList
    (strptime "%H:%M %a".toList "10:61 Sun".toList ⟨0, 0, 0, 1, 0, 0, 0, 0⟩) := by
  refine strptime_inRange "%H:%M %a".toList "10:61 Sun".toList ⟨0, 0, 0, 1, 0, 0, 0, 0⟩ ?_
  exact ⟨by decide, by decide, by decide, by decide, by decide, by decide, by decide, by decide⟩

end Yijinjing
