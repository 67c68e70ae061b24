import Mathlib.Algebra.Group.Nat.Defs
import Mathlib.Data.Int.Basic
import Mathlib.Data.List.Basic

/-!
# Decimal numbers and separated texts

The decimal text of an integer and its reading, and the two facts that make a text built with separators
readable: the part behind the last separator can be split off, and a decimal text has no characters but
digits and a sign.
-/

namespace Yijinjing.Lib

/-- `std::to_string` of an integer. -/
def decimal : ℤ → List Char
  | .ofNat n => Nat.toDigits 10 n
  | .negSucc n => '-' :: Nat.toDigits 10 (n + 1)

theorem mem_decimal {n : ℤ} {c : Char} (hc : c ∈ decimal n) : c = '-' ∨ c.isDigit := by
  cases n with
  | ofNat n => exact .inr (Nat.isDigit_of_mem_toDigits (by decide) (by decide) hc)
  | negSucc n =>
    rcases List.mem_cons.mp hc with rfl | hc
    · exact .inl rfl
    · exact .inr (Nat.isDigit_of_mem_toDigits (by decide) (by decide) hc)

theorem decimal_ne_nil (n : ℤ) : decimal n ≠ [] := by
  cases n with
  | ofNat n => exact Nat.toDigits_ne_nil
  | negSucc n => exact List.cons_ne_nil _ _

/-- Only a negative number has a sign. -/
theorem forall_isDigit_decimal {n : ℤ} : (∀ c ∈ decimal n, c.isDigit) ↔ 0 ≤ n := by
  cases n with
  | ofNat n =>
    exact ⟨fun _ => Int.natCast_nonneg n, fun _ c hc => Nat.isDigit_of_mem_toDigits (by decide) (by decide) hc⟩
  | negSucc n =>
    refine ⟨fun h => ?_, fun h => absurd h (by omega)⟩
    exact absurd (h '-' List.mem_cons_self) (by decide)

theorem toDigits_injective {m n : ℕ} (h : Nat.toDigits 10 m = Nat.toDigits 10 n) : m = n := by
  rw [← Nat.ofDigitChars_ten_toDigits (n := m), h, Nat.ofDigitChars_ten_toDigits]

theorem decimal_injective : Function.Injective decimal := by
  have hsign : ∀ m n, Nat.toDigits 10 m ≠ '-' :: n := fun m n h => by
    have hdigit := Nat.isDigit_of_mem_toDigits (by decide : 0 < 10) (by decide : 10 ≤ 10)
      (by rw [h]; exact List.mem_cons_self .. : '-' ∈ Nat.toDigits 10 m)
    exact absurd hdigit (by decide)
  intro m n h
  cases m with
  | ofNat m =>
    cases n with
    | ofNat n => exact congrArg Int.ofNat (toDigits_injective h)
    | negSucc n => exact absurd h (hsign _ _)
  | negSucc m =>
    cases n with
    | ofNat n => exact absurd h.symm (hsign _ _)
    | negSucc n =>
      have hdigits : Nat.toDigits 10 (m + 1) = Nat.toDigits 10 (n + 1) := (List.cons.inj h).2
      exact congrArg Int.negSucc (Nat.succ.inj (toDigits_injective hdigits))

/-! ### Reading a number -/

/-- `isspace` -/
def isSpace (c : Char) : Bool := c == ' ' || (decide (9 ≤ c.toNat) && decide (c.toNat ≤ 13))

/-- The value of the digits that a text begins with. -/
def digitsValue (cs : List Char) : ℕ := Nat.ofDigitChars 10 (cs.takeWhile Char.isDigit) 0

/-- `atoi`, for a number that fits. -/
def atoi (cs : List Char) : ℤ :=
  match cs.dropWhile isSpace with
  | '-' :: ds => -(digitsValue ds)
  | '+' :: ds => digitsValue ds
  | ds => digitsValue ds

/-- `std::string::substr`; `none` stands for the exception. -/
def substr {α : Type*} (cs : List α) (pos count : ℕ) : Option (List α) :=
  if pos ≤ cs.length then some ((cs.drop pos).take count) else none

theorem digitsValue_toDigits (n : ℕ) {rest : List Char} (hrest : ∀ c ∈ rest.head?, c.isDigit = false) :
    digitsValue (Nat.toDigits 10 n ++ rest) = n := by
  have hdigits : ∀ c ∈ Nat.toDigits 10 n, c.isDigit = true := fun c hc =>
    Nat.isDigit_of_mem_toDigits (by decide) (by decide) hc
  have hstop : rest.takeWhile Char.isDigit = [] := by
    cases rest with
    | nil => rfl
    | cons c cs => rw [List.takeWhile_cons, hrest c rfl, if_neg (by decide)]
  unfold digitsValue
  rw [List.takeWhile_append_of_pos hdigits, hstop, List.append_nil, Nat.ofDigitChars_ten_toDigits]

theorem isDigit_not_isSpace {c : Char} (hc : c.isDigit = true) :
    isSpace c = false ∧ c ≠ '-' ∧ c ≠ '+' := by
  have hlow : 48 ≤ c.toNat := by
    have h := hc
    simp only [Char.isDigit, Bool.and_eq_true, decide_eq_true_eq] at h
    exact h.1
  refine ⟨?_, ?_, ?_⟩
  · have hne : c ≠ ' ' := by rintro rfl; exact absurd hc (by decide)
    have hlt : ¬ c.toNat ≤ 13 := by omega
    simp [isSpace, hne, hlt]
  · rintro rfl
    exact absurd hc (by decide)
  · rintro rfl
    exact absurd hc (by decide)

/-- **A decimal text is read back**, whatever follows it that is no digit. -/
theorem atoi_decimal (n : ℤ) {rest : List Char} (hrest : ∀ c ∈ rest.head?, c.isDigit = false) :
    atoi (decimal n ++ rest) = n := by
  cases n with
  | negSucc n =>
    have hdrop : (decimal (.negSucc n) ++ rest).dropWhile isSpace =
        '-' :: (Nat.toDigits 10 (n + 1) ++ rest) := rfl
    unfold atoi
    rw [hdrop]
    exact congrArg (fun k : ℕ => -(k : ℤ)) (digitsValue_toDigits (n + 1) hrest)
  | ofNat n =>
    have hval := digitsValue_toDigits n hrest
    obtain ⟨d, ds, hds⟩ := List.exists_cons_of_ne_nil (Nat.toDigits_ne_nil (n := n) (b := 10))
    have hd : d.isDigit = true :=
      Nat.isDigit_of_mem_toDigits (by decide : 0 < 10) (by decide : 10 ≤ 10) (hds ▸ List.mem_cons_self)
    obtain ⟨hspace, hminus, hplus⟩ := isDigit_not_isSpace hd
    have htext : decimal (.ofNat n) ++ rest = d :: (ds ++ rest) := by
      rw [decimal, hds, List.cons_append]
    have hdrop : (d :: (ds ++ rest)).dropWhile isSpace = d :: (ds ++ rest) := by
      rw [List.dropWhile_cons, hspace, if_neg (by decide)]
    unfold atoi
    rw [htext, hdrop]
    rw [hds, List.cons_append] at hval
    split
    · rename_i heq
      exact absurd (List.cons.inj heq).1 hminus
    · rename_i heq
      exact absurd (List.cons.inj heq).1 hplus
    · exact congrArg Int.ofNat hval

/-! ### Numbers of fixed width -/

/-- The last `w` decimal digits of a number. -/
def padded : ℕ → ℕ → List Char
  | 0, _ => []
  | w + 1, n => Nat.digitChar (n / 10 ^ w % 10) :: padded w n

theorem digitChar_lt {d : ℕ} (h : d < 10) :
    (Nat.digitChar d).isDigit = true ∧ (Nat.digitChar d).toNat - '0'.toNat = d := by
  have hall : ∀ d < 10, (Nat.digitChar d).isDigit = true ∧ (Nat.digitChar d).toNat - '0'.toNat = d := by decide
  exact hall d h

/-- A number in front of any text. -/
theorem head_padded (w n : ℕ) (rest : List Char) : (padded (w + 1) n ++ rest).head?.any Char.isDigit = true :=
  (digitChar_lt (Nat.mod_lt _ (by decide))).1

/-! ### Separators -/

variable {α : Type*} {x₁ x₂ z₁ z₂ : List α} {a : α}

/-- The part behind the last separator. -/
theorem append_sep_inj (h : x₁ ++ a :: z₁ = x₂ ++ a :: z₂) (h₁ : a ∉ z₁) (h₂ : a ∉ z₂) :
    x₁ = x₂ ∧ z₁ = z₂ := by
  rcases List.append_eq_append_iff.mp h with ⟨ys, rfl, hys⟩ | ⟨ys, rfl, hys⟩
  · cases ys with
    | nil => exact ⟨(List.append_nil _).symm, (List.cons.inj hys).2⟩
    | cons y ys =>
      rw [List.cons_append] at hys
      have hz := (List.cons.inj hys).2
      exact absurd (by rw [hz]; simp) h₁
  · cases ys with
    | nil => exact ⟨List.append_nil _, (List.cons.inj hys).2.symm⟩
    | cons y ys =>
      rw [List.cons_append] at hys
      have hz := (List.cons.inj hys).2
      exact absurd (by rw [hz]; simp) h₂

end Yijinjing.Lib
