import Mathlib.Computability.Language

/-!
# Patterns of classes

A pattern is a sequence of classes of letters, each matched once or at least once.  `isMatch` decides
whether a whole text matches, and `lang` is the language of a pattern (`isMatch_iff`).

`Pattern.parse` reads the part of the Perl syntax of regular expressions that such patterns are written
in: letters, `.` for any letter, `\` before a letter that would be special, a range `[a-z]`, and `+`.
-/

namespace Yijinjing.Lib

variable {α : Type*}

/-- A class of letters, matched once or at least once. -/
structure Piece (α : Type*) where
  admits : α → Bool
  many : Bool

abbrev Pattern (α : Type*) := List (Piece α)

/-- The class, matched once. -/
def Piece.once (admits : α → Bool) : Piece α := ⟨admits, false⟩

/-- The words of a piece. -/
def Piece.lang (p : Piece α) : Language α :=
  Set.ofPred fun w => w ≠ [] ∧ (∀ c ∈ w, p.admits c) ∧ (p.many = false → w.length = 1)

theorem Piece.mem_lang {p : Piece α} {w : List α} :
    w ∈ p.lang ↔ w ≠ [] ∧ (∀ c ∈ w, p.admits c) ∧ (p.many = false → w.length = 1) := Iff.rfl

namespace Pattern

/-- The texts that match the pattern. -/
def lang (ps : Pattern α) : Language α := (ps.map Piece.lang).prod

/-- Whether the whole text matches. -/
def isMatch : Pattern α → List α → Bool
  | [], [] => true
  | [], _ :: _ => false
  | _ :: _, [] => false
  | p :: ps, c :: cs => p.admits c && (isMatch ps cs || (p.many && isMatch (p :: ps) cs))

variable {p : Piece α} {ps qs : Pattern α} {c : α} {cs w : List α}

@[simp] theorem lang_nil : lang ([] : Pattern α) = 1 := rfl

theorem lang_cons : lang (p :: ps) = p.lang * lang ps := List.prod_cons

theorem lang_append : lang (ps ++ qs) = lang ps * lang qs := by
  unfold lang
  rw [List.map_append, List.prod_append]

theorem nil_notMem_piece : [] ∉ p.lang := fun h => h.1 rfl

/-- The first letter of a text that begins with a piece. -/
theorem cons_mem_lang_cons : c :: cs ∈ lang (p :: ps) ↔
    p.admits c ∧ (cs ∈ lang ps ∨ p.many ∧ cs ∈ lang (p :: ps)) := by
  simp only [lang_cons, Language.mem_mul]
  constructor
  · rintro ⟨u, hu, v, hv, huv⟩
    cases u with
    | nil => exact absurd hu nil_notMem_piece
    | cons d u =>
      obtain ⟨rfl, rfl⟩ := List.cons.inj huv
      obtain ⟨-, hall, hone⟩ := Piece.mem_lang.mp hu
      refine ⟨hall d List.mem_cons_self, ?_⟩
      cases u with
      | nil => exact .inl hv
      | cons e u =>
        -- a second letter is there only if the class may be repeated
        have hmany : p.many = true := by
          by_contra hmany
          have hlen := hone (Bool.not_eq_true _ ▸ hmany)
          simp at hlen
        refine .inr ⟨hmany, e :: u, ?_, v, hv, rfl⟩
        exact ⟨List.cons_ne_nil _ _, fun x hx => hall x (List.mem_cons_of_mem d hx),
          fun h => Bool.noConfusion (hmany.symm.trans h)⟩
  · rintro ⟨hc, hcs | ⟨hmany, u, hu, v, hv, rfl⟩⟩
    · refine ⟨[c], ⟨List.cons_ne_nil _ _, fun x hx => ?_, fun _ => rfl⟩, cs, hcs, rfl⟩
      exact List.mem_singleton.mp hx ▸ hc
    · obtain ⟨-, hall, -⟩ := Piece.mem_lang.mp hu
      refine ⟨c :: u, ⟨List.cons_ne_nil _ _, fun x hx => ?_, fun h => ?_⟩, v, hv, rfl⟩
      · rcases List.mem_cons.mp hx with rfl | hx
        · exact hc
        · exact hall x hx
      · exact Bool.noConfusion (hmany.symm.trans h)

theorem nil_notMem_lang_cons : [] ∉ lang (p :: ps) := by
  rw [lang_cons, Language.mem_mul]
  rintro ⟨u, hu, v, -, huv⟩
  obtain ⟨rfl, -⟩ := List.append_eq_nil_iff.mp huv
  exact nil_notMem_piece hu

/-- **The matcher decides the language.** -/
theorem isMatch_iff : isMatch ps w = true ↔ w ∈ lang ps := by
  induction w generalizing ps with
  | nil =>
    cases ps with
    | nil => exact ⟨fun _ => Language.nil_mem_one, fun _ => rfl⟩
    | cons p ps => exact ⟨fun h => Bool.noConfusion h, fun h => absurd h nil_notMem_lang_cons⟩
  | cons c cs ih =>
    cases ps with
    | nil =>
      refine ⟨fun h => Bool.noConfusion h, fun h => ?_⟩
      cases (Language.mem_one _).mp h
    | cons p ps =>
      rw [cons_mem_lang_cons, isMatch, Bool.and_eq_true, Bool.or_eq_true, Bool.and_eq_true, ih, ih]

/-- The words of a sequence of classes. -/
theorem mem_lang_once {fs : List (α → Bool)} :
    w ∈ lang (fs.map Piece.once) ↔ List.Forall₂ (fun f c => f c = true) fs w := by
  induction fs generalizing w with
  | nil =>
    rw [List.map_nil, lang_nil, Language.mem_one, List.forall₂_nil_left_iff]
  | cons f fs ih =>
    cases w with
    | nil => exact ⟨fun h => absurd h nil_notMem_lang_cons, fun h => by cases h⟩
    | cons c cs =>
      rw [List.map_cons, cons_mem_lang_cons, List.forall₂_cons, ← ih]
      simp [Piece.once]

/-- The words of one class, matched at least once. -/
theorem mem_lang_many {f : α → Bool} : w ∈ lang [⟨f, true⟩] ↔ w ≠ [] ∧ ∀ c ∈ w, f c = true := by
  rw [lang_cons, lang_nil, mul_one, Piece.mem_lang]
  simp

/-! ### The syntax -/

/-- A class of characters, or the sign that repeats it. -/
inductive Token where
  | cls (admits : Char → Bool)
  | plus

/-- The characters that stand for themselves in a pattern. -/
def isLiteral (c : Char) : Bool := !("\\.[]+*?(){}|^$".toList.contains c)

/-- The tokens of a pattern, if it is one of the modelled syntax. -/
def tokens : List Char → Option (List Token)
  | [] => some []
  | '\\' :: c :: cs => if c.isAlphanum then none else (tokens cs).map (.cls (· == c) :: ·)
  | '[' :: lo :: '-' :: hi :: ']' :: cs =>
    if lo.isAlphanum && hi.isAlphanum then
      (tokens cs).map (.cls (fun c => decide (lo ≤ c) && decide (c ≤ hi)) :: ·)
    else none
  | '.' :: cs => (tokens cs).map (.cls (fun _ => true) :: ·)
  | '+' :: cs => (tokens cs).map (.plus :: ·)
  | c :: cs => if isLiteral c then (tokens cs).map (.cls (· == c) :: ·) else none

/-- A sign behind a class repeats it; behind nothing, or behind another sign, there is none. -/
def pieces : List Token → Option (Pattern Char)
  | [] => some []
  | .plus :: _ => none
  | .cls f :: .plus :: ts => (pieces ts).map (⟨f, true⟩ :: ·)
  | .cls f :: ts => (pieces ts).map (.once f :: ·)

/-- Read a pattern. -/
def parse (cs : List Char) : Option (Pattern Char) := (tokens cs).bind pieces

/-- What one character stands for, if it is a literal or the dot. -/
def charClass (c : Char) : Char → Bool := fun d => c == '.' || d == c

/-- A literal, which is not the dot, is a class of its own. -/
theorem charClass_literal {c : Char} (hc : c ≠ '.') : charClass c = (· == c) := by
  funext d
  simp [charClass, hc]

theorem tokens_cons {c : Char} {cs : List Char} (hc : isLiteral c ∨ c = '.') :
    tokens (c :: cs) = (tokens cs).map (.cls (charClass c) :: ·) := by
  by_cases hdot : c = '.'
  · subst hdot
    rw [tokens]
    rfl
  · have hlit : isLiteral c = true := hc.resolve_right hdot
    have hne : c ≠ '\\' ∧ c ≠ '[' ∧ c ≠ '+' := by
      refine ⟨?_, ?_, ?_⟩ <;> rintro rfl <;> exact absurd hlit (by decide)
    rw [charClass_literal hdot, tokens, if_pos hlit] <;> simp_all

theorem tokens_append {w cs : List Char} (hw : ∀ c ∈ w, isLiteral c ∨ c = '.') :
    tokens (w ++ cs) = (tokens cs).map (w.map (fun c => .cls (charClass c)) ++ ·) := by
  induction w with
  | nil => simp
  | cons c w ih =>
    rw [List.cons_append, tokens_cons (hw c List.mem_cons_self),
      ih fun d hd => hw d (List.mem_cons_of_mem c hd), Option.map_map]
    rfl

theorem tokens_escape {c : Char} {cs : List Char} (hc : c.isAlphanum = false) :
    tokens ('\\' :: c :: cs) = (tokens cs).map (.cls (· == c) :: ·) := by
  rw [tokens, hc, if_neg (by decide)]

theorem tokens_range {lo hi : Char} {cs : List Char} (hlo : lo.isAlphanum = true) (hhi : hi.isAlphanum = true) :
    tokens ('[' :: lo :: '-' :: hi :: ']' :: cs) =
      (tokens cs).map (.cls (fun c => decide (lo ≤ c) && decide (c ≤ hi)) :: ·) := by
  rw [tokens, hlo, hhi, if_pos (by decide)]

theorem tokens_plus {cs : List Char} : tokens ('+' :: cs) = (tokens cs).map (.plus :: ·) := by
  rw [tokens]

/-- Classes with nothing to repeat them. -/
theorem pieces_append {fs : List (Char → Bool)} {f : Char → Bool} {ts : List Token} :
    pieces (fs.map .cls ++ .cls f :: ts) = (pieces (.cls f :: ts)).map (fs.map Piece.once ++ ·) := by
  induction fs with
  | nil => simp
  | cons g fs ih =>
    have hnext : ∃ g' ts', fs.map Token.cls ++ .cls f :: ts = .cls g' :: ts' := by
      cases fs with
      | nil => exact ⟨f, ts, rfl⟩
      | cons g' fs => exact ⟨g', _, rfl⟩
    obtain ⟨g', ts', hts⟩ := hnext
    rw [List.map_cons, List.cons_append, hts, pieces, ← hts, ih, Option.map_map]
    · rfl
    · intro ts'' h
      cases h

theorem pieces_map {fs : List (Char → Bool)} : pieces (fs.map .cls) = some (fs.map Piece.once) := by
  rcases List.eq_nil_or_concat fs with rfl | ⟨gs, f, rfl⟩
  · rfl
  · rw [List.concat_eq_append, List.map_append, List.map_append]
    exact pieces_append

theorem pieces_many {f : Char → Bool} {ts : List Token} :
    pieces (.cls f :: .plus :: ts) = (pieces ts).map (⟨f, true⟩ :: ·) := by
  rw [pieces]

/-! ### Names as patterns -/

/-- The text read as a pattern in which a dot is any character matches the other. -/
def Covers (v w : List Char) : Prop := List.Forall₂ (fun c d => c = '.' ∨ d = c) v w

/-- The pattern of such a text. -/
def classes (v : List Char) : Pattern Char := (v.map charClass).map Piece.once

theorem mem_lang_classes {v w : List Char} : w ∈ lang (classes v) ↔ Covers v w := by
  unfold classes
  rw [mem_lang_once, List.forall₂_map_left_iff]
  simp only [charClass, Bool.or_eq_true, beq_iff_eq]
  rfl

theorem Covers.refl (v : List Char) : Covers v v := List.forall₂_same.mpr fun _ _ => .inr rfl

theorem Covers.length_eq {v w : List Char} (h : Covers v w) : v.length = w.length := List.Forall₂.length_eq h

/-- Without dots a text matches itself only. -/
theorem covers_iff_eq {v w : List Char} (hv : '.' ∉ v) : Covers v w ↔ w = v := by
  refine ⟨fun h => ?_, fun h => h ▸ .refl v⟩
  unfold Covers at h
  induction h with
  | nil => rfl
  | cons hcd _ ih =>
    rw [List.mem_cons, not_or] at hv
    rw [ih hv.2, hcd.resolve_left fun hc => hv.1 hc.symm]

theorem mem_lang_letter {c : Char} {w : List Char} : w ∈ lang [Piece.once (· == c)] ↔ w = [c] := by
  have hone : w ∈ lang ([fun d => d == c].map Piece.once) ↔ _ := mem_lang_once
  rw [List.map_cons, List.map_nil] at hone
  rw [hone, List.forall₂_cons_left_iff]
  simp [List.forall₂_nil_left_iff]

end Pattern

end Yijinjing.Lib
