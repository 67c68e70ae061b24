import Mathlib.Data.List.Lex
import Mathlib.Data.List.TakeWhile
import Mathlib.Data.Prod.Lex
import Mathlib.Order.RelClasses
import Yijinjing.Lib.OrderedMap
import Yijinjing.Paged.Counts
import Yijinjing.Paged.Encodings

/-!
# The order of page keys

`operator ==` and `operator <` of `PageCommMsg`, on the struct as it is: character arrays that are compared
by `strcmp`.  Both are read off the rank of a message (`lt_iff_rank`, `beq_iff_rank`), which is linearly
ordered, so that the maps `fileWriterCounts` and `fileReaderCounts` are tables of `PageKey`s
(`represents_releaseCount`, `represents_countPage`).
-/

namespace Yijinjing

open Lib

/-! ### `PageCommMsg` -/

/-- A character array with a terminator in it. -/
structure CharArray (n : ℕ) where
  bytes : List UInt8
  length_eq : bytes.length = n
  terminated : 0 ∈ bytes

/-- The C string in an array. -/
def cstr (bs : List UInt8) : List UInt8 := bs.takeWhile fun b => b ≠ 0

def CharArray.str {n : ℕ} (a : CharArray n) : List UInt8 := cstr a.bytes

/-- What is behind the terminator does not count. -/
theorem cstr_append_of_mem {bs : List UInt8} (h : 0 ∈ bs) (cs : List UInt8) : cstr (bs ++ cs) = cstr bs := by
  unfold cstr
  rw [List.takeWhile_append, if_neg fun hlen => ?_]
  have hall := List.takeWhile_eq_self_iff.mp ((List.takeWhile_prefix _).eq_of_length hlen) 0 h
  exact absurd hall (by decide)

theorem cstr_append_of_not_mem {bs : List UInt8} (h : 0 ∉ bs) (cs : List UInt8) : cstr (bs ++ cs) = bs ++ cstr cs :=
  List.takeWhile_append_of_pos fun _ hb => decide_eq_true (ne_of_mem_of_not_mem hb h)

/-- `strcmp`, which compares the bytes up to a terminator. -/
def strcmp : List UInt8 → List UInt8 → ℤ
  | a :: as, b :: bs => if a = b ∧ a ≠ 0 then strcmp as bs else a.toNat - b.toNat
  | _, _ => 0

/-- `PageCommMsg` as a map key. -/
structure PackedCommMsg where
  status : UInt8
  folder : CharArray journalFolderMaxLength
  name : CharArray journalShortNameMaxLength
  isWriter : Bool
  pageNum : Int16
  lastPageNum : Int16

namespace PackedCommMsg

/-- `operator ==` -/
instance : BEq PackedCommMsg where
  beq m p := decide (m.pageNum = p.pageNum) && decide (strcmp m.folder.bytes p.folder.bytes = 0) &&
    decide (strcmp m.name.bytes p.name.bytes = 0)

/-- `operator <` -/
instance : LT PackedCommMsg where
  lt m p :=
    if strcmp m.folder.bytes p.folder.bytes ≠ 0 then strcmp m.folder.bytes p.folder.bytes < 0
    else if strcmp m.name.bytes p.name.bytes ≠ 0 then strcmp m.name.bytes p.name.bytes < 0
    else m.pageNum < p.pageNum

theorem lt_def (m p : PackedCommMsg) : m < p ↔
    if strcmp m.folder.bytes p.folder.bytes ≠ 0 then strcmp m.folder.bytes p.folder.bytes < 0
    else if strcmp m.name.bytes p.name.bytes ≠ 0 then strcmp m.name.bytes p.name.bytes < 0
    else m.pageNum < p.pageNum := Iff.rfl

instance : DecidableLT PackedCommMsg := fun m p => by
  rw [lt_def]
  infer_instance

/-- The two messages name the same page. -/
structure SamePage (m p : PackedCommMsg) : Prop where
  folder : m.folder.str = p.folder.str
  name : m.name.str = p.name.str
  pageNum : m.pageNum = p.pageNum

/-- The key of the page that the message names. -/
def key (m : PackedCommMsg) : PageKey := ⟨CStr.ofBytes m.folder.str, CStr.ofBytes m.name.str, m.pageNum⟩

end PackedCommMsg

/-! ### `strcmp` -/

/-- The C string, for the lexicographic order. -/
def strRank (bs : List UInt8) : List ℕ := (cstr bs).map UInt8.toNat

variable {s t : List UInt8} {b : UInt8}

theorem strRank_zero (s : List UInt8) : strRank (0 :: s) = [] := rfl

theorem strRank_cons (hb : b ≠ 0) (s : List UInt8) : strRank (b :: s) = b.toNat :: strRank s := by
  unfold strRank cstr
  rw [List.takeWhile_cons_of_pos (by simpa using hb), List.map_cons]

theorem toNat_pos (hb : b ≠ 0) : 0 < b.toNat := by
  refine Nat.pos_of_ne_zero fun h => hb (UInt8.toNat_inj.mp ?_)
  rw [h]
  rfl

/-- **`strcmp` is the lexicographic comparison of the two C strings.** -/
theorem strcmp_spec (hs : 0 ∈ s) (ht : 0 ∈ t) :
    (strcmp s t < 0 ↔ strRank s < strRank t) ∧ (strcmp s t = 0 ↔ strRank s = strRank t) := by
  induction s generalizing t with
  | nil => cases hs
  | cons a s ih =>
    cases t with
    | nil => cases ht
    | cons b t =>
      have hzero : (0 : UInt8).toNat = 0 := rfl
      rw [strcmp]
      by_cases ha : a = 0
      · -- the first string ends here
        subst ha
        rw [if_neg fun h => h.2 rfl, strRank_zero, hzero]
        by_cases hb : b = 0
        · subst hb
          rw [strRank_zero, hzero]
          simp
        · have hpos := toNat_pos hb
          rw [strRank_cons hb]
          exact ⟨iff_of_true (by omega) (List.nil_lt_cons _ _), iff_of_false (by omega) (List.cons_ne_nil _ _).symm⟩
      · by_cases hb : b = 0
        · have hpos := toNat_pos ha
          subst hb
          rw [if_neg fun h => ha h.1, strRank_zero, strRank_cons ha, hzero]
          exact ⟨iff_of_false (by omega) (List.not_lt_nil _), iff_of_false (by omega) (List.cons_ne_nil _ _)⟩
        · rw [strRank_cons ha, strRank_cons hb, List.cons_lt_cons_iff, List.cons.injEq]
          by_cases hab : a = b
          · subst hab
            have htail := ih ((List.mem_cons.mp hs).resolve_left (Ne.symm ha))
              ((List.mem_cons.mp ht).resolve_left (Ne.symm ha))
            rw [if_pos ⟨rfl, ha⟩]
            simpa using htail
          · have hne : a.toNat ≠ b.toNat := fun h => hab (UInt8.toNat_inj.mp h)
            rw [if_neg fun h => hab h.1]
            constructor <;> omega

/-! ### Ranks -/

namespace PackedCommMsg

variable {a b c m p : PackedCommMsg}

/-- What `operator <` orders by. -/
def rank (m : PackedCommMsg) : List ℕ ×ₗ List ℕ ×ₗ ℤ :=
  toLex (strRank m.folder.bytes, toLex (strRank m.name.bytes, m.pageNum.toInt))

theorem lt_iff_rank : m < p ↔ m.rank < p.rank := by
  obtain ⟨hflt, hfeq⟩ := strcmp_spec m.folder.terminated p.folder.terminated
  obtain ⟨hnlt, hneq⟩ := strcmp_spec m.name.terminated p.name.terminated
  rw [lt_def]
  simp only [rank, Prod.Lex.toLex_lt_toLex]
  by_cases hf : strcmp m.folder.bytes p.folder.bytes = 0
  · have hfolder := hfeq.mp hf
    rw [if_neg (not_not.mpr hf), hfolder]
    by_cases hn : strcmp m.name.bytes p.name.bytes = 0
    · have hname := hneq.mp hn
      rw [if_neg (not_not.mpr hn), hname, Int16.lt_iff_toInt_lt]
      simp
    · have hname : strRank m.name.bytes ≠ strRank p.name.bytes := fun h => hn (hneq.mpr h)
      rw [if_pos hn, hnlt]
      simp [hname]
  · have hfolder : strRank m.folder.bytes ≠ strRank p.folder.bytes := fun h => hf (hfeq.mpr h)
    rw [if_pos hf, hflt]
    simp [hfolder]

theorem beq_iff_rank : (m == p) = true ↔ m.rank = p.rank := by
  obtain ⟨-, hfeq⟩ := strcmp_spec m.folder.terminated p.folder.terminated
  obtain ⟨-, hneq⟩ := strcmp_spec m.name.terminated p.name.terminated
  have hbeq : (m == p) = (decide (m.pageNum = p.pageNum) && decide (strcmp m.folder.bytes p.folder.bytes = 0) &&
    decide (strcmp m.name.bytes p.name.bytes = 0)) := rfl
  rw [hbeq]
  simp only [rank, Bool.and_eq_true, decide_eq_true_eq, hfeq, hneq, EmbeddingLike.apply_eq_iff_eq, Prod.mk.injEq,
    Int16.toInt_inj]
  tauto

theorem rank_eq_iff : m.rank = p.rank ↔ m.SamePage p := by
  have hinj : Function.Injective (List.map UInt8.toNat) := List.map_injective_iff.mpr fun _ _ => UInt8.toNat_inj.mp
  simp only [rank, strRank, EmbeddingLike.apply_eq_iff_eq, Prod.mk.injEq, Int16.toInt_inj, hinj.eq_iff]
  exact ⟨fun ⟨hf, hn, hp⟩ => ⟨hf, hn, hp⟩, fun h => ⟨h.folder, h.name, h.pageNum⟩⟩

theorem beq_iff : (m == p) = true ↔ m.SamePage p := beq_iff_rank.trans rank_eq_iff

theorem key_eq_iff : m.key = p.key ↔ m.SamePage p := by
  simp only [key, PageKey.mk.injEq, CStr.ofBytes_injective.eq_iff]
  exact ⟨fun ⟨hf, hn, hp⟩ => ⟨hf, hn, hp⟩, fun h => ⟨h.folder, h.name, h.pageNum⟩⟩

instance : IsStrictWeakOrder PackedCommMsg (· < ·) where
  irrefl m h := lt_irrefl _ (lt_iff_rank.mp h)
  trans a b c hab hbc := lt_iff_rank.mpr ((lt_iff_rank.mp hab).trans (lt_iff_rank.mp hbc))
  incomp_trans a b c hab hbc := by
    simp only [lt_iff_rank] at hab hbc ⊢
    exact IsStrictWeakOrder.incomp_trans a.rank b.rank c.rank hab hbc

theorem equivalent_iff : Equivalent (· < ·) a b ↔ a.SamePage b := by
  unfold Equivalent
  rw [← rank_eq_iff, ← equivalent_lt_iff]
  simp only [lt_iff_rank]
  exact Iff.rfl

theorem equivalent_iff_key (a b : PackedCommMsg) : Equivalent (· < ·) a b ↔ a.key = b.key :=
  equivalent_iff.trans key_eq_iff.symm

/-- The message with other values in the fields that are no part of the key. -/
def withState (m : PackedCommMsg) (status : UInt8) (isWriter : Bool) (lastPageNum : Int16) : PackedCommMsg :=
  { m with status := status, isWriter := isWriter, lastPageNum := lastPageNum }

@[simp] theorem rank_withState (m : PackedCommMsg) (status : UInt8) (isWriter : Bool) (lastPageNum : Int16) :
    (m.withState status isWriter lastPageNum).rank = m.rank := rfl

end PackedCommMsg

/-! ### The maps of counts -/

/-- `map<PageCommMsg, int>` -/
abbrev CountMap := OrderedMap PackedCommMsg ℤ (· < ·)

open PackedCommMsg

/-- **The order of keys is consistent with their equality**, and what is found in a map of counts is what was
inserted last for the same page. -/
theorem keys_ordered :
    (∀ a b : PackedCommMsg, a < b ∧ ¬ a == b ∧ ¬ b < a ∨ ¬ a < b ∧ a == b ∧ ¬ b < a ∨ ¬ a < b ∧ ¬ a == b ∧ b < a) ∧
      (∀ a b c : PackedCommMsg, a < b → b < c → a < c) ∧
      Equivalence (fun a b : PackedCommMsg => a == b) ∧
      (∀ a b : PackedCommMsg, a == b ↔
        a.folder.str = b.folder.str ∧ a.name.str = b.name.str ∧ a.pageNum = b.pageNum) ∧
      (∀ (a b : PackedCommMsg) (status : UInt8) (isWriter : Bool) (lastPageNum : Int16),
        (a.withState status isWriter lastPageNum < b ↔ a < b) ∧
        (b < a.withState status isWriter lastPageNum ↔ b < a) ∧
        (a.withState status isWriter lastPageNum == b ↔ a == b) ∧
        (b == a.withState status isWriter lastPageNum ↔ b == a)) ∧
      ∀ (ops : List (OrderedMap.Op PackedCommMsg ℤ)) (m : PackedCommMsg) (n : ℤ),
        ((OrderedMap.empty : CountMap).run ops).find m = some n ↔
          ∃ before k after, ops = before ++ .insert k n :: after ∧ k.SamePage m ∧
            ∀ op ∈ after, ¬ op.key.SamePage m := by
  refine ⟨fun a b => ?_, fun a b c => trans_of (· < ·), ⟨fun a => ?_, fun {a b} h => ?_, fun {a b c} hab hbc => ?_⟩,
    fun a b => ?_, fun a b status isWriter lastPageNum => ?_, fun ops m n => ?_⟩
  · simp only [lt_iff_rank, beq_iff_rank]
    rcases lt_trichotomy a.rank b.rank with h | h | h
    · exact .inl ⟨h, h.ne, h.asymm⟩
    · exact .inr (.inl ⟨h.not_lt, h, h.not_gt⟩)
    · exact .inr (.inr ⟨h.asymm, h.ne', h⟩)
  · exact beq_iff_rank.mpr rfl
  · exact beq_iff_rank.mpr (beq_iff_rank.mp h).symm
  · exact beq_iff_rank.mpr ((beq_iff_rank.mp hab).trans (beq_iff_rank.mp hbc))
  · rw [beq_iff]
    exact ⟨fun h => ⟨h.folder, h.name, h.pageNum⟩, fun ⟨hf, hn, hp⟩ => ⟨hf, hn, hp⟩⟩
  · simp only [lt_iff_rank, beq_iff_rank, rank_withState, and_self]
  · rw [OrderedMap.find_run]
    unfold OrderedMap.Leaves
    simp only [equivalent_iff]

/-! ### The counts of the engine -/

section Engine

variable {e : PageEngine} {msg : PageCommMsg} {m : PackedCommMsg} {counts : CountMap}

/-- What `release_page` does to the count of a page. -/
def releaseCount (counts : CountMap) (m : PackedCommMsg) : CountMap :=
  match counts.find m with
  | none => counts
  | some count => if count - 1 = 0 then counts.erase m else counts.insert m (count - 1)

/-- What `initiate_page` does to the count of a page. -/
def countOne (counts : CountMap) (m : PackedCommMsg) : CountMap :=
  match counts.find m with
  | none => counts.insert m 1
  | some count => if m.isWriter then counts else counts.insert m (count + 1)

/-- **The counts of the engine are those of the map**, when a page is released. -/
theorem represents_releaseCount (hr : OrderedMap.Represents key counts (e.counts msg.isWriter))
    (hkey : m.key = msg.key) :
    OrderedMap.Represents key (releaseCount counts m) ((e.releasePage msg).counts msg.isWriter) := by
  rw [PageEngine.counts_releasePage]
  unfold releaseCount
  rw [hr m, hkey]
  cases (e.counts msg.isWriter).lookup msg.key with
  | none => exact hr
  | some count =>
    dsimp only
    rw [if_pos rfl, ← hkey]
    split
    · exact hr.erase equivalent_iff_key m
    · exact hr.insert equivalent_iff_key m _

/-- And when a page is given. -/
theorem represents_countPage (hr : OrderedMap.Represents key counts (e.counts msg.isWriter))
    (hkey : m.key = msg.key) (hw : m.isWriter = msg.isWriter) :
    OrderedMap.Represents key (countOne counts m) ((e.countPage msg).2.counts msg.isWriter) := by
  unfold countOne PageEngine.countPage
  rw [hr m, hkey, hw]
  cases hcount : (e.counts msg.isWriter).lookup msg.key with
  | none =>
    dsimp only
    rw [PageEngine.counts_setCounts, if_pos rfl, ← hkey]
    exact hr.insert equivalent_iff_key m _
  | some count =>
    dsimp only
    split
    · exact hr
    · rw [PageEngine.counts_setCounts, if_pos rfl, ← hkey]
      exact hr.insert equivalent_iff_key m _

end Engine

end Yijinjing
