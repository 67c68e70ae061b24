import Mathlib.Data.List.Basic
import Mathlib.Tactic.Common

/-!
# What goes through a queue

A queue is a list that entries come into at the back and leave at the front.  `Flow xs came gone ys`
says that `xs` has become `ys` while `came` came in and `gone` went out: nothing is lost, nothing is
doubled, and the order is kept.  Flows compose.
-/

namespace Yijinjing.Lib

variable {α : Type*}

/-- The queue `xs` has become `ys`. -/
def Flow (xs came gone ys : List α) : Prop := xs ++ came = gone ++ ys

namespace Flow

variable {xs ys zs came came' gone gone' : List α}

theorem refl (xs : List α) : Flow xs [] [] xs := List.append_nil xs

theorem trans (h : Flow xs came gone ys) (h' : Flow ys came' gone' zs) :
    Flow xs (came ++ came') (gone ++ gone') zs := by
  unfold Flow at *
  rw [← List.append_assoc, h, List.append_assoc, h', List.append_assoc]

/-- What is behind a common part. -/
theorem of_append {bs as as' : List α} (h : bs ++ xs = as) (h' : bs ++ gone ++ ys = as') (hcame : as' = as ++ came) :
    Flow xs came gone ys := by
  rw [hcame, ← h, List.append_assoc, List.append_assoc] at h'
  exact (List.append_cancel_left h').symm

end Flow

end Yijinjing.Lib
