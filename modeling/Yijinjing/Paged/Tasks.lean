import Mathlib.Data.Char
import Mathlib.Data.List.Lex
import Yijinjing.Lib.OrderedMap
import Yijinjing.Paged.PageEngine

/-!
# The tasks of the engine

`add_task`, `remove_task` and `remove_task_by_name` of `PageEngine.cpp`, beside a reference map from names to
tasks.  `remove_task_by_name` erases when the name has not been found, which is undefined, and does nothing
when it has: the engine keeps up with the reference as long as nothing is removed (`registry_iff`).
-/

namespace Yijinjing

open Lib

/-! ### The calls -/

/-- What a task finds when it runs: which processes are gone, and where a buffer would be mapped. -/
structure Surroundings where
  dead : Int32 → Bool
  addr : ℕ

/-- `PstBase` -/
structure PstBase where
  getName : CStr
  go : Surroundings → PageEngine → PageEngine

def pstPidCheck : PstBase := ⟨"PidCheck".toList, fun s e => e.pidCheck s.dead⟩

def pstTempPage : PstBase := ⟨"TempPage".toList, fun s e => e.tempPage s.addr⟩

/-- `map<string, PstBasePtr>` -/
abbrev Tasks := OrderedMap CStr PstBase (· < ·)

namespace Tasks

variable (tasks : Tasks)

/-- `PageEngine::add_task` -/
def addTask (task : PstBase) : Bool × Tasks :=
  let name := task.getName
  let exits := (tasks.find name).isSome
  (!exits, tasks.insert name task)

/-- `PageEngine::remove_task_by_name`; `none` is undefined. -/
def removeTaskByName (taskName : CStr) : Option (Bool × Tasks) :=
  match tasks.find taskName with
  | none => none -- `tasks.erase(tasks.end())`
  | some _ => some (false, tasks)

/-- `PageEngine::remove_task` -/
def removeTask (task : PstBase) : Option (Bool × Tasks) :=
  let name := task.getName
  tasks.removeTaskByName name

/-- The tasks that the constructor adds. -/
def start : Tasks := (addTask (addTask OrderedMap.empty pstPidCheck).2 pstTempPage).2

end Tasks

inductive TaskCall where
  | addTask (task : PstBase)
  | removeTask (task : PstBase)
  | removeTaskByName (taskName : CStr)

namespace TaskCall

/-- What the call returns, and the tasks after it. -/
def exec (tasks : Tasks) : TaskCall → Option (Bool × Tasks)
  | .addTask task => some (tasks.addTask task)
  | .removeTask task => tasks.removeTask task
  | .removeTaskByName taskName => tasks.removeTaskByName taskName

end TaskCall

/-! ### The reference -/

/-- What the tasks are for: a task for some of the names. -/
abbrev Registry := CStr → Option PstBase

namespace Registry

variable (reg : Registry)

def add (task : PstBase) : Bool × Registry :=
  ((reg task.getName).isNone, Function.update reg task.getName (some task))

def remove (name : CStr) : Bool × Registry := ((reg name).isSome, Function.update reg name none)

def exec : TaskCall → Bool × Registry
  | .addTask task => reg.add task
  | .removeTask task => reg.remove task.getName
  | .removeTaskByName taskName => reg.remove taskName

/-- The two tasks that are built in. -/
def start : Registry := Function.update (Function.update (fun _ => none) "PidCheck".toList (some pstPidCheck))
  "TempPage".toList (some pstTempPage)

/-- The registered tasks are those of the reference. -/
def Matches (tasks : Tasks) : Prop := ∀ name, tasks.find name = reg name

end Registry

/-- **The calls keep up with the reference**: each is defined and returns the same, and the tasks are the same
before and after it. -/
def KeepsUp : Tasks → Registry → List TaskCall → Prop
  | tasks, reg, [] => reg.Matches tasks
  | tasks, reg, call :: calls => reg.Matches tasks ∧ ∃ tasks',
      call.exec tasks = some ((reg.exec call).1, tasks') ∧ KeepsUp tasks' (reg.exec call).2 calls

variable {tasks tasks' : Tasks} {reg : Registry} {call : TaskCall} {res : Bool}

/-! ### One call -/

theorem Registry.Matches.addTask (h : reg.Matches tasks) (task : PstBase) :
    (tasks.addTask task).1 = (reg.add task).1 ∧ (reg.add task).2.Matches (tasks.addTask task).2 := by
  constructor
  · show (!(tasks.find task.getName).isSome) = (reg task.getName).isNone
    rw [h, Option.not_isSome]
  · intro name
    show (tasks.insert task.getName task).find name = Function.update reg task.getName (some task) name
    rw [OrderedMap.find_insert, h name]
    by_cases hn : task.getName = name
    · rw [if_pos (equivalent_lt_iff.mpr hn), ← hn, Function.update_self]
    · rw [if_neg fun he => hn (equivalent_lt_iff.mp he), Function.update_of_ne (Ne.symm hn)]

/-- No removal does what the reference does. -/
theorem Registry.Matches.not_remove (h : reg.Matches tasks) (name : CStr) :
    tasks.removeTaskByName name ≠ some ((reg.remove name).1, tasks') := by
  intro hcall
  have hname := h name
  unfold Tasks.removeTaskByName at hcall
  cases hfind : tasks.find name with
  | none =>
    rw [hfind] at hcall
    cases hcall
  | some task =>
    -- the task is there, and `false` is returned
    rw [hfind] at hcall hname
    have hres : false = (reg name).isSome := congrArg Prod.fst (Option.some.inj hcall)
    rw [← hname] at hres
    cases hres

/-! ### All calls -/

theorem keepsUp_iff (h : reg.Matches tasks) (calls : List TaskCall) :
    KeepsUp tasks reg calls ↔ ∀ call ∈ calls, ∃ task, call = .addTask task := by
  induction calls generalizing tasks reg with
  | nil => exact iff_of_true h fun _ hmem => nomatch hmem
  | cons call calls ih =>
    rw [KeepsUp, List.forall_mem_cons]
    cases call with
    | addTask task =>
      obtain ⟨hres, hmatch⟩ := h.addTask task
      rw [← ih hmatch]
      constructor
      · rintro ⟨-, tasks', hexec, hrest⟩
        obtain rfl : (tasks.addTask task).2 = tasks' := congrArg Prod.snd (Option.some.inj hexec)
        exact ⟨⟨task, rfl⟩, hrest⟩
      · rintro ⟨-, hrest⟩
        exact ⟨h, (tasks.addTask task).2, congrArg some (Prod.ext hres rfl), hrest⟩
    | removeTask task =>
      refine iff_of_false ?_ ?_
      · rintro ⟨-, tasks', hexec, -⟩
        exact h.not_remove task.getName hexec
      · rintro ⟨⟨_, hadd⟩, -⟩
        cases hadd
    | removeTaskByName taskName =>
      refine iff_of_false ?_ ?_
      · rintro ⟨-, tasks', hexec, -⟩
        exact h.not_remove taskName hexec
      · rintro ⟨⟨_, hadd⟩, -⟩
        cases hadd

theorem Registry.matches_start : Registry.start.Matches Tasks.start := by
  have hempty : Registry.Matches (fun _ => none) (OrderedMap.empty : Tasks) := fun _ => rfl
  exact ((hempty.addTask pstPidCheck).2.addTask pstTempPage).2

/-- **The engine keeps up with the reference exactly as long as no task is removed.** -/
theorem registry_iff (calls : List TaskCall) :
    KeepsUp Tasks.start Registry.start calls ↔ ∀ call ∈ calls, ∃ task, call = .addTask task :=
  keepsUp_iff Registry.matches_start calls

/-- The task `PidCheck` is removed: it stays, and `false` is returned. -/
theorem pidCheck_not_removed :
    (∃ tasks', Tasks.start.removeTaskByName "PidCheck".toList = some (false, tasks') ∧
      (tasks'.find "PidCheck".toList).isSome) ∧
      ¬ KeepsUp Tasks.start Registry.start [.removeTaskByName "PidCheck".toList] := by
  have hfind : Tasks.start.find "PidCheck".toList = some pstPidCheck := Registry.matches_start _
  refine ⟨⟨Tasks.start, ?_, ?_⟩, ?_⟩
  · unfold Tasks.removeTaskByName
    rw [hfind]
  · rw [hfind]
    rfl
  · rintro ⟨-, tasks', hexec, -⟩
    exact Registry.matches_start.not_remove "PidCheck".toList hexec

end Yijinjing
