import YasinCore.Scheduling.Persistence.Lemmas

namespace YasinCore.Scheduling

open YasinCore.Library YasinCore.Execution

namespace Interpreter

-- What the module that an object names has under the name of the object. It is not known to be the
-- object: a nested function, a lambda or a method has a bare name as well.
def attributeOf (py : Interpreter) (object : String) : Option Target := do
  let module ← Job.given (py.moduleOf object)
  let name ← Job.given (py.nameOf object)
  py.importAttr module name

def bareName (py : Interpreter) (object : String) : Target :=
  match py.nameOf object with
  | some name => .str name
  | none => .callable py.noneObject

end Interpreter

-- The names lead back to the object, or to one that is equal: equal objects have one name.
def Resolves (py : Interpreter) (object : String) : Prop :=
  py.attributeOf object = some (.callable object)

instance (py : Interpreter) (object : String) : Decidable (Resolves py object) :=
  inferInstanceAs (Decidable (_ = _))

variable {py : Interpreter} {object : String} {data : StoredTarget}

theorem serializeTarget_callable (h : serializeTarget py (.callable object) = some data) :
    py.isCallable object ∧ data = .callable (py.moduleOf object) (py.nameOf object) := by
  obtain ⟨hcallable, h⟩ := Option.ite_none_right_eq_some.mp h
  exact ⟨hcallable, (Option.some.inj h).symm⟩

-- Every failure of the import ends in the bare name.
theorem deserializeTarget_callable (py : Interpreter) (object : String) :
    deserializeTarget py (.callable (py.moduleOf object) (py.nameOf object)) =
      (py.attributeOf object).getD (py.bareName object) := by
  unfold deserializeTarget Interpreter.attributeOf Interpreter.bareName
  dsimp only
  cases hm : Job.given (py.moduleOf object) with
  | none => rfl
  | some module =>
      cases hn : Job.given (py.nameOf object) with
      | none => rfl
      | some name => rfl

theorem bareName_ne (hcallable : py.isCallable object) : py.bareName object ≠ .callable object := by
  unfold Interpreter.bareName
  cases py.nameOf object with
  | some name => exact fun he => by cases he
  | none =>
      intro he
      have hnone := py.none_not_callable
      rw [Target.callable.inj he, hcallable] at hnone
      cases hnone

-- A callable that was serialized comes back exactly when its names lead to it, and nothing else
-- is ever refused.
theorem reloaded_target_same_iff (h : serializeTarget py (.callable object) = some data) :
    deserializeTarget py data = .callable object ↔ Resolves py object := by
  obtain ⟨hcallable, rfl⟩ := serializeTarget_callable h
  rw [deserializeTarget_callable, Resolves]
  cases py.attributeOf object with
  | none => exact iff_of_false (bareName_ne hcallable) fun he => by cases he
  | some found => exact Option.some_inj.symm

-- The same of a whole job, from to_dict to the arguments of the constructor.
theorem reloaded_job_target_same_iff {job : ScheduledJob} {data : StoredJob}
    (h : job.toDict py = some data) : (data.arguments py).target = job.target ↔
      ∀ object, job.target = .callable object → Resolves py object := by
  obtain ⟨target, htarget, rfl⟩ := Option.map_eq_some_iff.mp h
  cases ht : job.target with
  | str name =>
      rw [ht] at htarget
      obtain rfl := Option.some.inj htarget
      exact iff_of_true rfl fun object he => by cases he
  | callable object =>
      rw [ht] at htarget
      refine (reloaded_target_same_iff htarget).trans ⟨fun hr other he => ?_, fun hr => hr object rfl⟩
      exact Target.callable.inj he ▸ hr

section Sample

-- A module with a function, and two callables that are made inside of functions of the module: one
-- has the name of the first, the other is a lambda.
def jobsModule : Interpreter where
  isCallable object := object ≠ "builtins.None"
  moduleOf _ := some "jobs"
  nameOf object := some (if object = "jobs.<lambda>" then "<lambda>" else "cleanup")
  importAttr module name :=
    if module = "jobs" ∧ name = "cleanup" then some (.callable "jobs.cleanup") else none
  noneObject := "builtins.None"
  none_not_callable := rfl

theorem reloaded_target_same_iff_function : ∃ data,
    serializeTarget jobsModule (.callable "jobs.cleanup") = some data ∧
      deserializeTarget jobsModule data = .callable "jobs.cleanup" := by
  have hdata : serializeTarget jobsModule (.callable "jobs.cleanup") =
      some (.callable (some "jobs") (some "cleanup")) := by decide
  exact ⟨_, hdata, (reloaded_target_same_iff hdata).mpr (by decide)⟩

-- The nested function comes back as the other one, and the lambda as a string.
theorem reloaded_target_strays : ∃ nested lambda,
    serializeTarget jobsModule (.callable "jobs.make.<locals>.cleanup") = some nested ∧
      deserializeTarget jobsModule nested = .callable "jobs.cleanup" ∧
    serializeTarget jobsModule (.callable "jobs.<lambda>") = some lambda ∧
      deserializeTarget jobsModule lambda = .str "<lambda>" := by
  refine ⟨.callable (some "jobs") (some "cleanup"), .callable (some "jobs") (some "<lambda>"), ?_⟩
  decide

end Sample

end YasinCore.Scheduling
