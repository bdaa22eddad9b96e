import AsyncLift.Proofs.CounterpartTypes
import AsyncLift.Proofs.Integrity

/-!
# The action refuses what it has converted

No record is kept of which methods were converted: the action looks at the return type that a method
has at the moment. `Program.Completed` is what it looks for, a declared method that returns a
completion type. A conversion makes every planned method such a method (`completed_of_runWith`), and
no later conversion under the same options can undo it, whatever it plans: a completion type is its
own completion (`completed_runWith`). So a method that was planned once is refused ever after.

`execute_refuses_converted`: at any point of a sequence of executions, one that fails leaves the
program as it was, and one that succeeds is the last that may have any method of its plan as its
root.
-/

namespace AsyncLift

namespace Program

/-- The method is declared and returns a completion type. -/
def Completed (options : Options) (program : Program) (id : MethodId) : Prop :=
  ∃ method, program.methods[id]? = some method ∧ method.isDeclared = true ∧
    method.returnType.isCompletion options.taskType = true

namespace Completed

variable {options : Options} {program : Program} {id : MethodId}

theorem isDeclared_eq (h : program.Completed options id) : program.isDeclared id = true := by
  obtain ⟨method, hmethod, hdeclared, -⟩ := h
  rw [Program.isDeclared, hmethod]
  exact hdeclared

theorem isAvailable_eq (h : program.Completed options id) :
    program.isAvailable options id = false := by
  obtain ⟨method, hmethod, -, hcompletion⟩ := h
  rw [Program.isAvailable, hmethod]
  simp [Method.isAvailable, hcompletion]

/-- Making a method asynchronous completes it, and leaves a completed method completed. -/
theorem modify {methods : Array Method} {method : Method} (lifted : MethodId)
    (hmethod : methods[id]? = some method) (hdeclared : method.isDeclared = true)
    (hcompletion : lifted = id ∨ method.returnType.isCompletion options.taskType = true) :
    ∃ method', (methods.modify lifted (·.lift options))[id]? = some method' ∧
      method'.isDeclared = true ∧ method'.returnType.isCompletion options.taskType = true := by
  rw [Array.getElem?_modify, hmethod]
  by_cases hid : lifted = id
  · rw [if_pos hid]
    exact ⟨method.lift options, rfl, hdeclared, TypeExpr.isCompletion_completion _ _⟩
  · rw [if_neg hid]
    exact ⟨method, rfl, hdeclared, hcompletion.resolve_left hid⟩

end Completed

end Program

namespace Conversion

open Program

variable {options : Options} {search : ReferenceSearch} {program final : Program}
  {root id : MethodId} {report : Report}

/-- Whatever methods a pass goes over, those that return a completion type go on doing so. -/
theorem completed_liftedMethods {methods : Array Method} {method : Method}
    (hmethod : methods[id]? = some method) (hdeclared : method.isDeclared = true)
    (hcompletion : method.returnType.isCompletion options.taskType = true) (ids : List MethodId) :
    ∃ method', (liftedMethods options methods ids)[id]? = some method' ∧
      method'.isDeclared = true ∧ method'.returnType.isCompletion options.taskType = true := by
  induction ids generalizing methods method with
  | nil => exact ⟨method, hmethod, hdeclared, hcompletion⟩
  | cons first ids ih =>
    obtain ⟨method', hmethod', hdeclared', hcompletion'⟩ :=
      Completed.modify first hmethod hdeclared (.inr hcompletion)
    exact ih hmethod' hdeclared' hcompletion'

theorem completed_runWith (h : program.Completed options id) (search : ReferenceSearch)
    (root : MethodId) : (runWith options search program root).2.Completed options id := by
  obtain ⟨ids, hids⟩ := exists_passAfter_of_runWith options search program root
  obtain ⟨method, hmethod, hdeclared, hcompletion⟩ := h
  rw [hids, Completed, passAfter_program]
  exact completed_liftedMethods hmethod hdeclared hcompletion ids

/-- A conversion that succeeds completes everything that it has planned. -/
theorem completed_of_runWith (hrun : runWith options search program root = (.ok report, final))
    (hid : id ∈ (program.plan root).order) : final.Completed options id := by
  obtain ⟨hall, -, rfl⟩ := passAfter_of_runWith_ok hrun
  obtain ⟨method, hmethod⟩ := exists_method_of_isDeclared (hall id hid)
  have hdeclared : method.isDeclared = true := by
    have h := hall id hid
    rwa [Program.isDeclared, hmethod] at h
  refine ⟨method.lift options, ?_, hdeclared, TypeExpr.isCompletion_completion _ _⟩
  rw [getElem?_passAfter _ _ _ _ (program.nodup_plan_order root), if_pos hid, hmethod]
  rfl

end Conversion

namespace Action

open Program

variable {options : Options} {program result : Program} {id : MethodId} {report : Report}
  {error : ConversionError}

/-- The program after the action was executed on one method after another, whatever each execution
came to. -/
def programAfter (options : Options) (program : Program) (ids : List MethodId) : Program :=
  ids.foldl (fun program id => (execute options program id).2) program

theorem execute_of_completed (h : program.Completed options id) :
    execute options program id = (.error (.notAvailable (program.qualifiedName id)), program) := by
  rw [execute, h.isDeclared_eq, h.isAvailable_eq]
  rfl

theorem run_of_execute (h : execute options program id = (.ok report, result)) :
    Conversion.run options program id = (.ok report, result) := by
  rcases execute_cases options program id with heq | ⟨error, heq⟩
  · exact heq.symm.trans h
  · cases heq.symm.trans h

theorem program_of_failure (hrollback : options.rollbackOnAbort = true)
    (h : execute options program id = (.error error, result)) : result = program := by
  simp only [execute, hrollback, if_true] at h
  split at h
  · cases h
    rfl
  · split at h
    · cases h
      rfl
    · split at h <;> cases h
      rfl

theorem completed_execute (h : program.Completed options id) (other : MethodId) :
    (execute options program other).2.Completed options id := by
  rcases execute_cases options program other with heq | ⟨error, heq⟩
  · rw [heq]
    exact Conversion.completed_runWith h _ other
  · rw [heq]
    exact h

theorem completed_programAfter (h : program.Completed options id) (ids : List MethodId) :
    (programAfter options program ids).Completed options id := by
  induction ids generalizing program with
  | nil => exact h
  | cons other ids ih => exact ih (completed_execute h other)

/-- With rollback, an execution that fails leaves the program as it was. One that succeeds makes the
action unavailable on every method of its plan, and however many executions follow, each of these
methods is refused as a root from then on. -/
theorem execute_refuses_converted (hrollback : options.rollbackOnAbort = true)
    (program : Program) (before : List MethodId) (id : MethodId)
    {outcome : Except ConversionError Report}
    (h : execute options (programAfter options program before) id = (outcome, result)) :
    (∀ error, outcome = .error error → result = programAfter options program before) ∧
    ∀ report, outcome = .ok report →
      report.plan = ((programAfter options program before).plan id).order ∧
      id ∈ report.plan ∧
      ∀ member ∈ report.plan, result.isAvailable options member = false ∧
        ∀ between, execute options (programAfter options result between) member =
          (.error (.notAvailable ((programAfter options result between).qualifiedName member)),
            programAfter options result between) := by
  constructor
  · rintro error rfl
    exact program_of_failure hrollback h
  · rintro report rfl
    have hrun := run_of_execute h
    have hplan : report.plan = ((programAfter options program before).plan id).order := by
      obtain ⟨-, rfl, -⟩ := Conversion.passAfter_of_runWith_ok hrun
      exact Conversion.plan_passAfter ..
    refine ⟨hplan, ?_, fun member hmember => ?_⟩
    · rw [hplan, plan_order_eq]
      exact List.mem_append_right _ (List.mem_singleton_self id)
    · rw [hplan] at hmember
      have hcompleted := Conversion.completed_of_runWith hrun hmember
      exact ⟨hcompleted.isAvailable_eq,
        fun between => execute_of_completed (completed_programAfter hcompleted between)⟩

/-- A class that implements two interfaces by one method, and two that implement a third interface,
one of them outside the program. -/
def sharedImplementation : Program :=
  (Builder.withMain.run
    [.addType .ofInterface "Reader", .addType .ofInterface "Source", .addType .ofInterface "Sink",
      .addType .ofClass "File", .addType .ofClass "Log", .addType .ofClass "Device",
      .listInterface 3 0, .listInterface 3 1, .listInterface 4 2, .listInterface 5 2,
      .addMethod 0 { name := "Load" }, .addMethod 1 { name := "Load" },
      .addMethod 2 { name := "Save" }, .addMethod 3 { name := "Load" },
      .addMethod 4 { name := "Save" }, .addMethod 5 { name := "Save", isExternal := true },
      .setBody 3 [], .setBody 4 []]).program

/-- Without a suffix names do not tell what is converted. Executing the action on the third
interface stops at the outside method and is undone; executing it on the first two converts the
shared method twice, and then the action is refused on it. -/
theorem execute_refuses_converted_sharedImplementation :
    (execute { suffix := "" } sharedImplementation 2).1 =
      .error (.unresolvedMember 5 "Device.Save" [4]) ∧
    (execute { suffix := "" } sharedImplementation 2).2 = sharedImplementation ∧
    ∃ report result, execute { suffix := "" }
        (programAfter { suffix := "" } sharedImplementation [2]) 0 = (.ok report, result) ∧
      report.plan = [3, 0] ∧ (result.plan 1).order = [3, 1] ∧
      execute { suffix := "" } (programAfter { suffix := "" } result [1]) 3 =
        (.error (.notAvailable "File.Load"), programAfter { suffix := "" } result [1]) := by
  have hundone := (execute_refuses_converted rfl sharedImplementation [] 2
    (rfl : execute { suffix := "" } sharedImplementation 2 = _)).1
  have hfails : (execute { suffix := "" } sharedImplementation 2).1 =
      .error (.unresolvedMember 5 "Device.Save" [4]) := by decide +kernel
  have hplan : (execute { suffix := "" }
      (programAfter { suffix := "" } sharedImplementation [2]) 0).1.toOption.map (·.plan) =
        some [3, 0] := by decide +kernel
  have hagain : ((execute { suffix := "" }
      (programAfter { suffix := "" } sharedImplementation [2]) 0).2.plan 1).order = [3, 1] := by
    decide +kernel
  have hname : (programAfter { suffix := "" } (execute { suffix := "" }
      (programAfter { suffix := "" } sharedImplementation [2]) 0).2 [1]).qualifiedName 3 =
        "File.Load" := by decide +kernel
  refine ⟨hfails, hundone _ hfails, ?_⟩
  rcases hrun : execute { suffix := "" }
    (programAfter { suffix := "" } sharedImplementation [2]) 0 with ⟨outcome, result⟩
  rw [hrun] at hplan hagain hname
  cases outcome with
  | error fault => cases hplan
  | ok report =>
    have hmembers : report.plan = [3, 0] := Option.some.inj hplan
    obtain ⟨-, -, hrefused⟩ :=
      (execute_refuses_converted rfl sharedImplementation [2] 0 hrun).2 report rfl
    refine ⟨report, result, rfl, hmembers, hagain, ?_⟩
    rw [← hname]
    exact (hrefused 3 (hmembers ▸ List.mem_cons_self)).2 [1]

end Action

end AsyncLift
