import AsyncLift.Proofs.Counterparts
import AsyncLift.Proofs.OverridePreservation
import AsyncLift.Proofs.Walks

/-!
# The types of strict counterparts

A strict counterpart is compared with the callee while methods are being converted, and it may be
converted itself later in the same pass. `Method.Completes` is what the comparison asks for. The
change of a signature keeps it, since a completion type is its own completion
(`TypeExpr.completion_completion`), so it still holds when the pass is over.

`runWith_types_counterparts`: the call that the scan of a body has pointed at a strict counterpart
takes the arguments that it took, and returns the completion of what it returned.
-/

namespace AsyncLift

namespace TypeExpr

theorem isCompletion_completion (task : String) (t : TypeExpr) :
    (t.completion task).isCompletion task = true := by
  unfold completion
  by_cases h : t.isCompletion task = true
  · rw [if_pos h]
    exact h
  · rw [if_neg h]
    cases t <;> simp [isCompletion, isPlain, isGenericOf]

theorem completion_completion (task : String) (t : TypeExpr) :
    (t.completion task).completion task = t.completion task :=
  if_pos (isCompletion_completion task t)

end TypeExpr

namespace Method

/-- A method takes the parameters of another one, is static if that is, and returns the completion
of what that returns. -/
structure Completes (task : String) (method completed : Method) : Prop where
  paramTypes : completed.paramTypes = method.paramTypes
  isStatic : completed.isStatic = method.isStatic
  returnType : completed.returnType = method.returnType.completion task

theorem Completes.lift {options : Options} {method completed : Method}
    (h : method.Completes options.taskType completed) :
    method.Completes options.taskType (completed.lift options) := by
  refine ⟨h.paramTypes, ?_, ?_⟩
  · rw [Conversion.lift_isStatic]
    exact h.isStatic
  · rw [Conversion.lift_eq]
    show completed.returnType.completion options.taskType = _
    rw [h.returnType, TypeExpr.completion_completion]

end Method

namespace Program

variable {program : Program} {options : Options} {id target : MethodId}

theorem isStrictCounterpart_iff {method : Method} :
    program.isStrictCounterpart options method target = true ↔
      ∃ completed, program.methods[target]? = some completed ∧
        method.Completes options.taskType completed := by
  unfold isStrictCounterpart
  rw [Option.any_eq_true]
  constructor
  · rintro ⟨completed, hcompleted, hmatch⟩
    simp only [Bool.and_eq_true, beq_iff_eq] at hmatch
    obtain ⟨⟨hstatic, hparams⟩, hreturn⟩ := hmatch
    exact ⟨completed, hcompleted, hparams, hstatic, hreturn⟩
  · rintro ⟨completed, hcompleted, h⟩
    refine ⟨completed, hcompleted, ?_⟩
    simp only [Bool.and_eq_true, beq_iff_eq]
    exact ⟨⟨h.isStatic, h.paramTypes⟩, h.returnType⟩

/-- The strict rule accepts only a method that completes the one it is looked up for. -/
theorem completes_of_counterpart? (hstrict : options.counterpart = .strict)
    (h : program.counterpart? options id = some target) :
    ∃ method completed, program.methods[id]? = some method ∧
      program.methods[target]? = some completed ∧
      method.Completes options.taskType completed := by
  unfold counterpart? at h
  cases hmethod : program.methods[id]? with
  | none =>
    rw [hmethod] at h
    cases h
  | some method =>
    simp only [hmethod, hstrict, Option.bind_eq_bind, Option.bind_some] at h
    split at h
    · rename_i only honly
      cases h
      have htarget : target ∈ [target] := List.mem_singleton_self target
      rw [← honly] at htarget
      obtain ⟨completed, hcompleted, hcompletes⟩ :=
        isStrictCounterpart_iff.mp (List.mem_filter.mp htarget).2
      exact ⟨method, completed, rfl, hcompleted, hcompletes⟩
    · cases h

end Program

/-! ## The place of an entry -/

namespace RetargetedCall

variable {entry : RetargetedCall} {old new : NodeStore} {id other : NodeId}

/-- The entry tells what has become of the old node. -/
def TellsOf (entry : RetargetedCall) (old new : NodeStore) (id : NodeId) : Prop :=
  entry.Kept old new id ∨ entry.Wrapped old new id

theorem Kept.lt_size (h : entry.Kept old new id) : id < old.size := by
  obtain ⟨-, receiver, name, target, args, name', hold, -⟩ := h
  exact NodeStore.lt_size_of_get? hold

theorem Wrapped.parent? (h : entry.Wrapped old new id) (hlinked : new.Linked) :
    new.parent? entry.node = some id := by
  apply hlinked.adopted id entry.node
  rw [NodeStore.childrenOf_of_get? h.get?_await]
  exact List.mem_singleton_self _

/-- In a linked store an entry tells of one node: its own, or the one above it. -/
theorem TellsOf.eq (hlinked : new.Linked) (h : entry.TellsOf old new id)
    (h' : entry.TellsOf old new other) : other = id := by
  rcases h with hkept | hwrapped <;> rcases h' with hkept' | hwrapped'
  · exact hkept'.1.symm.trans hkept.1
  · exact absurd (hkept.1 ▸ hkept.lt_size) (Nat.not_lt.mpr hwrapped'.2.1)
  · exact absurd (hkept'.1 ▸ hkept'.lt_size) (Nat.not_lt.mpr hwrapped.2.1)
  · exact Option.some.inj ((hwrapped'.parent? hlinked).symm.trans (hwrapped.parent? hlinked))

end RetargetedCall

namespace Conversion

open Pass

variable {options : Options} {search : ReferenceSearch} {program final : Program}
  {report : Report} {root : MethodId} {entry : RetargetedCall}

/-- What completes a method at some point of a pass completes it at the end. -/
theorem completes_liftedMethods {methods : Array Method} {ids later : List MethodId}
    {target : MethodId} {method completed : Method} (hnodup : (ids ++ later).Nodup)
    (htarget : (liftedMethods options methods ids)[target]? = some completed)
    (h : method.Completes options.taskType completed) :
    ∃ completed', (liftedMethods options methods (ids ++ later))[target]? = some completed' ∧
      method.Completes options.taskType completed' := by
  have hlater : liftedMethods options methods (ids ++ later) =
      liftedMethods options (liftedMethods options methods ids) later := List.foldl_append
  rw [hlater, getElem?_liftedMethods options _ (List.nodup_append.mp hnodup).2.1, htarget]
  by_cases hmem : target ∈ later
  · rw [if_pos hmem]
    exact ⟨_, rfl, h.lift⟩
  · rw [if_neg hmem]
    exact ⟨_, rfl, h⟩

/-- An entry from the scan of a body tells of one call. Its callee is not planned and keeps its
signature, and when the pass is over the target completes it. -/
theorem runWith_types_counterparts (hwellFormed : program.WellFormed)
    (hstrict : options.counterpart = .strict)
    (hrun : runWith options search program root = (.ok report, final))
    (hentry : entry ∈ report.retargeted) (hscan : entry.origin = .bodyScan) :
    ∃ slot receiver name callee args,
      program.nodes.get? slot = some (.call receiver name (some callee) args) ∧
      (∀ other, entry.TellsOf program.nodes final.nodes other ↔ other = slot) ∧
      callee ∉ (program.plan root).order ∧
      ∃ method completed, program.methods[callee]? = some method ∧
        final.methods[callee]? = some method ∧
        final.methods[entry.target]? = some completed ∧
        method.Completes options.taskType completed ∧
        completed.returnType.isCompletion options.taskType = true := by
  obtain ⟨-, rfl, rfl⟩ := passAfter_of_runWith_ok hrun
  obtain ⟨before, id, after, horder, slot, reference, -, hold, hadmits, htells⟩ :=
    stemsFrom_passAfter hentry
  obtain ⟨receiver, name, callee, args, rfl, hcallee, hcounterpart⟩ := hadmits hscan
  have hlinked := (passAfter_expanding options search hwellFormed.forest.linked root
    (program.plan root).order).linked
  have hnodup := program.nodup_plan_order root
  have hsplit : (program.plan root).order = (before ++ [id]) ++ after := by
    rw [horder, List.append_cons]
  have hunplanned : callee ∉ before ++ [id] := fun hmem =>
    hcallee (hsplit ▸ List.mem_append_left after hmem)
  have hfinal := getElem?_passAfter options search program root hnodup callee
  rw [if_neg hcallee] at hfinal
  -- At the turn of the method whose body it is the callee has its old signature.
  obtain ⟨method, completed, hmethod, hcompleted, hcompletes⟩ :=
    Program.completes_of_counterpart? hstrict hcounterpart
  rw [Program.withLifted, getElem?_liftedMethods options _
    (List.nodup_append.mp (hsplit ▸ hnodup)).1, if_neg hunplanned] at hmethod
  obtain ⟨completed', hcompleted', hcompletes'⟩ :=
    completes_liftedMethods (hsplit ▸ hnodup) hcompleted hcompletes
  refine ⟨slot, receiver, name, callee, args, hold, fun other => ⟨fun hother => ?_, ?_⟩, hcallee,
    method, completed', hmethod, hfinal.trans hmethod, ?_, hcompletes', ?_⟩
  · exact RetargetedCall.TellsOf.eq hlinked htells hother
  · rintro rfl
    exact htells
  · rw [passAfter_program, hsplit]
    exact hcompleted'
  · rw [hcompletes'.returnType]
    exact TypeExpr.isCompletion_completion _ _

/-- The counterpart is planned after the method whose body is scanned, and is converted when the
call has been pointed at it already. -/
theorem runWith_types_counterparts_plannedCounterpart :
    plannedCounterpart.WellFormed ∧
    ∃ report final, run {} plannedCounterpart 1 = (.ok report, final) ∧
      (⟨3, 1, .method 0, true, .bodyScan⟩ : RetargetedCall) ∈ report.retargeted ∧
      1 ∈ (plannedCounterpart.plan 1).order ∧
      ∃ slot receiver name callee args,
        plannedCounterpart.nodes.get? slot = some (.call receiver name (some callee) args) ∧
        ∃ method completed, plannedCounterpart.methods[callee]? = some method ∧
          final.methods[callee]? = some method ∧ final.methods[1]? = some completed ∧
          method.Completes "Task" completed := by
  have hdepth : plannedCounterpart.nodes.DepthAtMost 5 := by
    unfold NodeStore.DepthAtMost
    decide +kernel
  have hwellFormed : plannedCounterpart.WellFormed :=
    ⟨NodeStore.forest_of_depth hdepth (by decide +kernel) (by decide +kernel) (by decide +kernel),
      by decide +kernel, by decide +kernel⟩
  have hrun : run {} plannedCounterpart 1 = _ :=
    runWith_of_declared (by decide +kernel) (by decide +kernel)
  have hentry : (⟨3, 1, .method 0, true, .bodyScan⟩ : RetargetedCall) ∈
      (passAfter {} (.anchoredAt .solution plannedCounterpart 1) plannedCounterpart 1
        (plannedCounterpart.plan 1).order).report.retargeted := by decide +kernel
  obtain ⟨slot, receiver, name, callee, args, hcall, -, -, method, completed, hmethod, hsame,
    htarget, hcompletes, -⟩ := runWith_types_counterparts hwellFormed rfl hrun hentry rfl
  exact ⟨hwellFormed, _, _, hrun, hentry, by decide +kernel, slot, receiver, name, callee, args,
    hcall, method, completed, hmethod, hsame, htarget, hcompletes⟩

end Conversion

end AsyncLift
