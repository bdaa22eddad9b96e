import AsyncLift.Program.Builder
import AsyncLift.Proofs.ReferenceRewriting

/-!
# Under which names methods are called

A call is pointed at a method under the name that the method has at that moment. The search does so
at the method's own turn, when it has its new name. The scan of a body may point a call at a method
that is planned, but whose turn is still to come: then the call has the old name, and it is settled,
so that the search leaves it alone (`Outrun`).

`run_spells_calls`: these are the only calls in functions that do not go by the current name of the
method that they call.
-/

namespace AsyncLift

namespace Program

/-- Whether a node, if it is the call of a method, goes by the method's name. -/
def isSpelled (program : Program) : Node → Bool
  | .call _ name (some target) _ => program.methods[target]?.any (·.name == name)
  | _ => true

/-- Calls go by the name of the method that they call. -/
def CallsSpelled (program : Program) : Prop :=
  ∀ id < program.nodes.size, (program.nodes.get? id).all program.isSpelled = true

theorem CallsSpelled.name_eq {program : Program} (h : program.CallsSpelled) {id : NodeId}
    {receiver : Slot} {name : String} {target : MethodId} {args : List Slot}
    (hnode : program.nodes.get? id = some (.call receiver name (some target) args)) :
    ∃ method, program.methods[target]? = some method ∧ name = method.name := by
  have hspelled := h id (NodeStore.lt_size_of_get? hnode)
  rw [hnode] at hspelled
  obtain ⟨method, hmethod, hname⟩ := Option.any_eq_true _ _ |>.mp hspelled
  exact ⟨method, hmethod, (beq_iff_eq.mp hname).symm⟩

end Program

/-- The entry is warranted, and its call goes by the name that the target has. -/
def RetargetedCall.Spelled (entry : RetargetedCall) (admits : Pass.Warrant)
    (methods : Array Method) (nodes : NodeStore) : Prop :=
  (∃ node reference, admits node reference entry.origin entry.target) ∧
    ∃ receiver method args, methods[entry.target]? = some method ∧
      nodes.get? entry.node = some (.call receiver method.name (some entry.target) args)

namespace Pass

variable {admits : Warrant} {pass pass' : Pass} {old : NodeStore} {entry : RetargetedCall}

theorem Step.new_entry (hstep : Step admits pass pass')
    (hentry : entry ∈ pass'.report.retargeted) : entry ∈ pass.report.retargeted ∨
      entry.Spelled admits pass.program.methods pass'.program.nodes := by
  cases hstep with
  | kept => exact .inl hentry
  | skipped => exact .inl hentry
  | @renamed node receiver name target args method nodes new _ _ hadmits hmethod hplace _ hnodes =>
    rcases List.mem_append.mp hentry with hold | hlast
    · exact .inl hold
    · rw [List.mem_singleton.mp hlast]
      refine .inr ⟨⟨_, _, hadmits⟩, receiver, method, args, hmethod, ?_⟩
      exact (hnodes.get?_eq _).trans (if_pos hplace)
  | @wrapped node receiver name target args method nodes new _ hnode hadmits hmethod hplace _ _
      hnodes =>
    rcases List.mem_append.mp hentry with hold | hlast
    · exact .inl hold
    · rw [List.mem_singleton.mp hlast]
      refine .inr ⟨⟨_, _, hadmits⟩, receiver, method, args, hmethod, ?_⟩
      have hmoved : new.node ≠ node := hplace ▸ Nat.ne_of_gt (NodeStore.lt_size_of_get? hnode)
      exact (hnodes.get?_eq _).trans ((if_neg hmoved).trans (if_pos hplace))

theorem Steps.new_entry (hsteps : Steps admits pass pass') (htraces : Traces old pass)
    (hentry : entry ∈ pass'.report.retargeted) : entry ∈ pass.report.retargeted ∨
      entry.Spelled admits pass.program.methods pass'.program.nodes := by
  rcases hsteps.exists_step_of_entry hentry with
    hfirst | ⟨middle, next, hbefore, hstep, hafter, hold, hnew⟩
  · exact .inl hfirst
  rcases hstep.new_entry hnew with hmiddle | ⟨hadmits, receiver, method, args, hmethod, hcall⟩
  · exact absurd hmiddle hold
  · -- The call is settled since the entry was made.
    have hnext := (htraces.steps hbefore).step hstep
    have hsettled := ((Continues.refl next).steps hnext.visited_known hafter).settled entry.node
      (hnext.entries entry hnew).1
    rw [Steps.methods_eq hbefore] at hmethod
    exact .inr ⟨hadmits, receiver, method, args, hmethod, hsettled.trans hcall⟩

end Pass

namespace Conversion

open Pass

variable {options : Options} {scope : SearchScope} {anchor : Option ModuleId}
  {search : ReferenceSearch} {program final : Program} {report : Report} {root target : MethodId}
  {before after ids : List MethodId} {node : NodeId} {entry : RetargetedCall} {receiver : Slot}
  {name : String} {args : List Slot} {enclosing : EnclosingFunction}

theorem passAfter_continues (options : Options) (search : ReferenceSearch) (program : Program)
    (root : MethodId) (before after : List MethodId) :
    Continues (passAfter options search program root before)
      (passAfter options search program root (before ++ after)) := by
  have hknown := (passAfter_traces options search program root before).visited_known
  have happend : passAfter options search program root (before ++ after) = _ :=
    passOver_append before after
  rw [happend]
  exact passOver_continues hknown (Continues.refl _) after

/-- An entry comes up when some method is converted. -/
theorem exists_turn_of_entry
    (hentry : entry ∈ (passAfter options search program root ids).report.retargeted) :
    ∃ before id after, ids = before ++ id :: after ∧
      entry ∉ (passAfter options search program root before).report.retargeted ∧
      entry ∈ (passAfter options search program root (before ++ [id])).report.retargeted := by
  induction ids using List.reverseRecOn with
  | nil => cases hentry
  | append_singleton ids id ih =>
    by_cases hearlier : entry ∈ (passAfter options search program root ids).report.retargeted
    · obtain ⟨before, id', after, rfl, hold, hnew⟩ := ih hearlier
      exact ⟨before, id', after ++ [id], by simp, hold, hnew⟩
    · exact ⟨ids, id, [], rfl, hearlier, hentry⟩

/-- From its turn on, the call of an entry goes by the name that the target has then. -/
theorem spelled_passAfter (hentry : entry ∈
      (passAfter options (.inProgram scope anchor) program root ids).report.retargeted) :
    ∃ before id after, ids = before ++ id :: after ∧
      entry ∈ (passAfter options (.inProgram scope anchor) program root
        (before ++ [id])).report.retargeted ∧
      entry.Spelled (Warranted (program.plan root).order id)
        (passAfter options (.inProgram scope anchor) program root (before ++ [id])).program.methods
        (passAfter options (.inProgram scope anchor) program root ids).program.nodes := by
  obtain ⟨before, id, after, rfl, hold, hnew⟩ := exists_turn_of_entry hentry
  refine ⟨before, id, after, rfl, hnew, ?_⟩
  have htraces := passAfter_traces options (.inProgram scope anchor) program root before
  have hsteps := passAfter_steps_warranted options scope anchor program root before id
  rcases hsteps.new_entry (htraces.lift options id) hnew with
    hearlier | ⟨hwarranted, receiver, method, args, hmethod, hcall⟩
  · rw [lift_retargeted] at hearlier
    exact absurd hearlier hold
  · have hcontinues := passAfter_continues options (.inProgram scope anchor) program root
      (before ++ [id]) after
    have hvisited := ((htraces.lift options id).steps hsteps).entries entry hnew
    rw [← List.append_cons] at hcontinues
    rw [← hsteps.methods_eq] at hmethod
    exact ⟨hwarranted, receiver, method, args, hmethod,
      (hcontinues.settled entry.node hvisited.1).trans hcall⟩

/-! ## Calls of methods that are converted later -/

/-- The call was retargeted while the method that it calls was still to be converted. -/
def Outrun (options : Options) (program : Program) (root : MethodId) (node : NodeId)
    (target : MethodId) : Prop :=
  ∃ before after, (program.plan root).order = before ++ after ∧ target ∈ after ∧
    ∃ entry ∈ (passAfter options (.anchoredAt options.scope program root) program root
      before).report.retargeted, entry.node = node

section

variable {last : Pass}
  (hlast : last = passAfter options (.anchoredAt options.scope program root) program root
    (program.plan root).order)
  (hnode : last.program.nodes.get? node = some (.call receiver name (some target) args))
include hlast hnode

/-- Such a call has the old name of its method, and it was come by in the scan of a body. -/
theorem Outrun.spelled (h : Outrun options program root node target) :
    ∃ signature, program.methods[target]? = some signature ∧ name = signature.name ∧
      target ∈ (program.plan root).order ∧
      ∃ entry ∈ last.report.retargeted, entry.node = node ∧ entry.origin = .bodyScan := by
  obtain ⟨before, after, horder, hafter, entry, hentry, rfl⟩ := h
  have hnodup := program.nodup_plan_order root
  have hcontinues := passAfter_continues options (.anchoredAt options.scope program root) program
    root before after
  rw [← horder, ← hlast] at hcontinues
  have htraces := passAfter_traces options (.anchoredAt options.scope program root) program root
    before
  obtain ⟨earlier, id, later, rfl, -, ⟨place, reference, hwarranted⟩, receiver', method, args',
      hmethod, hcall⟩ := spelled_passAfter hentry
  have hsettled := hcontinues.settled entry.node (htraces.entries entry hentry).1
  cases hnode.symm.trans (hsettled.trans hcall)
  rw [horder] at hnodup
  have hdone : entry.target ∉ earlier ++ id :: later := fun hmem =>
    (List.nodup_append.mp hnodup).2.2 _ hmem _ hafter rfl
  have hprefix : (earlier ++ [id]).Nodup ∧ entry.target ∉ earlier ++ [id] := by
    rw [List.append_cons] at hnodup hdone
    rw [List.append_assoc] at hnodup
    exact ⟨(List.nodup_append.mp hnodup).1, fun hmem => hdone (List.mem_append_left _ hmem)⟩
  rw [getElem?_passAfter _ _ _ _ hprefix.1, if_neg hprefix.2] at hmethod
  refine ⟨method, hmethod, rfl, ?_, entry, hcontinues.mem_retargeted hentry, rfl, ?_⟩
  · rw [horder]
    exact List.mem_append_right _ hafter
  · cases horigin : entry.origin with
    | bodyScan => rfl
    | referenceSearch =>
      -- The search would have pointed the call at the method whose turn it was.
      rw [horigin] at hwarranted
      refine absurd ?_ hdone
      rw [hwarranted.2]
      exact List.mem_append_right _ List.mem_cons_self

/-- A retargeted call that was not outrun goes by the current name of its method: between then and
the end of the conversion the method's turn has not come. -/
theorem spelled_of_entered (hentry : entry ∈ last.report.retargeted) (hplace : entry.node = node)
    (h : ¬ Outrun options program root node target) :
    ∃ signature, last.program.methods[target]? = some signature ∧ name = signature.name := by
  subst hlast hplace
  obtain ⟨before, id, after, horder, hmem, -, receiver', method, args', hmethod, hcall⟩ :=
    spelled_passAfter hentry
  cases hnode.symm.trans hcall
  have hafter : entry.target ∉ after := by
    intro hafter
    refine h ⟨before ++ [id], after, ?_, hafter, entry, hmem, rfl⟩
    rw [horder, List.append_cons]
  have hdone : entry.target ∈ (program.plan root).order ↔ entry.target ∈ before ++ [id] := by
    rw [horder, List.append_cons]
    simp only [List.mem_append, hafter, or_false]
  rw [getElem?_passAfter _ _ _ _ (Program.nodup_of_plan_order_eq horder)] at hmethod
  refine ⟨method, ?_, rfl⟩
  rw [getElem?_passAfter _ _ _ _ (program.nodup_plan_order root), ← hmethod]
  simp only [hdone]

/-- A call that no entry is about is as it was. -/
theorem old_of_not_entered (hentered : ∀ entry ∈ last.report.retargeted, entry.node ≠ node) :
    program.nodes.get? node = some (.call receiver name (some target) args) := by
  have htraces := passAfter_traces options (.anchoredAt options.scope program root) program root
    (program.plan root).order
  rw [← hlast] at htraces
  have hknown : node < program.nodes.size := by
    by_contra hge
    obtain ⟨entry, hentry, hplace⟩ := htraces.fresh node (Nat.le_of_not_lt hge)
      (NodeStore.lt_size_of_get? hnode)
    exact hentered entry hentry hplace
  rcases htraces.told node hknown with hsame | ⟨entry, hentry, hkept | hwrapped⟩
  · exact hsame.symm.trans hnode
  · exact absurd hkept.1 (hentered entry hentry)
  · cases hnode.symm.trans hwrapped.get?_await

end

/-- From the turn of a method on, the nodes expand those that were there then. -/
theorem expanding_from_turn (options : Options) (search : ReferenceSearch)
    (hlinked : program.nodes.Linked)
    (horder : (program.plan root).order = before ++ target :: after) :
    Expanding (atTurn options search program root before target).program.nodes
      (passAfter options search program root (program.plan root).order) := by
  have hturn := atTurn_expanding options search hlinked root before target
  have hsteps := convertMethod_steps_anything options search (program.plan root).order
    (passAfter options search program root before) target
    (declarationsOf (passAfter options search program root before).program target)
  rw [passAfter_order horder]
  exact passOver_expanding hturn.linked (hturn.restart.steps hturn.linked hsteps) after

/-- In the wide scope no call of a planned method that is in a function in the end is as it was. -/
theorem entered_of_planned {last : Pass}
    (hlast : last = passAfter options (.anchoredAt options.scope program root) program root
      (program.plan root).order)
    (hlinked : program.nodes.Linked) (hscope : options.scope = .solution)
    (hdeclared : program.isDeclared target = true)
    (horder : (program.plan root).order = before ++ target :: after)
    (hnode : program.nodes.get? node = some (.call receiver name (some target) args))
    (hcall : last.program.nodes.get? node = some (.call receiver name (some target) args))
    (henclosing : last.program.enclosingFunction? node = some enclosing) :
    ∃ entry ∈ last.report.retargeted, entry.node = node := by
  have hturn := atTurn_expanding options (.anchoredAt options.scope program root) hlinked root
    before target
  have hlater := expanding_from_turn options (.anchoredAt options.scope program root) hlinked horder
  rw [← hlast] at hlater
  have howner : last.program.bodyOwner = (atTurn options (.anchoredAt options.scope program root)
      program root before target).program.bodyOwner := by
    rw [hlast, passAfter_program, atTurn_program]
  have hknown := Nat.lt_of_lt_of_le (NodeStore.lt_size_of_get? hnode) hturn.traces.size_le
  have hwithin :=
    (hlater.stretches howner).enclosingFunction?_of_later hturn.linked hknown henclosing
  obtain ⟨signature, hsignature⟩ := exists_method_of_isDeclared hdeclared
  have hsearched : ∀ later module_, searchedModule? options.scope (program.declaringModule? root)
      later target ≠ some module_ := by
    intro later module_
    rw [hscope]
    exact fun hmodule => nomatch hmodule
  obtain ⟨-, -, -, entry, hentry, haccounts, -⟩ := retargeted_at_turn rfl hlast horder hnode
    (fun _ hmodule => absurd hmodule (hsearched _ _))
    (getElem?_atTurn (Program.nodup_of_plan_order_eq horder) hsignature) hwithin
  rcases haccounts with hplace | ⟨-, hawait⟩
  · exact ⟨entry, hentry, hplace⟩
  · cases hcall.symm.trans hawait

/-- A call in a function that was not outrun goes by the current name of its method. -/
theorem spelled_of_not_outrun {last : Pass}
    (hlast : last = passAfter options (.anchoredAt options.scope program root) program root
      (program.plan root).order)
    (hlinked : program.nodes.Linked) (hspelled : program.CallsSpelled)
    (hscope : options.scope = .solution)
    (hdeclared : ∀ id ∈ (program.plan root).order, program.isDeclared id = true)
    (hnode : last.program.nodes.get? node = some (.call receiver name (some target) args))
    (henclosing : last.program.enclosingFunction? node = some enclosing)
    (houtrun : ¬ Outrun options program root node target) :
    ∃ signature, last.program.methods[target]? = some signature ∧ name = signature.name := by
  by_cases hentered : ∃ entry ∈ last.report.retargeted, entry.node = node
  · obtain ⟨entry, hentry, hplace⟩ := hentered
    exact spelled_of_entered hlast hnode hentry hplace houtrun
  · -- An old call: if its method were planned, the search would have settled it.
    have hold := old_of_not_entered hlast hnode fun entry hentry hplace =>
      hentered ⟨entry, hentry, hplace⟩
    have hunplanned : target ∉ (program.plan root).order := by
      intro hplanned
      obtain ⟨before, after, horder⟩ := List.append_of_mem hplanned
      exact hentered (entered_of_planned hlast hlinked hscope (hdeclared target hplanned) horder
        hold hnode henclosing)
    obtain ⟨method, hmethod, hname⟩ := hspelled.name_eq hold
    refine ⟨method, ?_, hname⟩
    rw [hlast, getElem?_passAfter _ _ _ _ (program.nodup_plan_order root), if_neg hunplanned,
      hmethod]

/-! ## Conversions -/

/-- After a conversion in the wide scope that succeeds, a call in a function goes by the current
name of its method, unless it was pointed at the method by the scan of a body before the method's
turn came: then it has the old name, which lacks the suffix. -/
theorem run_spells_calls (hwellFormed : program.WellFormed) (hspelled : program.CallsSpelled)
    (hscope : options.scope = .solution)
    (hrun : run options program root = (.ok report, final))
    (hnode : final.nodes.get? node = some (.call receiver name (some target) args))
    (henclosing : final.enclosingFunction? node = some enclosing) :
    ∃ method, final.methods[target]? = some method ∧
      (name = method.name ↔
        ¬ Outrun options program root node target ∨ options.suffix = "") ∧
      (Outrun options program root node target → method.name = name ++ options.suffix ∧
        ∃ entry ∈ report.retargeted, entry.node = node ∧ entry.origin = .bodyScan) := by
  obtain ⟨hdeclared, rfl, rfl⟩ := passAfter_of_runWith_ok hrun
  by_cases houtrun : Outrun options program root node target
  · obtain ⟨signature, hsignature, rfl, hplanned, hentry⟩ := houtrun.spelled rfl hnode
    refine ⟨signature.lift options, ?_, ?_, fun _ => ⟨rfl, hentry⟩⟩
    · rw [getElem?_passAfter _ _ _ _ (program.nodup_plan_order root), if_pos hplanned, hsignature]
      rfl
    · have hsuffix : signature.name = signature.name ++ options.suffix ↔ options.suffix = "" := by
        rw [← String.toList_inj, String.toList_append]
        simp
      exact ⟨fun hname => .inr (hsuffix.mp hname), fun h =>
        hsuffix.mpr (h.resolve_left (absurd houtrun))⟩
  · obtain ⟨method, hmethod, hname⟩ := spelled_of_not_outrun rfl hwellFormed.forest.linked hspelled
      hscope hdeclared hnode henclosing houtrun
    exact ⟨method, hmethod, ⟨fun _ => .inl houtrun, fun _ => hname⟩, fun h => absurd h houtrun⟩

/-- A method and its override, both planned, and in the body of the first a call whose callee has
the second for its counterpart. -/
def plannedCounterpart : Program :=
  (Builder.withMain.run
    [.addType .ofClass "A", .addType .ofClass "B", .setBaseClass 1 0,
      .addMethod 0
        { name := "LoadAsync"
          returnType := .named "Task" []
          modifiers := { isVirtual := true } },
      .addMethod 1
        { name := "LoadAsync"
          returnType := .named "Task" []
          modifiers := { isOverride := true } },
      .addMethod 1 { name := "Load" },
      .call none 2 [], .exprStatement (some 0), .setBody 0 [some 1]]).program

theorem run_spells_calls_plannedCounterpart :
    plannedCounterpart.WellFormed ∧ plannedCounterpart.CallsSpelled ∧
    ∃ report final, run {} plannedCounterpart 1 = (.ok report, final) ∧
      final.nodes.get? 3 = some (.call none "LoadAsync" (some 1) []) ∧
      final.enclosingFunction? 3 = some (.method 0) ∧
      ∃ method, final.methods[1]? = some method ∧ "LoadAsync" ≠ method.name := by
  have hdepth : plannedCounterpart.nodes.DepthAtMost 5 := by
    unfold NodeStore.DepthAtMost
    decide +kernel
  have hwellFormed : plannedCounterpart.WellFormed :=
    ⟨NodeStore.forest_of_depth hdepth (by decide +kernel) (by decide +kernel) (by decide +kernel),
      by decide +kernel, by decide +kernel⟩
  have hspelled : plannedCounterpart.CallsSpelled := by
    unfold Program.CallsSpelled
    decide +kernel
  obtain ⟨report, final, hrun, hnode, hfunction⟩ : ∃ report final,
      run {} plannedCounterpart 1 = (.ok report, final) ∧
        final.nodes.get? 3 = some (.call none "LoadAsync" (some 1) []) ∧
        final.enclosingFunction? 3 = some (.method 0) :=
    ⟨_, _, runWith_of_declared (by decide +kernel) (by decide +kernel), by decide +kernel,
      by decide +kernel⟩
  have houtrun : Outrun {} plannedCounterpart 1 3 1 :=
    ⟨[0], [1], by decide +kernel, by decide, ⟨3, 1, .method 0, true, .bodyScan⟩,
      by decide +kernel, rfl⟩
  refine ⟨hwellFormed, hspelled, report, final, hrun, hnode, hfunction, ?_⟩
  obtain ⟨method, hmethod, hname, -⟩ :=
    run_spells_calls hwellFormed hspelled rfl hrun hnode hfunction
  refine ⟨method, hmethod, fun hcurrent => ?_⟩
  rcases hname.mp hcurrent with hnot | hsuffix
  · exact hnot houtrun
  · exact absurd hsuffix (by decide)

end Conversion

end AsyncLift
