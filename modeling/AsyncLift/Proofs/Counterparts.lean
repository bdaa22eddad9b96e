import AsyncLift.Proofs.CallNames
import AsyncLift.Proofs.OverrideTargets

/-!
# Which counterparts the scan of a body uses

A counterpart is looked up by name in the program as it is at that moment. By then the methods
converted so far go by their new names, and the scan of a body may come by them: one that had the
callee's name has the name that is looked for, and one that had that name has lost it
(`Program.Meets`). So the scan can point a call at a method that this very conversion has renamed.

`runWith_scans_counterparts`: a call is pointed at the counterpart that its callee has with the
signatures of that moment. This is the counterpart that it had at the outset, unless the search
meets a converted method; and a method that is converted by then was not the counterpart at the
outset.
-/

namespace AsyncLift

namespace Program

variable {program later : Program} {options : Options} {id callee target : MethodId}
  {method : Method} {ids : List MethodId}

/-! ## Two programs with the same types -/

theorem spread_congr (h : later.types = program.types) (seen queue : List TypeId) :
    later.spread seen queue = program.spread seen queue := by
  fun_induction program.spread seen queue with
  | case1 seen => rw [spread]
  | case2 seen type queue hseen ih => rw [spread, if_pos hseen, ih]
  | case3 seen type queue hseen ih => rw [spread, if_neg hseen, supertypesOf_congr h, ih]

theorem searchPath_congr (h : later.types = program.types) (method : Method) :
    later.searchPath method = program.searchPath method := by
  simp only [searchPath, ancestors, supertypesOf_congr h, spread_congr h]

/-- The other members of a name that a type has, if it has any. -/
def othersNamed? (program : Program) (id : MethodId) (name : String) (type : TypeId) :
    Option (List MethodId) :=
  match (program.membersNamed type name).filter (· != id) with
  | [] => none
  | named => some named

theorem nearestNamed_eq (program : Program) (id : MethodId) (method : Method) (name : String) :
    program.nearestNamed id method name =
      ((program.searchPath method).findSome? (program.othersNamed? id name)).getD [] := rfl

/-- What the search comes to are members of a type on its path. -/
theorem mem_nearestNamed {name : String} {candidate : MethodId}
    (h : candidate ∈ program.nearestNamed id method name) :
    ∃ type ∈ program.searchPath method, candidate ∈ program.membersNamed type name := by
  rw [nearestNamed_eq] at h
  cases hfound : (program.searchPath method).findSome? (program.othersNamed? id name) with
  | none =>
    rw [hfound] at h
    cases h
  | some named =>
    rw [hfound] at h
    obtain ⟨type, htype, hnamed⟩ := List.exists_of_findSome?_eq_some hfound
    unfold othersNamed? at hnamed
    split at hnamed
    · cases hnamed
    · cases hnamed
      exact ⟨type, htype, (List.mem_filter.mp h).1⟩

theorem findSome?_congr {α β : Type} {f g : α → Option β} {xs : List α}
    (h : ∀ x ∈ xs, f x = g x) : xs.findSome? f = xs.findSome? g := by
  induction xs with
  | nil => rfl
  | cons x xs ih =>
    rw [List.findSome?_cons, List.findSome?_cons, h x List.mem_cons_self,
      ih fun y hy => h y (List.mem_cons_of_mem _ hy)]

/-- A counterpart depends on the types, on the method, and on the members of the asynchronous name
that stand on the path of the search. -/
theorem counterpart?_congr (htypes : later.types = program.types)
    (hid : later.methods[id]? = program.methods[id]?)
    (hnamed : ∀ method, program.methods[id]? = some method →
      ∀ type ∈ program.searchPath method,
        later.membersNamed type (options.asyncName method.name) =
            program.membersNamed type (options.asyncName method.name) ∧
          ∀ candidate ∈ program.membersNamed type (options.asyncName method.name),
            later.methods[candidate]? = program.methods[candidate]?) :
    later.counterpart? options id = program.counterpart? options id := by
  unfold counterpart?
  rw [hid]
  cases hmethod : program.methods[id]? with
  | none => rfl
  | some method =>
    have hsame := hnamed method hmethod
    have hnearest : later.nearestNamed id method (options.asyncName method.name) =
        program.nearestNamed id method (options.asyncName method.name) := by
      rw [nearestNamed_eq, nearestNamed_eq, searchPath_congr htypes]
      congr 1
      apply findSome?_congr
      intro type htype
      simp only [othersNamed?, (hsame type htype).1]
    have hstrict : (program.nearestNamed id method (options.asyncName method.name)).filter
          (later.isStrictCounterpart options method) =
        (program.nearestNamed id method (options.asyncName method.name)).filter
          (program.isStrictCounterpart options method) := by
      apply List.filter_congr
      intro candidate hcandidate
      obtain ⟨type, htype, hmem⟩ := mem_nearestNamed hcandidate
      simp only [isStrictCounterpart, (hsame type htype).2 candidate hmem]
    simp only [Option.bind_eq_bind, Option.bind_some, hnearest, hstrict]

/-- Whatever the rule, a counterpart is among what the search comes to. -/
theorem mem_nearestNamed_of_counterpart? (h : program.counterpart? options id = some target) :
    ∃ method, program.methods[id]? = some method ∧
      target ∈ program.nearestNamed id method (options.asyncName method.name) := by
  unfold counterpart? at h
  cases hmethod : program.methods[id]? with
  | none =>
    rw [hmethod] at h
    cases h
  | some method =>
    simp only [hmethod, Option.bind_eq_bind, Option.bind_some] at h
    refine ⟨method, rfl, ?_⟩
    split at h
    · cases h
    · exact List.mem_of_head? h
    · split at h
      · rename_i only honly
        cases h
        have htarget : target ∈ [target] := List.mem_singleton_self target
        rw [← honly] at htarget
        exact (List.mem_filter.mp htarget).1
      · cases h

/-- A counterpart has the asynchronous name. -/
theorem name_of_counterpart? (h : program.counterpart? options id = some target) :
    ∃ method other, program.methods[id]? = some method ∧ program.methods[target]? = some other ∧
      other.name = options.asyncName method.name := by
  obtain ⟨method, hmethod, hmem⟩ := mem_nearestNamed_of_counterpart? h
  obtain ⟨type, -, hnamed⟩ := mem_nearestNamed hmem
  rw [membersNamed_eq] at hnamed
  obtain ⟨other, hother, hname⟩ := Option.any_eq_true _ _ |>.mp (List.mem_filter.mp hnamed).2
  exact ⟨method, other, hmethod, hother, beq_iff_eq.mp hname⟩

/-! ## Changed signatures -/

/-- The program with the signatures of the listed methods changed. -/
def withLifted (program : Program) (options : Options) (ids : List MethodId) : Program :=
  { program with methods := liftedMethods options program.methods ids }

/-- The search for a counterpart of the callee comes to a type that lists the other method, and this
has the name of the callee or the asynchronous one. -/
def Meets (program : Program) (options : Options) (callee other : MethodId) : Prop :=
  ∃ method signature, program.methods[callee]? = some method ∧
    program.methods[other]? = some signature ∧
    (signature.name = method.name ∨ signature.name = options.asyncName method.name) ∧
    ∃ type ∈ program.searchPath method, other ∈ program.membersOf type

theorem asyncName_inj {name name' : String} (h : options.asyncName name = options.asyncName name') :
    name = name' :=
  (String.append_left_inj _).mp h

/-- What the search does not meet may change its signature. -/
theorem counterpart?_of_unmet (hnodup : ids.Nodup) (hcallee : callee ∉ ids)
    (hunmet : ∀ other ∈ ids, ¬ program.Meets options callee other) :
    (program.withLifted options ids).counterpart? options callee =
      program.counterpart? options callee := by
  have hmethods : ∀ other : MethodId, (program.withLifted options ids).methods[other]? =
      if other ∈ ids then program.methods[other]?.map (·.lift options)
      else program.methods[other]? :=
    getElem?_liftedMethods options program.methods hnodup
  have htypes : (program.withLifted options ids).types = program.types := rfl
  apply counterpart?_congr htypes
  · rw [hmethods, if_neg hcallee]
  intro method hmethod type htype
  -- A listed member has the asynchronous name neither before nor after the change.
  have hlisted : ∀ other ∈ program.membersOf type, other ∈ ids → ∀ signature,
      program.methods[other]? = some signature →
        signature.name ≠ options.asyncName method.name ∧
          (signature.lift options).name ≠ options.asyncName method.name := by
    intro other hmember hother signature hsignature
    have hmeets : ¬ (signature.name = method.name ∨
        signature.name = options.asyncName method.name) := fun hname =>
      hunmet other hother ⟨method, signature, hmethod, hsignature, hname, type, htype, hmember⟩
    exact ⟨fun hname => hmeets (.inr hname), fun hname => hmeets (.inl (asyncName_inj hname))⟩
  constructor
  · rw [membersNamed_eq, membersNamed_eq]
    apply List.filter_congr
    intro other hmember
    rw [hmethods]
    by_cases hother : other ∈ ids
    · rw [if_pos hother]
      cases hsignature : program.methods[other]? with
      | none => rfl
      | some signature =>
        obtain ⟨hbefore, hafter⟩ := hlisted other hmember hother signature hsignature
        simp [hbefore, hafter]
    · rw [if_neg hother]
  · intro candidate hcandidate
    rw [membersNamed_eq] at hcandidate
    obtain ⟨hmember, hnamed⟩ := List.mem_filter.mp hcandidate
    obtain ⟨signature, hsignature, hname⟩ := Option.any_eq_true _ _ |>.mp hnamed
    rw [hmethods, if_neg]
    intro hother
    exact (hlisted candidate hmember hother signature hsignature).1 (beq_iff_eq.mp hname)

/-- A method that has got its name by the change was no counterpart before. -/
theorem counterpart?_ne_of_lifted (hnodup : ids.Nodup) (hcallee : callee ∉ ids)
    (htarget : target ∈ ids) (hsuffix : options.suffix ≠ "")
    (h : (program.withLifted options ids).counterpart? options callee = some target) :
    program.counterpart? options callee ≠ some target := by
  have hmethods := getElem?_liftedMethods options program.methods hnodup
  intro hbefore
  obtain ⟨method, signature, hmethod, hsignature, hname⟩ := name_of_counterpart? hbefore
  obtain ⟨method', signature', hmethod', hsignature', hname'⟩ := name_of_counterpart? h
  rw [withLifted, hmethods, if_neg hcallee, hmethod] at hmethod'
  rw [withLifted, hmethods, if_pos htarget, hsignature] at hsignature'
  cases hmethod'
  cases hsignature'
  have hsame : signature.name = method.name := asyncName_inj hname'
  rw [hsame] at hname
  apply hsuffix
  exact (String.append_right_inj method.name).mp (hname.symm.trans (String.append_empty).symm)

end Program

/-! ## Where an entry comes from -/

/-- The entry tells of an old call that a pass has settled and was admitted to. -/
def RetargetedCall.StemsFrom (entry : RetargetedCall) (admits : Pass.Warrant) (old : NodeStore)
    (pass : Pass) : Prop :=
  ∃ slot reference, slot ∈ pass.visited ∧ old.get? slot = some reference ∧
    admits slot reference entry.origin entry.target ∧
    (entry.Kept old pass.program.nodes slot ∨ entry.Wrapped old pass.program.nodes slot)

namespace Pass

variable {admits : Warrant} {pass pass' : Pass} {old : NodeStore} {entry : RetargetedCall}

/-- Settled nodes stay as they are, so what an entry tells stays true. -/
theorem Continues.stemsFrom (hcontinues : Continues pass pass') (hnode : entry.node ∈ pass.visited)
    (h : entry.StemsFrom admits old pass) : entry.StemsFrom admits old pass' := by
  obtain ⟨slot, reference, hslot, hold, hadmits, hfate⟩ := h
  refine ⟨slot, reference, hcontinues.visited hslot, hold, hadmits, ?_⟩
  rcases hfate with hkept | hwrapped
  · exact .inl (hkept.congr (hcontinues.settled slot hslot))
  · exact .inr (hwrapped.congr (hcontinues.settled slot hslot) (hcontinues.settled _ hnode))

theorem Step.entry_stemsFrom (hstep : Step admits pass pass') (htraces : Traces old pass)
    (hentry : entry ∈ pass'.report.retargeted) :
    entry ∈ pass.report.retargeted ∨ entry.StemsFrom admits old pass' := by
  cases hstep with
  | kept => exact .inl hentry
  | skipped => exact .inl hentry
  | @renamed node receiver name target args method nodes new hnew hnode hadmits hmethod hplace _
      hnodes =>
    rcases List.mem_append.mp hentry with hearlier | hlast
    · exact .inl hearlier
    · rw [List.mem_singleton.mp hlast]
      exact .inr ⟨node, _, List.mem_cons_of_mem _ List.mem_cons_self,
        (htraces.get?_of_not_visited hnew hnode).2, hadmits,
        .inl (htraces.kept_of_inPlace hnew hnode hplace hnodes)⟩
  | @wrapped node receiver name target args method nodes new hnew hnode hadmits hmethod hplace _
      hasync hnodes =>
    rcases List.mem_append.mp hentry with hearlier | hlast
    · exact .inl hearlier
    · rw [List.mem_singleton.mp hlast]
      exact .inr ⟨node, _, List.mem_cons_of_mem _ List.mem_cons_self,
        (htraces.get?_of_not_visited hnew hnode).2, hadmits,
        .inr (htraces.wrapped_of_moved hnew hnode hplace hasync hnodes)⟩

theorem Steps.entry_stemsFrom (hsteps : Steps admits pass pass') (htraces : Traces old pass)
    (hentry : entry ∈ pass'.report.retargeted) :
    entry ∈ pass.report.retargeted ∨ entry.StemsFrom admits old pass' := by
  rcases hsteps.exists_step_of_entry hentry with
    hfirst | ⟨middle, next, hbefore, hstep, hafter, hold, hnew⟩
  · exact .inl hfirst
  rcases hstep.entry_stemsFrom (htraces.steps hbefore) hnew with hmiddle | hstems
  · exact absurd hmiddle hold
  · have hnext := (htraces.steps hbefore).step hstep
    have hcontinues := (Continues.refl next).steps hnext.visited_known hafter
    exact .inr (hcontinues.stemsFrom (hnext.entries entry hnew).1 hstems)

end Pass

namespace Conversion

open Pass

variable {options : Options} {search : ReferenceSearch} {program final : Program}
  {report : Report} {root : MethodId} {ids planned : List MethodId} {entry : RetargetedCall}

/-- What the scan of a body may settle: calls whose callee is not planned and has the target for its
counterpart. -/
def Scanned (program : Program) (options : Options) (planned : List MethodId) : Warrant :=
  fun _ reference origin target => origin = .bodyScan → ∃ receiver name callee args,
    reference = .call receiver name (some callee) args ∧ callee ∉ planned ∧
      program.counterpart? options callee = some target

theorem Scanned.scan_admitted {pass : Pass} (htypes : pass.program.types = program.types)
    (hmethods : pass.program.methods = program.methods) :
    ScanAdmitted (Scanned program options planned) options planned pass := by
  intro pass' hsteps node reference target hnode hcounterpart _
  obtain ⟨receiver, name, callee, args, hcall, hplanned, htarget⟩ :=
    callee_of_counterpartOf? hcounterpart
  have hsame : pass'.program.counterpart? options callee = program.counterpart? options callee := by
    have htypes' : pass'.program.types = program.types := by
      rw [hsteps.program_eq]
      exact htypes
    have hmethods' : pass'.program.methods = program.methods := hsteps.methods_eq.trans hmethods
    apply Program.counterpart?_congr htypes'
    · rw [hmethods']
    · intro method _ type _
      simp only [Program.membersNamed, htypes', hmethods', true_and]
      exact fun _ _ => trivial
  cases hnode.symm.trans hcall
  exact ⟨receiver, name, callee, args, rfl, hplanned, hsame ▸ htarget⟩

/-- One more method of the plan: its signature changes, and its bodies are scanned with the
signatures as they are then. -/
theorem passAfter_steps_scanned (options : Options) (search : ReferenceSearch) (program : Program)
    (root : MethodId) (ids : List MethodId) (id : MethodId) :
    Steps (Scanned (program.withLifted options (ids ++ [id])) options (program.plan root).order)
      ((passAfter options search program root ids).lift options id)
      (passAfter options search program root (ids ++ [id])) := by
  have hconcat : passAfter options search program root (ids ++ [id]) = _ := passOver_concat ids id
  have hlifted : ((passAfter options search program root ids).lift options id).program.methods =
      (program.withLifted options (ids ++ [id])).methods := by
    rw [lift_program, passAfter_program, Program.withLifted, liftedMethods_concat]
  have htypes : ((passAfter options search program root ids).lift options id).program.types =
      (program.withLifted options (ids ++ [id])).types := by
    rw [lift_program, passAfter_program]
    rfl
  rw [hconcat]
  apply convertMethod_steps
  · intro node _ reference _ hscan
    cases hscan
  · exact Scanned.scan_admitted htypes hlifted

/-- An entry comes up at the turn of some method, and if the scan of a body made it, with the
signatures of that moment. -/
theorem stemsFrom_passAfter
    (hentry : entry ∈ (passAfter options search program root ids).report.retargeted) :
    ∃ before id after, ids = before ++ id :: after ∧
      entry.StemsFrom
        (Scanned (program.withLifted options (before ++ [id])) options (program.plan root).order)
        program.nodes (passAfter options search program root ids) := by
  obtain ⟨before, id, after, rfl, hold, hnew⟩ := exists_turn_of_entry hentry
  refine ⟨before, id, after, rfl, ?_⟩
  have htraces := passAfter_traces options search program root before
  have hsteps := passAfter_steps_scanned options search program root before id
  rcases hsteps.entry_stemsFrom (htraces.lift options id) hnew with hearlier | hstems
  · rw [lift_retargeted] at hearlier
    exact absurd hearlier hold
  · have hcontinues := passAfter_continues options search program root (before ++ [id]) after
    have hvisited := ((htraces.lift options id).steps hsteps).entries entry hnew
    rw [← List.append_cons] at hcontinues
    exact hcontinues.stemsFrom hvisited.1 hstems

/-! ## Conversions -/

/-- An entry from the scan of a body tells of an old call whose callee is not planned. It is pointed
at the counterpart that the callee has once the methods up to the one whose body it is have their
new signatures. -/
theorem runWith_scans_counterparts
    (hrun : runWith options search program root = (.ok report, final))
    (hentry : entry ∈ report.retargeted) (hscan : entry.origin = .bodyScan) :
    ∃ slot receiver name callee args,
      program.nodes.get? slot = some (.call receiver name (some callee) args) ∧
      (entry.Kept program.nodes final.nodes slot ∨
        entry.Wrapped program.nodes final.nodes slot) ∧
      callee ∉ (program.plan root).order ∧
      ∃ before id after, (program.plan root).order = before ++ id :: after ∧
        (program.withLifted options (before ++ [id])).counterpart? options callee =
          some entry.target ∧
        ((∀ other ∈ before ++ [id], ¬ program.Meets options callee other) →
          program.counterpart? options callee = some entry.target) ∧
        (entry.target ∈ before ++ [id] → options.suffix ≠ "" →
          program.counterpart? options callee ≠ some entry.target) := by
  obtain ⟨-, rfl, rfl⟩ := passAfter_of_runWith_ok hrun
  obtain ⟨before, id, after, horder, slot, reference, -, hold, hadmits, hfate⟩ :=
    stemsFrom_passAfter hentry
  obtain ⟨receiver, name, callee, args, rfl, hcallee, hcounterpart⟩ := hadmits hscan
  have hnodup : (before ++ [id]).Nodup := Program.nodup_of_plan_order_eq horder
  have hearlier : callee ∉ before ++ [id] := by
    intro hmem
    apply hcallee
    rw [horder, List.append_cons]
    exact List.mem_append_left _ hmem
  refine ⟨slot, receiver, name, callee, args, hold, hfate, hcallee, before, id, after, horder,
    hcounterpart, ?_, ?_⟩
  · intro hunmet
    rw [← hcounterpart, Program.counterpart?_of_unmet hnodup hearlier hunmet]
  · intro htarget hsuffix
    exact Program.counterpart?_ne_of_lifted hnodup hearlier htarget hsuffix hcounterpart

/-- A method that calls the method which hides it in a derived class. -/
def hiddenLoad : Program :=
  (Builder.withMain.run
    [.addType .ofClass "Store", .addType .ofClass "CachedStore", .setBaseClass 1 0,
      .addMethod 0 { name := "Load" }, .addMethod 1 { name := "Load" },
      .call none 1 [], .exprStatement (some 0), .setBody 0 [some 1]]).program

theorem ancestors_hiddenLoad {later : Program} (h : later.types = hiddenLoad.types) :
    later.ancestors 1 = [0] := by
  have hderived : hiddenLoad.supertypesOf 1 = [0] := by decide +kernel
  have hbase : hiddenLoad.supertypesOf 0 = [] := by decide +kernel
  simp [Program.ancestors, Program.spread, Program.supertypesOf_congr h, hderived, hbase]

/-- The program at the turn of the method, which has its new name. -/
def hiddenLoadAtTurn : Pass := (outset hiddenLoad 0).lift {} 0

theorem counterpart?_hiddenLoadAtTurn : hiddenLoadAtTurn.program.counterpart? {} 1 = some 0 := by
  have hmethod : hiddenLoadAtTurn.program.methods[1]? =
      some { owner := 1, name := "Load", declarations := [1] } := by decide +kernel
  have hancestors : hiddenLoadAtTurn.program.ancestors 1 = [0] :=
    ancestors_hiddenLoad (by decide +kernel)
  simp only [Program.counterpart?, Program.nearestNamed, Program.searchPath, hmethod, hancestors,
    Option.bind_eq_bind, Option.bind_some]
  decide +kernel

theorem retargeted_hiddenLoad :
    (passAfter {} (.anchoredAt .solution hiddenLoad 0) hiddenLoad 0 [0]).report.retargeted =
      [⟨3, 0, .method 0, true, .bodyScan⟩] := by
  have hplan : (hiddenLoad.plan 0).order = [0] := by decide +kernel
  have hdeclarations : declarationsOf (outset hiddenLoad 0).program 0 = [0] := by decide +kernel
  have hsites : hiddenLoadAtTurn.program.callSites (.anchoredAt .solution hiddenLoad 0) 0 = [] := by
    decide +kernel
  have hcalls : hiddenLoadAtTurn.program.invocations 2 = [0] := by decide +kernel
  have hcounterpart : hiddenLoadAtTurn.counterpartOf? {} [0] 0 = some 0 :=
    counterpart?_hiddenLoadAtTurn
  have hfunction : hiddenLoadAtTurn.program.enclosingFunction? 0 = some (.method 0) := by
    decide +kernel
  have hpass : passAfter {} (.anchoredAt .solution hiddenLoad 0) hiddenLoad 0 [0] =
      hiddenLoadAtTurn.retargetInvocation {} [0] 0 := by
    rw [passAfter, passOver_cons, hplan, hdeclarations]
    show List.foldl _ (List.foldl _ _ (hiddenLoadAtTurn.program.callSites _ 0)) _ = _
    rw [hsites]
    show List.foldl _ _ (hiddenLoadAtTurn.program.invocations 2) = _
    rw [hcalls]
    rfl
  rw [hpass, retargetInvocation, hcounterpart, hfunction]
  decide +kernel

theorem runWith_scans_counterparts_hiddenLoad :
    ∃ report final, run {} hiddenLoad 0 = (.ok report, final) ∧
      ∃ entry ∈ report.retargeted, entry.origin = .bodyScan ∧ entry.target = 0 ∧
        ∃ slot receiver name callee args,
          hiddenLoad.nodes.get? slot = some (.call receiver name (some callee) args) ∧
          (entry.Kept hiddenLoad.nodes final.nodes slot ∨
            entry.Wrapped hiddenLoad.nodes final.nodes slot) ∧
          hiddenLoad.counterpart? {} callee ≠ some 0 := by
  have hplan : (hiddenLoad.plan 0).order = [0] := by decide +kernel
  have hrun : run {} hiddenLoad 0 = _ :=
    runWith_of_declared (by decide +kernel) (by decide +kernel)
  have hentry : (⟨3, 0, .method 0, true, .bodyScan⟩ : RetargetedCall) ∈
      (passAfter {} (.anchoredAt .solution hiddenLoad 0) hiddenLoad 0
        (hiddenLoad.plan 0).order).report.retargeted := by
    rw [hplan, retargeted_hiddenLoad]
    exact List.mem_singleton_self _
  obtain ⟨slot, receiver, name, callee, args, hcall, hfate, -, before, id, after, horder, -, -,
    hlifted⟩ := runWith_scans_counterparts hrun hentry rfl
  have hconverted : 0 ∈ before ++ [id] := by
    rw [hplan] at horder
    rcases List.append_eq_singleton_iff.mp horder.symm with ⟨rfl, hid⟩ | ⟨-, hnil⟩
    · cases hid
      exact List.mem_singleton_self 0
    · cases hnil
  exact ⟨_, _, hrun, _, hentry, rfl, rfl, slot, receiver, name, callee, args, hcall, hfate,
    hlifted hconverted (by decide)⟩

end Conversion

end AsyncLift
