import AsyncLift.Proofs.PlanOrder
import AsyncLift.Proofs.StoreEdits
import Mathlib.Data.List.Induction

/-!
# Which references a pass settles

While a method is converted by a search within the program, only two kinds of nodes are settled:
references to the method, and calls of methods that are not planned (`Conversion.Warranted`). So at
every point of a conversion an old reference to a planned method is settled only if the method has
been converted (`passAfter_confined`), and until then it is as it was (`get?_passAfter`).
-/

namespace AsyncLift.Conversion

open Pass

/-- What may be settled while a method is converted: references to the method, to be pointed at it
again, and by the scan of its bodies calls of methods that are not planned. -/
def Warranted (planned : List MethodId) (method : MethodId) : Warrant :=
  fun _ reference origin target =>
    match origin with
    | .referenceSearch => reference.target? = some method ∧ target = method
    | .bodyScan => ∃ callee, reference.target? = some callee ∧ callee ∉ planned

variable {planned : List MethodId} {options : Options} {scope : SearchScope}
  {anchor : Option ModuleId} {pass : Pass} {id method : MethodId} {node : NodeId}
  {reference : Node}

/-! ## The search within the program -/

/-- The module that a search within the program keeps to, if it keeps to one. -/
def searchedModule? (scope : SearchScope) (anchor : Option ModuleId) (program : Program)
    (id : MethodId) : Option ModuleId :=
  match scope with
  | .solution => none
  | .declaringModule => anchor.or (program.declaringModule? id)

/-- The search finds the references to a method that lie in the module that it keeps to. -/
theorem mem_inProgram {program : Program} :
    node ∈ ReferenceSearch.inProgram scope anchor program id ↔
      (∃ reference, program.nodes.get? node = some reference ∧ reference.target? = some id) ∧
        ∀ module_, searchedModule? scope anchor program id = some module_ →
          program.moduleOf? node = some module_ := by
  have hwithin : ∀ within : Option ModuleId,
      (within.isNone || program.moduleOf? node == within) = true ↔
        ∀ module_, within = some module_ → program.moduleOf? node = some module_ := by
    intro within
    cases within <;> simp
  simp only [ReferenceSearch.inProgram, List.mem_filter, NodeStore.mem_ids, Bool.and_eq_true]
  constructor
  · rintro ⟨-, htarget, hmodule⟩
    refine ⟨?_, (hwithin _).mp hmodule⟩
    cases hnode : program.nodes.get? node with
    | none =>
      rw [hnode] at htarget
      cases htarget
    | some reference =>
      rw [hnode] at htarget
      exact ⟨reference, rfl, beq_iff_eq.mp htarget⟩
  · rintro ⟨⟨reference, hnode, htarget⟩, hmodule⟩
    refine ⟨NodeStore.lt_size_of_get? hnode, ?_, (hwithin _).mpr hmodule⟩
    rw [hnode]
    exact beq_iff_eq.mpr htarget

theorem nodup_inProgram (program : Program) (id : MethodId) :
    (ReferenceSearch.inProgram scope anchor program id).Nodup :=
  List.nodup_range.filter _

theorem inProgram_admitted (planned : List MethodId) (pass : Pass) (id : MethodId) :
    SearchAdmitted (Warranted planned id) (.inProgram scope anchor) pass id := by
  intro node hfound reference hnode
  obtain ⟨⟨reference', hnode', htarget⟩, -⟩ := mem_inProgram.mp hfound
  cases hnode.symm.trans hnode'
  exact ⟨htarget, rfl⟩

theorem scan_admitted (options : Options) (planned : List MethodId) (pass : Pass) (id : MethodId) :
    ScanAdmitted (Warranted planned id) options planned pass := by
  intro pass' _ node reference target hnode hcounterpart
  obtain ⟨receiver, name, callee, args, hcall, hplanned, -⟩ :=
    callee_of_counterpartOf? hcounterpart
  cases hnode.symm.trans hcall
  exact ⟨callee, rfl, hplanned⟩

/-- Converting a method by a search within the program settles only what is warranted. -/
theorem convertMethod_steps_warranted (options : Options) (planned : List MethodId) (pass : Pass)
    (id : MethodId) (declarations : List DeclId) :
    Steps (Warranted planned id) (pass.lift options id)
      (convertMethod options (.inProgram scope anchor) planned pass id declarations) :=
  convertMethod_steps (inProgram_admitted planned _ id) (scan_admitted options planned _ id)
    declarations

/-! ## Confinement -/

/-- No old reference to a planned method is settled unless the method is among those done. -/
def Confined (old : NodeStore) (planned done : List MethodId) (pass : Pass) : Prop :=
  ∀ node ∈ pass.visited, ∀ reference method, old.get? node = some reference →
    reference.target? = some method → method ∈ planned → method ∈ done

theorem Confined.mono {old : NodeStore} {done done' : List MethodId}
    (h : Confined old planned done pass) (hle : done ⊆ done') : Confined old planned done' pass :=
  fun node hnode reference method hold htarget hplanned =>
    hle (h node hnode reference method hold htarget hplanned)

/-- One warranted step settles at most a reference to the method that is being converted. -/
theorem Confined.step {old : NodeStore} {done : List MethodId} {pass' : Pass}
    (hstep : Step (Warranted planned id) pass pass') (htraces : Traces old pass)
    (h : Confined old planned done pass) (hid : id ∈ done) :
    Confined old planned done pass' := by
  intro node hnode reference method hold htarget hplanned
  by_cases hbefore : node ∈ pass.visited
  · exact h node hbefore reference method hold htarget hplanned
  rcases hstep.admitted hnode with hbefore' | hfresh | ⟨reference', origin, target, hnow, hadmits⟩
  · exact absurd hbefore' hbefore
  · exact absurd (NodeStore.lt_size_of_get? hold)
      (Nat.not_lt.mpr (Nat.le_trans htraces.size_le hfresh))
  · -- The node was not settled, so the step saw the old reference.
    have hsame := (htraces.get?_of_not_visited hbefore hnow).2
    cases hold.symm.trans hsame
    cases origin with
    | referenceSearch =>
      cases htarget.symm.trans hadmits.1
      exact hid
    | bodyScan =>
      obtain ⟨callee, hcallee, hunplanned⟩ := hadmits
      cases htarget.symm.trans hcallee
      exact absurd hplanned hunplanned

theorem Confined.steps {old : NodeStore} {done : List MethodId} {pass' : Pass}
    (hsteps : Steps (Warranted planned id) pass pass') (htraces : Traces old pass)
    (h : Confined old planned done pass) (hid : id ∈ done) :
    Traces old pass' ∧ Confined old planned done pass' := by
  let Inv : Pass → Prop := fun pass => Traces old pass ∧ Confined old planned done pass
  have hstep : ∀ pass pass', Step (Warranted planned id) pass pass' → Inv pass → Inv pass' :=
    fun _ _ step h => ⟨h.1.step step, h.2.step step h.1 hid⟩
  exact hsteps.invariant hstep ⟨htraces, h⟩

theorem Confined.lift {old : NodeStore} {done : List MethodId} (h : Confined old planned done pass)
    (options : Options) (id : MethodId) : Confined old planned done (pass.lift options id) := by
  unfold Confined
  rw [lift_visited]
  exact h

variable {program : Program} {root : MethodId}

/-- One more method of the plan: its signature changes, and then only what is warranted is
settled. -/
theorem passAfter_steps_warranted (options : Options) (scope : SearchScope)
    (anchor : Option ModuleId) (program : Program) (root : MethodId) (ids : List MethodId)
    (id : MethodId) :
    Steps (Warranted (program.plan root).order id)
      ((passAfter options (.inProgram scope anchor) program root ids).lift options id)
      (passAfter options (.inProgram scope anchor) program root (ids ++ [id])) := by
  have hconcat : passAfter options (.inProgram scope anchor) program root (ids ++ [id]) = _ :=
    passOver_concat ids id
  rw [hconcat]
  exact convertMethod_steps_warranted options _ _ id _

/-- After some methods of the plan only references to these are settled, as far as references to
planned methods go. -/
theorem passAfter_confined (options : Options) (scope : SearchScope) (anchor : Option ModuleId)
    (program : Program) (root : MethodId) (ids : List MethodId) :
    Confined program.nodes (program.plan root).order ids
      (passAfter options (.inProgram scope anchor) program root ids) := by
  induction ids using List.reverseRecOn with
  | nil => exact fun _ hnode => nomatch hnode
  | append_singleton ids id ih =>
    have htraces := passAfter_traces options (.inProgram scope anchor) program root ids
    have hbefore := (ih.mono (List.subset_append_left ids [id])).lift options id
    exact (hbefore.steps (passAfter_steps_warranted options scope anchor program root ids id)
      (htraces.lift options id) (List.mem_append_right _ List.mem_cons_self)).2

/-- A reference to a planned method is not settled before the method's turn. -/
theorem not_visited_passAfter {ids : List MethodId}
    (hnode : program.nodes.get? node = some reference) (htarget : reference.target? = some method)
    (hplanned : method ∈ (program.plan root).order) (hids : method ∉ ids) :
    node ∉ (passAfter options (.inProgram scope anchor) program root ids).visited :=
  fun hvisited => hids (passAfter_confined options scope anchor program root ids node hvisited
    reference method hnode htarget hplanned)

/-- A reference to a planned method is as it was until the method's turn. -/
theorem get?_passAfter {ids : List MethodId}
    (hnode : program.nodes.get? node = some reference) (htarget : reference.target? = some method)
    (hplanned : method ∈ (program.plan root).order) (hids : method ∉ ids) :
    (passAfter options (.inProgram scope anchor) program root ids).program.nodes.get? node =
      some reference := by
  have htraces := passAfter_traces options (.inProgram scope anchor) program root ids
  exact (htraces.untouched node (NodeStore.lt_size_of_get? hnode)
    (not_visited_passAfter hnode htarget hplanned hids)).trans hnode

end AsyncLift.Conversion
