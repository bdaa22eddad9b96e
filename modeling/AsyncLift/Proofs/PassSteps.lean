import AsyncLift.Conversion.Run
import AsyncLift.Proofs.NodeStore
import Mathlib.Logic.Relation

/-!
# The steps of a pass

A pass settles one node after another. `Pass.Step` lists everything that can happen when it settles
one: nothing, an entry among the skipped references, a call that is replaced in its place, or a call
that moves below an `await`. A node is settled only if it was not settled before.

The functions that make up a pass are sequences of such steps (`retargetSites_steps`,
`retargetBody_steps`), and converting a method is a change of its signature followed by such a
sequence (`convertMethod_steps`). What a pass does to the nodes and to its report is proved from the
steps alone.
-/

namespace AsyncLift

/-! ## Retargeting one call -/

namespace Program

variable {program result : Program} {node : NodeId} {target : MethodId} {awaiting : Bool}
  {placement : Placement}

/-- Only a call is retargeted, and only to a known method. It keeps its receiver and arguments, and
nothing but the nodes changes. It moves only if it is to be awaited and is not under an `await`. -/
theorem retargetCall_cases
    (h : program.retargetCall node target awaiting = some (placement, result)) :
    ∃ method receiver name old args,
      program.methods[target]? = some method ∧
      program.nodes.get? node = some (.call receiver name old args) ∧
      result = { program with nodes := result.nodes } ∧
      placement.awaited = awaiting ∧
      (placement.call = node ∧ (awaiting && !program.isUnderAwait node) = false ∧
          program.nodes.InPlace node (.call receiver method.name (some target) args)
            result.nodes ∨
        placement.call = program.nodes.size ∧ (awaiting && !program.isUnderAwait node) = true ∧
          program.nodes.Moved node (.call receiver method.name (some target) args)
            result.nodes) := by
  unfold retargetCall at h
  split at h
  · rename_i method receiver name old args hmethod hnode
    have hknown := NodeStore.lt_size_of_get? hnode
    refine ⟨method, receiver, name, old, args, hmethod, hnode, ?_⟩
    dsimp only at h
    split at h
    · rename_i hwrap
      have hawaiting : awaiting = true := (Bool.and_eq_true_iff.mp hwrap).1
      obtain ⟨wrapped, hwrapped, hresult⟩ := Option.map_eq_some_iff.mp h
      cases hresult
      have hmoved := NodeStore.moved_wrapInAwait
        ((NodeStore.get?_set hknown _ node).trans (if_pos rfl)) hwrapped
      exact ⟨rfl, hawaiting.symm, .inr ⟨NodeStore.size_set _ _ _, hwrap, hmoved.of_set hknown⟩⟩
    · rename_i hkeep
      cases h
      exact ⟨rfl, rfl, .inl ⟨rfl, Bool.eq_false_iff.mpr hkeep, NodeStore.inPlace_set hknown _⟩⟩
  · cases h

theorem retargetCall_isSome {method : Method} {receiver : Slot} {name : String}
    {old : Option MethodId} {args : List Slot} (hmethod : program.methods[target]? = some method)
    (hnode : program.nodes.get? node = some (.call receiver name old args)) (awaiting : Bool) :
    ∃ placement result, program.retargetCall node target awaiting = some (placement, result) := by
  have hknown := NodeStore.lt_size_of_get? hnode
  simp only [retargetCall, hmethod, hnode]
  split
  · have hset := (NodeStore.get?_set hknown (.call receiver method.name (some target) args)
      node).trans (if_pos rfl)
    simp only [NodeStore.wrapInAwait, hset, Option.map_some]
    exact ⟨_, _, rfl⟩
  · exact ⟨_, _, rfl⟩

end Program

namespace Pass

/-! ## Steps -/

/-- What a pass may settle: the node, what stands there, how it was come by, and the method that it
is pointed at. -/
abbrev Warrant := NodeId → Node → CallOrigin → MethodId → Prop

/-- The pass after the call at a node was replaced and an entry was made for it. -/
def record (pass : Pass) (node : NodeId) (nodes : NodeStore) (entry : RetargetedCall) : Pass where
  program := { pass.program with nodes }
  visited := entry.node :: node :: pass.visited
  report := { pass.report with retargeted := pass.report.retargeted ++ [entry] }

/-- Everything that can happen when a pass settles a node. -/
inductive Step (admits : Warrant) (pass : Pass) : Pass → Prop
  /-- The node stays as it is, since it is no call or its target is unknown. -/
  | kept {node : NodeId} {reference : Node} {origin : CallOrigin} {target : MethodId}
      (hnew : node ∉ pass.visited) (hnode : pass.program.nodes.get? node = some reference)
      (hadmits : admits node reference origin target) : Step admits pass (pass.visit node)
  /-- The node stays as it is and is reported as skipped. -/
  | skipped {site : CallSite} {reference : Node} (reason : SkipReason)
      (hnew : site.node ∉ pass.visited)
      (hnode : pass.program.nodes.get? site.node = some reference)
      (hadmits : admits site.node reference .referenceSearch site.method) :
      Step admits pass ((pass.visit site.node).skip site reason)
  /-- The call is replaced in its place. -/
  | renamed {node : NodeId} {receiver : Slot} {name : String} {old : Option MethodId}
      {args : List Slot} {method : Method} {nodes : NodeStore} {entry : RetargetedCall}
      (hnew : node ∉ pass.visited)
      (hnode : pass.program.nodes.get? node = some (.call receiver name old args))
      (hadmits : admits node (.call receiver name old args) entry.origin entry.target)
      (hmethod : pass.program.methods[entry.target]? = some method)
      (hentry : entry.node = node)
      (hawaited : entry.awaited = entry.enclosing.isAsync pass.program)
      (hnodes : pass.program.nodes.InPlace node
        (.call receiver method.name (some entry.target) args) nodes) :
      Step admits pass (pass.record node nodes entry)
  /-- The call, which is not under an `await`, moves below one that takes its place. -/
  | wrapped {node : NodeId} {receiver : Slot} {name : String} {old : Option MethodId}
      {args : List Slot} {method : Method} {nodes : NodeStore} {entry : RetargetedCall}
      (hnew : node ∉ pass.visited)
      (hnode : pass.program.nodes.get? node = some (.call receiver name old args))
      (hadmits : admits node (.call receiver name old args) entry.origin entry.target)
      (hmethod : pass.program.methods[entry.target]? = some method)
      (hentry : entry.node = pass.program.nodes.size)
      (hawaited : entry.awaited = entry.enclosing.isAsync pass.program)
      (hasync : entry.awaited = true)
      (hnodes : pass.program.nodes.Moved node
        (.call receiver method.name (some entry.target) args) nodes)
      (hbare : pass.program.isUnderAwait node = false) :
      Step admits pass (pass.record node nodes entry)

/-- Any number of steps. -/
abbrev Steps (admits : Warrant) : Pass → Pass → Prop := Relation.ReflTransGen (Step admits)

variable {admits : Warrant} {pass pass' : Pass}

/-- What one step keeps, any number of steps keeps. -/
theorem Steps.invariant {Inv : Pass → Prop}
    (hstep : ∀ pass pass', Step admits pass pass' → Inv pass → Inv pass')
    (h : Steps admits pass pass') (hpass : Inv pass) : Inv pass' := by
  induction h with
  | refl => exact hpass
  | tail _ step ih => exact hstep _ _ step ih

/-! ## What every step leaves alone -/

/-- Steps change no table of the program but the nodes. -/
theorem Step.program_eq (h : Step admits pass pass') :
    pass'.program = { pass.program with nodes := pass'.program.nodes } := by
  cases h <;> rfl

theorem Step.converted_eq (h : Step admits pass pass') :
    pass'.report.converted = pass.report.converted := by
  cases h <;> rfl

theorem Step.plan_eq (h : Step admits pass pass') : pass'.report.plan = pass.report.plan := by
  cases h <;> rfl

theorem Step.visited_subset (h : Step admits pass pass') : pass.visited ⊆ pass'.visited := by
  cases h with
  | kept | skipped => exact List.subset_cons_self _ _
  | renamed | wrapped =>
    exact List.subset_cons_of_subset _ (List.subset_cons_self _ _)

theorem Step.size_le (h : Step admits pass pass') :
    pass.program.nodes.size ≤ pass'.program.nodes.size := by
  cases h with
  | kept | skipped => exact Nat.le_refl _
  | renamed _ _ _ _ _ _ hnodes => exact Nat.le_of_eq hnodes.size_eq.symm
  | wrapped _ _ _ _ _ _ _ hnodes =>
    have hsize := hnodes.size_eq
    simp only [record]
    omega

/-- A node that is not settled after a step is what it was before. -/
theorem Step.get?_of_not_visited (h : Step admits pass pass') {node : NodeId}
    (hnode : node ∉ pass'.visited) :
    pass'.program.nodes.get? node = pass.program.nodes.get? node := by
  cases h with
  | kept | skipped => rfl
  | renamed _ _ _ _ _ _ hnodes =>
    simp only [record, List.mem_cons, not_or] at hnode ⊢
    rw [hnodes.get?_eq, if_neg hnode.2.1]
  | wrapped _ _ _ _ hentry _ _ hnodes =>
    simp only [record, List.mem_cons, not_or] at hnode ⊢
    rw [hnodes.get?_eq, if_neg hnode.2.1, if_neg (hentry ▸ hnode.1)]

/-- What a step settles is admitted, or it is the fresh place of a call that moved. -/
theorem Step.admitted (h : Step admits pass pass') {node : NodeId} (hnode : node ∈ pass'.visited) :
    node ∈ pass.visited ∨ pass.program.nodes.size ≤ node ∨
      ∃ reference origin target, pass.program.nodes.get? node = some reference ∧
        admits node reference origin target := by
  cases h with
  | kept _ hget hadmits =>
    rcases List.mem_cons.mp hnode with rfl | hold
    · exact .inr (.inr ⟨_, _, _, hget, hadmits⟩)
    · exact .inl hold
  | skipped _ _ hget hadmits =>
    rcases List.mem_cons.mp hnode with rfl | hold
    · exact .inr (.inr ⟨_, _, _, hget, hadmits⟩)
    · exact .inl hold
  | renamed _ hget hadmits _ hentry _ _ =>
    rcases List.mem_cons.mp hnode with rfl | hrest
    · exact .inr (.inr ⟨_, _, _, hentry ▸ hget, hentry ▸ hadmits⟩)
    · rcases List.mem_cons.mp hrest with rfl | hold
      · exact .inr (.inr ⟨_, _, _, hget, hadmits⟩)
      · exact .inl hold
  | wrapped _ hget hadmits _ hentry _ _ _ =>
    rcases List.mem_cons.mp hnode with rfl | hrest
    · exact .inr (.inl (Nat.le_of_eq hentry.symm))
    · rcases List.mem_cons.mp hrest with rfl | hold
      · exact .inr (.inr ⟨_, _, _, hget, hadmits⟩)
      · exact .inl hold

theorem Steps.program_eq (h : Steps admits pass pass') :
    pass'.program = { pass.program with nodes := pass'.program.nodes } := by
  induction h with
  | refl => rfl
  | tail _ step ih => rw [step.program_eq, ih]

theorem Steps.methods_eq (h : Steps admits pass pass') :
    pass'.program.methods = pass.program.methods := by
  rw [h.program_eq]

theorem Steps.converted_eq (h : Steps admits pass pass') :
    pass'.report.converted = pass.report.converted := by
  induction h with
  | refl => rfl
  | tail _ step ih => exact step.converted_eq.trans ih

theorem Steps.visited_subset (h : Steps admits pass pass') : pass.visited ⊆ pass'.visited := by
  induction h with
  | refl => exact List.Subset.refl _
  | tail _ step ih => exact List.Subset.trans ih step.visited_subset

theorem Steps.size_le (h : Steps admits pass pass') :
    pass.program.nodes.size ≤ pass'.program.nodes.size := by
  induction h with
  | refl => exact Nat.le_refl _
  | tail _ step ih => exact Nat.le_trans ih step.size_le

theorem Steps.get?_of_not_visited (h : Steps admits pass pass') {node : NodeId}
    (hnode : node ∉ pass'.visited) :
    pass'.program.nodes.get? node = pass.program.nodes.get? node := by
  induction h with
  | refl => rfl
  | tail _ step ih =>
    exact (step.get?_of_not_visited hnode).trans (ih fun hold => hnode (step.visited_subset hold))

/-- A known node that is not admitted is not settled. -/
theorem Steps.not_visited (h : Steps admits pass pass') {node : NodeId}
    (hknown : node < pass.program.nodes.size) (hnew : node ∉ pass.visited)
    (hadmits : ∀ reference origin target, ¬ admits node reference origin target) :
    node ∉ pass'.visited := by
  induction h with
  | refl => exact hnew
  | tail steps step ih =>
    intro hmem
    rcases step.admitted hmem with hbefore | hfresh | ⟨reference, origin, target, -, hadmitted⟩
    · exact ih hbefore
    · exact Nat.not_lt.mpr hfresh (Nat.lt_of_lt_of_le hknown (Steps.size_le steps))
    · exact hadmits reference origin target hadmitted

/-! ## The functions of a pass as steps -/

/-- Settling a node by `retarget` is one step, whether the call can be retargeted or not. -/
theorem retarget_step {node : NodeId} {reference : Node} {target : MethodId} {origin : CallOrigin}
    (enclosing : EnclosingFunction) (hnew : node ∉ pass.visited)
    (hnode : pass.program.nodes.get? node = some reference)
    (hadmits : admits node reference origin target) :
    Step admits pass ((pass.visit node).retarget node target enclosing origin) := by
  unfold retarget
  cases hcall : (pass.visit node).program.retargetCall node target
      (enclosing.isAsync (pass.visit node).program) with
  | none => exact .kept hnew hnode hadmits
  | some outcome =>
    obtain ⟨placement, result⟩ := outcome
    obtain ⟨method, receiver, name, old, args, hmethod, hget, hresult, hawaited, hplaced⟩ :=
      Program.retargetCall_cases hcall
    have href : reference = .call receiver name old args :=
      Option.some.inj (hnode.symm.trans hget)
    subst href
    simp only
    rw [hresult]
    change Step admits pass (pass.record node result.nodes
      ⟨placement.call, target, enclosing, placement.awaited, origin⟩)
    rcases hplaced with ⟨hplace, -, hnodes⟩ | ⟨hplace, hwrap, hnodes⟩
    · exact .renamed hnew hnode hadmits hmethod hplace hawaited hnodes
    · obtain ⟨hasync, hbare⟩ := Bool.and_eq_true_iff.mp hwrap
      exact .wrapped hnew hnode hadmits hmethod hplace hawaited (hawaited.trans hasync) hnodes
        (Bool.not_eq_true' _ |>.mp hbare)

theorem retargetSite_steps {site : CallSite}
    (hsite : site.node ∉ pass.visited → ∃ reference,
      pass.program.nodes.get? site.node = some reference ∧
        admits site.node reference .referenceSearch site.method) :
    Steps admits pass (pass.retargetSite site) := by
  unfold retargetSite
  split
  · exact .refl
  · rename_i hvisited
    have hnew : site.node ∉ pass.visited := fun hmem => hvisited (List.contains_iff_mem.mpr hmem)
    obtain ⟨reference, hnode, hadmits⟩ := hsite hnew
    dsimp only
    split
    · exact .single (.skipped _ hnew hnode hadmits)
    · exact .single (.skipped _ hnew hnode hadmits)
    · exact .single (retarget_step _ hnew hnode hadmits)

/-- The sites are found before any of them is settled. A site that is not settled when its turn
comes is still what it was. -/
theorem retargetSites_steps {sites : List CallSite}
    (hsites : ∀ site ∈ sites, site.node ∉ pass.visited → ∃ reference,
      pass.program.nodes.get? site.node = some reference ∧
        admits site.node reference .referenceSearch site.method) :
    Steps admits pass (sites.foldl retargetSite pass) := by
  induction sites generalizing pass with
  | nil => exact .refl
  | cons site sites ih =>
    have hfirst : Steps admits pass (pass.retargetSite site) :=
      retargetSite_steps (hsites site List.mem_cons_self)
    -- The later sites are known to be admitted only as they stood before this one was settled.
    refine hfirst.trans (ih fun later hlater hnew => ?_)
    rw [hfirst.get?_of_not_visited hnew]
    exact hsites later (List.mem_cons_of_mem _ hlater) fun hold => hnew (hfirst.visited_subset hold)

variable {options : Options} {planned : List MethodId}

/-- Only a call is pointed at a counterpart, and it is that of its callee, which is not planned. -/
theorem callee_of_counterpartOf? {node : NodeId} {target : MethodId}
    (h : pass.counterpartOf? options planned node = some target) :
    ∃ receiver name callee args,
      pass.program.nodes.get? node = some (.call receiver name (some callee) args) ∧
        callee ∉ planned ∧ pass.program.counterpart? options callee = some target := by
  unfold counterpartOf? at h
  split at h
  · rename_i receiver name callee args hnode
    split at h
    · cases h
    · rename_i hplanned
      split at h
      · cases h
      · exact ⟨receiver, name, callee, args, hnode,
          fun hmem => hplanned (List.contains_iff_mem.mpr hmem), h⟩
  · cases h

theorem retargetInvocation_steps {node : NodeId}
    (hscan : ∀ reference target, pass.program.nodes.get? node = some reference →
      pass.counterpartOf? options planned node = some target →
        admits node reference .bodyScan target) :
    Steps admits pass (pass.retargetInvocation options planned node) := by
  unfold retargetInvocation
  split
  · exact .refl
  · rename_i hvisited
    split
    · rename_i target enclosing hcounterpart _
      obtain ⟨receiver, name, callee, args, hnode, -⟩ := callee_of_counterpartOf? hcounterpart
      exact .single (retarget_step _ (fun hmem => hvisited (List.contains_iff_mem.mpr hmem)) hnode
        (hscan _ _ hnode hcounterpart))
    · exact .refl

/-- What the scan of a body may settle: what is admitted wherever the scan comes to it. -/
def ScanAdmitted (admits : Warrant) (options : Options) (planned : List MethodId)
    (pass : Pass) : Prop :=
  ∀ pass', Steps admits pass pass' → ∀ node reference target,
    pass'.program.nodes.get? node = some reference →
      pass'.counterpartOf? options planned node = some target →
        admits node reference .bodyScan target

theorem ScanAdmitted.after (h : ScanAdmitted admits options planned pass)
    (hsteps : Steps admits pass pass') : ScanAdmitted admits options planned pass' :=
  fun _ hsteps' => h _ (hsteps.trans hsteps')

theorem retargetInvocations_steps (hscan : ScanAdmitted admits options planned pass)
    (calls : List NodeId) :
    Steps admits pass
      (calls.foldl (fun pass node => pass.retargetInvocation options planned node) pass) := by
  induction calls generalizing pass with
  | nil => exact .refl
  | cons node calls ih =>
    have hfirst := retargetInvocation_steps (hscan pass .refl node)
    exact hfirst.trans (ih (hscan.after hfirst))

theorem retargetBody_steps (hscan : ScanAdmitted admits options planned pass)
    (declaration : DeclId) :
    Steps admits pass (pass.retargetBody options planned declaration) := by
  unfold retargetBody
  split
  · exact .refl
  · exact retargetInvocations_steps hscan _

theorem retargetBodies_steps (hscan : ScanAdmitted admits options planned pass)
    (declarations : List DeclId) :
    Steps admits pass (declarations.foldl
      (fun pass declaration => pass.retargetBody options planned declaration) pass) := by
  induction declarations generalizing pass with
  | nil => exact .refl
  | cons declaration declarations ih =>
    have hfirst := retargetBody_steps hscan declaration
    exact hfirst.trans (ih (hscan.after hfirst))

/-! ## Converting a method -/

/-- The pass after a method's signature was changed, if the method is known. -/
def lift (pass : Pass) (options : Options) (id : MethodId) : Pass :=
  match pass.program.liftMethod options id with
  | some (change, program) =>
    { pass with
      program
      report := { pass.report with converted := pass.report.converted ++ [change] } }
  | none => pass

@[simp]
theorem lift_nodes (pass : Pass) (options : Options) (id : MethodId) :
    (pass.lift options id).program.nodes = pass.program.nodes := by
  unfold lift Program.liftMethod
  cases pass.program.methods[id]? <;> rfl

@[simp]
theorem lift_visited (pass : Pass) (options : Options) (id : MethodId) :
    (pass.lift options id).visited = pass.visited := by
  unfold lift
  split <;> rfl

@[simp]
theorem lift_retargeted (pass : Pass) (options : Options) (id : MethodId) :
    (pass.lift options id).report.retargeted = pass.report.retargeted := by
  unfold lift
  split <;> rfl

@[simp]
theorem lift_skipped (pass : Pass) (options : Options) (id : MethodId) :
    (pass.lift options id).report.skipped = pass.report.skipped := by
  unfold lift
  split <;> rfl

/-- Signatures change nothing but the table of methods. -/
theorem lift_program (pass : Pass) (options : Options) (id : MethodId) :
    (pass.lift options id).program =
      { pass.program with methods := pass.program.methods.modify id (·.lift options) } := by
  unfold lift Program.liftMethod
  cases hmethod : pass.program.methods[id]? with
  | some method => rfl
  | none =>
    have hsize := Array.getElem?_eq_none_iff.mp hmethod
    have hsame : pass.program.methods.modify id (·.lift options) = pass.program.methods := by
      refine Array.ext_getElem? fun i => ?_
      rw [Array.getElem?_modify]
      split
      · subst_vars
        rw [hmethod]
        rfl
      · rfl
    rw [hsame]
    rfl

theorem lift_converted {id : MethodId} {method : Method}
    (hmethod : pass.program.methods[id]? = some method)
    (options : Options) :
    (pass.lift options id).report.convertedMethods = pass.report.convertedMethods ++ [id] := by
  simp [lift, Program.liftMethod, hmethod, Report.convertedMethods]

end Pass

namespace Conversion

open Pass

variable {admits : Warrant} {options : Options} {search : ReferenceSearch}
  {planned : List MethodId} {pass : Pass} {id : MethodId}

/-- The search of a method's references may settle what it finds. -/
def SearchAdmitted (admits : Warrant) (search : ReferenceSearch) (pass : Pass)
    (id : MethodId) : Prop :=
  ∀ node ∈ search pass.program id, ∀ reference, pass.program.nodes.get? node = some reference →
    admits node reference .referenceSearch id

theorem callSite?_eq_some {program : Program} {node : NodeId} {site : CallSite}
    (h : program.callSite? id node = some site) :
    site.node = node ∧ site.method = id ∧ site.enclosing = program.enclosingFunction? node ∧
      ∃ reference, program.nodes.get? node = some reference := by
  unfold Program.callSite? at h
  split at h
  · cases h
    exact ⟨rfl, rfl, rfl, _, ‹_›⟩
  · cases h
    exact ⟨rfl, rfl, rfl, _, ‹_›⟩
  · cases h

theorem retargetSites_callSites_steps (hsearch : SearchAdmitted admits search pass id) :
    Steps admits pass ((pass.program.callSites search id).foldl retargetSite pass) := by
  refine retargetSites_steps fun site hsite _ => ?_
  obtain ⟨node, hfound, hsome⟩ := List.mem_filterMap.mp hsite
  obtain ⟨rfl, hmethod, -, reference, hnode⟩ := callSite?_eq_some hsome
  exact ⟨reference, hnode, hmethod ▸ hsearch site.node hfound reference hnode⟩

/-- Converting a method changes its signature and then takes steps. -/
theorem convertMethod_steps (hsearch : SearchAdmitted admits search (pass.lift options id) id)
    (hscan : ScanAdmitted admits options planned (pass.lift options id))
    (declarations : List DeclId) :
    Steps admits (pass.lift options id)
      (convertMethod options search planned pass id declarations) := by
  have hsites := retargetSites_callSites_steps hsearch
  exact hsites.trans (retargetBodies_steps (hscan.after hsites) declarations)

end Conversion

end AsyncLift
