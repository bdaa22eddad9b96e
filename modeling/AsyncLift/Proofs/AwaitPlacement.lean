import AsyncLift.Proofs.Integrity
import AsyncLift.Proofs.ReferenceRewriting

/-!
# Where conversions put an `await`

One conversion after another may go over the same trees, and trees grow by every `await`. So that
walks upwards still reach their end, every program of the sequence is compared with the first one:
`NodeStore.Regrown` says that a call is moved at most once in all, since from then on it is under an
`await`. In trees of at most half as many levels as `maxParentHops` this leaves every enclosing
function as it was (`Program.ConvertedFrom.enclosingFunction?_old`), and the fresh place of a call
has the enclosing function of its old place (`ConvertedFrom.enclosingFunction?_fresh`).

A pass decides on an `await` by the enclosing function that it has found, for references before any
of them is settled. `Pass.StepWithin` adds to a step that this is the function that encloses the
node; `passOver_invariant_within` gives what such steps keep.

`requests_await_within_async`: after any requests every new `await` is in a function that is
asynchronous then, and each successful request reports functions that enclose the calls in the
program that it leaves behind.
-/

namespace AsyncLift

namespace NodeStore

variable {old store result : NodeStore} {id : NodeId} {node node' : Node}

/-- The store has come from an old one by replacing calls, each moved below an `await` at most
once. -/
structure Regrown (old store : NodeStore) : Prop where
  size_le : old.size ≤ store.size
  linked : store.Linked
  expands : old.Expands store
  /-- An old node is as it was, or it was a call and now is a call with the same children or an
  `await`. -/
  known : ∀ id < old.size, store.get? id = old.get? id ∨
    (old.get? id).any (·.isCall) = true ∧ ∃ node, store.get? id = some node ∧
      (node.isCall = true ∧ node.children = old.childrenOf id ∨ ∃ operand, node = .await operand)
  /-- A fresh node is a call, and an `await` of it stands in an old place. -/
  fresh : ∀ id, old.size ≤ id → id < store.size →
    (store.get? id).any (·.isCall) = true ∧
      ∃ slot < old.size, store.get? slot = some (.await (some id))

namespace Regrown

theorem refl (hlinked : old.Linked) : old.Regrown old where
  size_le := Nat.le_refl _
  linked := hlinked
  expands := .refl _
  known _ _ := .inl rfl
  fresh _ hle hlt := absurd hlt (Nat.not_lt.mpr hle)

/-- A call in an old place was a call, and it has the children that it had. -/
theorem call_known (h : old.Regrown store) (hid : id < old.size)
    (hnode : store.get? id = some node) (hcall : node.isCall = true) :
    (old.get? id).any (·.isCall) = true ∧ node.children = old.childrenOf id := by
  rcases h.known id hid with hsame | ⟨hold, now, hnow, hfate⟩
  · have hold : old.get? id = some node := hsame.symm.trans hnode
    rw [hold, childrenOf_of_get? hold]
    exact ⟨hcall, rfl⟩
  · cases hnode.symm.trans hnow
    rcases hfate with ⟨-, hchildren⟩ | ⟨operand, rfl⟩
    · exact ⟨hold, hchildren⟩
    · cases hcall

theorem inPlace (h : old.Regrown store) (hnode : store.get? id = some node)
    (hcall : node.isCall = true) (hresult : store.InPlace id node' result)
    (hcall' : node'.isCall = true) (hchildren : node'.children = node.children) :
    old.Regrown result := by
  refine ⟨?_, h.linked.inPlace hnode hresult hchildren, h.expands.inPlace hresult, ?_, ?_⟩
  · rw [hresult.size_eq]
    exact h.size_le
  · intro other hother
    rw [hresult.get?_eq]
    split
    · subst other
      obtain ⟨hold, hsame⟩ := h.call_known hother hnode hcall
      exact .inr ⟨hold, node', rfl, .inl ⟨hcall', hchildren.trans hsame⟩⟩
    · exact h.known other hother
  · intro other hle hlt
    obtain ⟨hother, slot, hslot, hawait⟩ := h.fresh other hle (hresult.size_eq ▸ hlt)
    refine ⟨?_, slot, hslot, ?_⟩
    · rw [hresult.get?_eq]
      split
      · exact hcall'
      · exact hother
    · rw [hresult.get?_eq, if_neg]
      · exact hawait
      · rintro rfl
        cases hnode.symm.trans hawait
        cases hcall

/-- A call that is not under an `await` has never moved. -/
theorem lt_size_of_bare (h : old.Regrown store) (hnode : store.get? id = some node)
    (hbare : ∀ parent inner, store.parent? id = some parent →
      store.get? parent ≠ some (.await inner)) : id < old.size := by
  by_contra hge
  obtain ⟨-, slot, -, hawait⟩ := h.fresh id (Nat.le_of_not_lt hge) (lt_size_of_get? hnode)
  refine hbare slot _ (h.linked.adopted slot id ?_) hawait
  rw [childrenOf_of_get? hawait]
  exact List.mem_singleton_self id

theorem moved (h : old.Regrown store) (hlinked : old.Linked) (hnode : store.get? id = some node)
    (hcall : node.isCall = true) (hresult : store.Moved id node' result)
    (hcall' : node'.isCall = true) (hchildren : node'.children = node.children)
    (hid : id < old.size) : old.Regrown result := by
  obtain ⟨hold, hsame⟩ := h.call_known hid hnode hcall
  have hkept : store.childrenOf id = old.childrenOf id := (childrenOf_of_get? hnode).trans hsame
  refine ⟨?_, h.linked.moved hnode hresult hchildren,
    h.expands.moved hlinked h.linked h.size_le hkept hnode hresult hchildren, ?_, ?_⟩
  · rw [hresult.size_eq]
    exact Nat.le_succ_of_le h.size_le
  · intro other hother
    rw [hresult.get?_eq]
    split
    · subst other
      exact .inr ⟨hold, _, rfl, .inr ⟨_, rfl⟩⟩
    · rw [if_neg (Nat.ne_of_lt (Nat.lt_of_lt_of_le hother h.size_le))]
      exact h.known other hother
  · intro other hle hlt
    have hother : other ≠ id := fun heq => Nat.not_lt.mpr hle (heq ▸ hid)
    rw [hresult.get?_eq, if_neg hother]
    by_cases hlast : other = store.size
    · subst hlast
      rw [if_pos rfl]
      exact ⟨hcall', id, hid, (hresult.get?_eq id).trans (if_pos rfl)⟩
    · rw [if_neg hlast]
      rw [hresult.size_eq] at hlt
      obtain ⟨hothers, slot, hslot, hawait⟩ :=
        h.fresh other hle (Nat.lt_of_le_of_ne (Nat.le_of_lt_succ hlt) hlast)
      refine ⟨hothers, slot, hslot, ?_⟩
      rw [hresult.get?_eq, if_neg, if_neg (Nat.ne_of_lt (lt_size_of_get? hawait))]
      · exact hawait
      · rintro rfl
        cases hnode.symm.trans hawait
        cases hcall

end Regrown

end NodeStore

/-! ## Asynchronous functions stay so -/

namespace EnclosingFunction

variable {program : Program} {enclosing : EnclosingFunction}

theorem isAsync_lift (options : Options) (id : MethodId) (h : enclosing.isAsync program = true) :
    enclosing.isAsync { program with methods := program.methods.modify id (·.lift options) } =
      true := by
  cases enclosing with
  | localFunction node => exact h
  | method declaration =>
    obtain ⟨method, hmethod, hasync⟩ := Option.any_eq_true _ _ |>.mp h
    obtain ⟨written, hwritten, hsignature⟩ := Option.bind_eq_some_iff.mp hmethod
    simp only [isAsync, hwritten, Option.bind_some, Array.getElem?_modify, hsignature]
    split
    · have hlifted : (method.lift options).isAsync = true := by
        rw [Conversion.lift_eq]
        exact Bool.or_eq_true_iff.mpr (.inl hasync)
      exact hlifted
    · exact hasync

theorem isAsync_step {admits : Pass.Warrant} {pass pass' : Pass} {old : NodeStore}
    (htraces : Pass.Traces old pass) (hstep : Pass.Step admits pass pass') :
    enclosing.isAsync pass'.program = enclosing.isAsync pass.program := by
  cases enclosing with
  | localFunction node => exact Conversion.isAsync_localFunction (htraces.restart.step hstep) node
  | method declaration =>
    rw [hstep.program_eq]
    rfl

end EnclosingFunction

namespace Program

variable {program later earlier : Program} {id slot : NodeId}

/-! ## Programs that come from another one by conversions -/

/-- The later program has come from the first one by conversions, and every new `await` is in a
function that is asynchronous by now. -/
structure ConvertedFrom (program later : Program) : Prop where
  nodes : program.nodes.Regrown later.nodes
  bodyOwner : later.bodyOwner = program.bodyOwner
  awaits : ∀ id operand, later.nodes.get? id = some (.await operand) →
    (∀ inner, program.nodes.get? id ≠ some (.await inner)) →
      ∃ enclosing, program.enclosingFunction? id = some enclosing ∧
        enclosing.isAsync later = true

namespace ConvertedFrom

theorem refl (hlinked : program.nodes.Linked) : program.ConvertedFrom program where
  nodes := .refl hlinked
  bodyOwner := rfl
  awaits _ operand hawait hnew := absurd hawait (hnew operand)

theorem stretches (h : program.ConvertedFrom later) : program.Stretches later where
  expands := h.nodes.expands
  bodyOwner := h.bodyOwner
  boundary id hid := by
    rcases h.nodes.known id hid with hsame | ⟨hold, node, hnode, hfate⟩
    · rw [boundary?, boundary?, hsame]
    · obtain ⟨call, hcall⟩ := NodeStore.exists_get? hid
      rw [hcall] at hold
      rw [boundary?_of_call hcall hold]
      rcases hfate with ⟨hisCall, -⟩ | ⟨operand, rfl⟩
      · exact boundary?_of_call hnode hisCall
      · rw [boundary?, hnode]
  fresh id hle hlt := by
    obtain ⟨node, hnode, hcall⟩ := Option.any_eq_true _ _ |>.mp (h.nodes.fresh id hle hlt).1
    exact boundary?_of_call hnode hcall

theorem lift (h : program.ConvertedFrom later) (options : Options) (id : MethodId) :
    program.ConvertedFrom { later with methods := later.methods.modify id (·.lift options) } where
  nodes := h.nodes
  bodyOwner := h.bodyOwner
  awaits node operand hawait hnew := by
    obtain ⟨enclosing, henclosing, hasync⟩ := h.awaits node operand hawait hnew
    exact ⟨enclosing, henclosing, EnclosingFunction.isAsync_lift options id hasync⟩

/-- The place of an `await` that was none at first was a call. -/
theorem call_of_new_await (h : program.ConvertedFrom later) (hslot : slot < program.nodes.size)
    {operand : Slot} (hawait : later.nodes.get? slot = some (.await operand))
    (hnew : ∀ inner, program.nodes.get? slot ≠ some (.await inner)) :
    program.boundary? slot = none := by
  rcases h.nodes.known slot hslot with hsame | ⟨hold, -⟩
  · exact absurd (hsame.symm.trans hawait) (hnew operand)
  · obtain ⟨call, hcall, hisCall⟩ := Option.any_eq_true _ _ |>.mp hold
    exact boundary?_of_call hcall hisCall

/-- A step puts an `await` only where the enclosing function is asynchronous. -/
theorem step {admits : Pass.Warrant} {pass pass' : Pass} {old : NodeStore}
    (h : program.ConvertedFrom pass.program) (hlinked : program.nodes.Linked)
    (htraces : Pass.Traces old pass) (hstep : Pass.Step admits pass pass')
    (hwithin : ∀ node nodes entry, pass' = pass.record node nodes entry →
      node < program.nodes.size → program.enclosingFunction? node = some entry.enclosing) :
    program.ConvertedFrom pass'.program := by
  have hasyncs : ∀ enclosing : EnclosingFunction,
      enclosing.isAsync pass'.program = enclosing.isAsync pass.program :=
    fun _ => EnclosingFunction.isAsync_step htraces hstep
  cases hstep with
  | kept => exact h
  | skipped => exact h
  | renamed _ hnode _ _ _ _ hnodes =>
    refine ⟨h.nodes.inPlace hnode rfl hnodes rfl rfl, h.bodyOwner, fun id operand hawait hnew => ?_⟩
    simp only [Pass.record, hnodes.get?_eq] at hawait
    split at hawait
    · cases hawait
    · simp only [hasyncs]
      exact h.awaits id operand hawait hnew
  | @wrapped node _ _ _ _ _ nodes entry _ hnode _ _ _ hawaited hasync hnodes hbare =>
    have hknown : node < program.nodes.size :=
      h.nodes.lt_size_of_bare hnode (not_await_of_bare hbare)
    refine ⟨h.nodes.moved hlinked hnode rfl hnodes rfl rfl hknown, h.bodyOwner,
      fun id operand hawait hnew => ?_⟩
    simp only [Pass.record, hnodes.get?_eq] at hawait
    simp only [hasyncs]
    split at hawait
    · subst id
      exact ⟨entry.enclosing, hwithin node nodes entry rfl hknown, hawaited.symm.trans hasync⟩
    · split at hawait
      · cases hawait
      · exact h.awaits id operand hawait hnew

section

variable (hlinked : program.nodes.Linked) (hdepth : program.nodes.DepthAtMost 5000)
include hlinked hdepth

theorem enclosingFunction?_old (h : program.ConvertedFrom later)
    (hid : id < program.nodes.size) :
    later.enclosingFunction? id = program.enclosingFunction? id :=
  h.stretches.enclosingFunction?_eq hlinked hdepth (Nat.le_refl _) hid

/-- What is awaited in an old place is enclosed by the first function from this place on. -/
theorem enclosingFunction?_awaited (h : program.ConvertedFrom later)
    (hslot : slot < program.nodes.size)
    (hawait : later.nodes.get? slot = some (.await (some id))) :
    later.enclosingFunction? id = program.functionFrom? maxParentHops slot := by
  obtain ⟨root, hroot⟩ := Option.isSome_iff_exists.mp (hdepth slot hslot)
  have hparent : later.nodes.parent? id = some slot := by
    apply h.nodes.linked.adopted slot id
    rw [NodeStore.childrenOf_of_get? hawait]
    exact List.mem_singleton_self id
  rw [enclosingFunction?_of_parent hparent]
  exact h.stretches.functionFrom?_eq hlinked hslot hroot (by decide) (Nat.le_refl _)

omit hlinked in
/-- The function from a node on is the one that encloses the node, if the node is no boundary. -/
theorem functionFrom?_eq_enclosing {enclosing : EnclosingFunction}
    (hslot : slot < program.nodes.size) (hnone : program.boundary? slot = none)
    (henclosing : program.enclosingFunction? slot = some enclosing) :
    program.functionFrom? maxParentHops slot = some enclosing := by
  cases hparent : program.nodes.parent? slot with
  | none =>
    rw [enclosingFunction?_of_root hparent] at henclosing
    cases henclosing
  | some parent =>
    obtain ⟨root, hroot⟩ := Option.isSome_iff_exists.mp (hdepth slot hslot)
    rw [functionFrom?_of_parent hnone hparent hroot (by decide), henclosing]

/-- The fresh place of a call has the enclosing function of the old place. -/
theorem enclosingFunction?_fresh (h : program.ConvertedFrom later)
    (hslot : slot < program.nodes.size)
    (hawait : later.nodes.get? slot = some (.await (some id)))
    (hnew : ∀ inner, program.nodes.get? slot ≠ some (.await inner)) :
    later.enclosingFunction? id = program.enclosingFunction? slot := by
  obtain ⟨enclosing, henclosing, -⟩ := h.awaits slot _ hawait hnew
  rw [h.enclosingFunction?_awaited hlinked hdepth hslot hawait, henclosing]
  exact functionFrom?_eq_enclosing hdepth hslot (h.call_of_new_await hslot hawait hnew) henclosing

/-- As long as an `await` stays, no enclosing function changes. -/
theorem enclosingFunction?_later (h : program.ConvertedFrom earlier)
    (h' : program.ConvertedFrom later)
    (hawaits : ∀ id operand, earlier.nodes.get? id = some (.await operand) →
      later.nodes.get? id = some (.await operand))
    (hid : id < earlier.nodes.size) :
    later.enclosingFunction? id = earlier.enclosingFunction? id := by
  by_cases hold : id < program.nodes.size
  · rw [h.enclosingFunction?_old hlinked hdepth hold, h'.enclosingFunction?_old hlinked hdepth hold]
  · obtain ⟨-, slot, hslot, hawait⟩ := h.nodes.fresh id (Nat.le_of_not_lt hold) hid
    rw [h.enclosingFunction?_awaited hlinked hdepth hslot hawait,
      h'.enclosingFunction?_awaited hlinked hdepth hslot (hawaits slot _ hawait)]

end

end ConvertedFrom

end Program

/-! ## Steps that know the enclosing function -/

namespace Pass

open Conversion

variable {functionOf : NodeId → Option EnclosingFunction} {pass pass' : Pass}

/-- A step that makes an entry only for a node within the function that the entry names. -/
def StepWithin (functionOf : NodeId → Option EnclosingFunction) (pass pass' : Pass) : Prop :=
  Step anything pass pass' ∧ ∀ node nodes entry, pass' = pass.record node nodes entry →
    functionOf node = some entry.enclosing

theorem stepWithin_of_no_entry (hstep : Step anything pass pass')
    (h : pass'.report.retargeted = pass.report.retargeted) : StepWithin functionOf pass pass' := by
  refine ⟨hstep, fun node nodes entry heq => ?_⟩
  rw [heq] at h
  have hlength := congrArg List.length h
  simp [record] at hlength

theorem retarget_stepWithin {node : NodeId} {reference : Node} {enclosing : EnclosingFunction}
    (target : MethodId) (origin : CallOrigin) (hnew : node ∉ pass.visited)
    (hnode : pass.program.nodes.get? node = some reference)
    (hwithin : functionOf node = some enclosing) :
    StepWithin functionOf pass ((pass.visit node).retarget node target enclosing origin) := by
  have hstep : Step anything pass ((pass.visit node).retarget node target enclosing origin) :=
    retarget_step enclosing hnew hnode trivial
  cases hcall : (pass.visit node).program.retargetCall node target
      (enclosing.isAsync (pass.visit node).program) with
  | none =>
    refine stepWithin_of_no_entry hstep ?_
    rw [retarget, hcall]
    rfl
  | some outcome =>
    refine ⟨hstep, fun node' nodes entry heq => ?_⟩
    rw [retarget, hcall] at heq
    have hvisited := congrArg Pass.visited heq
    have hentries := congrArg (fun pass : Pass => pass.report.retargeted) heq
    simp only [record, visit, List.cons.injEq, and_true] at hvisited
    simp only [record, visit, List.append_cancel_left_eq, List.cons.injEq, and_true] at hentries
    rw [← hvisited.2, ← hentries]
    exact hwithin

end Pass

namespace Conversion

open Pass

variable {options : Options} {search : ReferenceSearch} {planned : List MethodId} {pass : Pass}
  {functionOf : NodeId → Option EnclosingFunction}

section

variable {Inv : Pass → Prop}
  (hstep : ∀ pass pass', StepWithin functionOf pass pass' → Inv pass → Inv pass')
include hstep

theorem retargetSite_within {site : CallSite} (hpass : Inv pass)
    (hsite : site.node ∉ pass.visited → site.enclosing = functionOf site.node ∧
      ∃ reference, pass.program.nodes.get? site.node = some reference) :
    Inv (pass.retargetSite site) := by
  unfold retargetSite
  split
  · exact hpass
  · rename_i hvisited
    have hnew : site.node ∉ pass.visited := fun hmem => hvisited (List.contains_iff_mem.mpr hmem)
    obtain ⟨hwithin, reference, hnode⟩ := hsite hnew
    dsimp only
    split
    · exact hstep _ _ (stepWithin_of_no_entry (.skipped _ hnew hnode trivial) rfl) hpass
    · exact hstep _ _ (stepWithin_of_no_entry (.skipped _ hnew hnode trivial) rfl) hpass
    · rename_i enclosing _ henclosing
      exact hstep _ _
        (retarget_stepWithin _ _ hnew hnode (hwithin.symm.trans henclosing)) hpass

/-- The sites name the functions that enclosed them when they were found. -/
theorem retargetSites_within {sites : List CallSite} (hpass : Inv pass)
    (hsites : ∀ site ∈ sites, site.node ∉ pass.visited → site.enclosing = functionOf site.node ∧
      ∃ reference, pass.program.nodes.get? site.node = some reference) :
    Inv (sites.foldl retargetSite pass) := by
  induction sites generalizing pass with
  | nil => exact hpass
  | cons site sites ih =>
    have hfirst : Steps anything pass (pass.retargetSite site) := by
      refine retargetSite_steps fun hnew => ?_
      obtain ⟨-, reference, hnode⟩ := hsites site List.mem_cons_self hnew
      exact ⟨reference, hnode, trivial⟩
    refine ih (retargetSite_within hstep hpass (hsites site List.mem_cons_self)) ?_
    intro later hlater hnew
    rw [hfirst.get?_of_not_visited hnew]
    exact hsites later (List.mem_cons_of_mem _ hlater) fun hold => hnew (hfirst.visited_subset hold)

variable
  (hfunction : ∀ pass node reference, Inv pass → node ∉ pass.visited →
    pass.program.nodes.get? node = some reference →
      pass.program.enclosingFunction? node = functionOf node)
include hfunction

theorem retargetInvocation_within (options : Options) (planned : List MethodId) (node : NodeId)
    (hpass : Inv pass) : Inv (pass.retargetInvocation options planned node) := by
  unfold retargetInvocation
  split
  · exact hpass
  · rename_i hvisited
    have hnew : node ∉ pass.visited := fun hmem => hvisited (List.contains_iff_mem.mpr hmem)
    split
    · rename_i target enclosing hcounterpart henclosing
      obtain ⟨receiver, name, callee, args, hnode, -⟩ := callee_of_counterpartOf? hcounterpart
      have hwithin := (hfunction pass node _ hpass hnew hnode).symm.trans henclosing
      exact hstep _ _ (retarget_stepWithin _ _ hnew hnode hwithin) hpass
    · exact hpass

theorem retargetBody_within (options : Options) (planned : List MethodId) (declaration : DeclId)
    (hpass : Inv pass) : Inv (pass.retargetBody options planned declaration) := by
  unfold retargetBody
  split
  · exact hpass
  · exact List.foldlRecOn _ _ hpass fun pass hpass node _ =>
      retargetInvocation_within hstep hfunction options planned node hpass

theorem convertMethod_within (options : Options) (search : ReferenceSearch)
    (planned : List MethodId) (id : MethodId) (declarations : List DeclId)
    (hpass : Inv (pass.lift options id)) :
    Inv (convertMethod options search planned pass id declarations) := by
  have hsites : Inv (((pass.lift options id).program.callSites search id).foldl retargetSite
      (pass.lift options id)) := by
    refine retargetSites_within hstep hpass fun site hsite hnew => ?_
    obtain ⟨node, -, hsome⟩ := List.mem_filterMap.mp hsite
    obtain ⟨rfl, -, henclosing, reference, hnode⟩ := callSite?_eq_some hsome
    exact ⟨henclosing.trans (hfunction _ _ reference hpass hnew hnode), reference, hnode⟩
  exact List.foldlRecOn _ _ hsites fun pass hpass declaration _ =>
    retargetBody_within hstep hfunction options planned declaration hpass

/-- What every signature change keeps, and every step within the function that encloses the node,
holds after a pass if it held before. -/
theorem passOver_invariant_within (hlift : ∀ pass id, Inv pass → Inv (pass.lift options id))
    (hpass : Inv pass) (ids : List MethodId) :
    Inv (passOver options search planned pass ids) :=
  List.foldlRecOn _ _ hpass fun pass hpass id _ =>
    convertMethod_within hstep hfunction options search planned id _ (hlift pass id hpass)

end

/-! ## Passes over a converted program -/

/-- A pass over a program that has come from the first one: this holds still, and each entry names
the function that encloses its call. -/
structure Placed (program start : Program) (pass : Pass) : Prop where
  traces : Traces start.nodes pass
  converted : program.ConvertedFrom pass.program
  recorded : ∀ entry ∈ pass.report.retargeted,
    pass.program.enclosingFunction? entry.node = some entry.enclosing

namespace Placed

variable {program start : Program} {pass' : Pass} {id : NodeId}
  (hlinked : program.nodes.Linked) (hdepth : program.nodes.DepthAtMost 5000)

theorem lift (h : Placed program start pass) (options : Options) (id : MethodId) :
    Placed program start (pass.lift options id) := by
  have hsame : ∀ node, (pass.lift options id).program.enclosingFunction? node =
      pass.program.enclosingFunction? node := by
    intro node
    have hfunction : ∀ hops node, (pass.lift options id).program.functionFrom? hops node =
        pass.program.functionFrom? hops node := by
      intro hops node
      rw [Program.functionFrom?_eq_searchUp, Program.functionFrom?_eq_searchUp, lift_program]
      rfl
    simp only [Program.enclosingFunction?, lift_nodes, funext (hfunction maxParentHops)]
  refine ⟨h.traces.lift options id, ?_, fun entry hentry => ?_⟩
  · rw [lift_program]
    exact h.converted.lift options id
  · rw [hsame]
    exact h.recorded entry (lift_retargeted pass options id ▸ hentry)

include hlinked hdepth

theorem enclosingFunction?_eq (h : Placed program start pass)
    (hstart : program.ConvertedFrom start) (hid : id < start.nodes.size) :
    pass.program.enclosingFunction? id = start.enclosingFunction? id :=
  hstart.enclosingFunction?_later hlinked hdepth h.converted
    (fun _ _ hawait => h.traces.get?_of_not_call hawait rfl) hid

theorem step (h : Placed program start pass) (hstart : program.ConvertedFrom start)
    (hstep : StepWithin start.enclosingFunction? pass pass') : Placed program start pass' := by
  obtain ⟨hstep, hwithin⟩ := hstep
  have hconverted : program.ConvertedFrom pass'.program := by
    refine h.converted.step hlinked h.traces hstep fun node nodes entry heq hid => ?_
    rw [← hstart.enclosingFunction?_old hlinked hdepth hid]
    exact hwithin node nodes entry heq
  have hlater : ∀ id < pass.program.nodes.size,
      pass'.program.enclosingFunction? id = pass.program.enclosingFunction? id := fun id hid =>
    h.converted.enclosingFunction?_later hlinked hdepth hconverted
      (fun _ _ hawait => (h.traces.restart.step hstep).get?_of_not_call hawait rfl) hid
  have hearlier : ∀ entry ∈ pass.report.retargeted,
      pass'.program.enclosingFunction? entry.node = some entry.enclosing := by
    intro entry hentry
    rw [hlater _ (h.traces.visited_known _ (h.traces.entries entry hentry).1)]
    exact h.recorded entry hentry
  refine ⟨h.traces.step hstep, hconverted, ?_⟩
  cases hstep with
  | kept => exact hearlier
  | skipped => exact hearlier
  | @renamed node _ _ _ _ _ nodes entry hnew hnode _ _ hplace =>
    intro other hother
    rcases List.mem_append.mp hother with hbefore | hlast
    · exact hearlier other hbefore
    · cases List.mem_singleton.mp hlast
      rw [hplace, hlater node (NodeStore.lt_size_of_get? hnode),
        h.enclosingFunction?_eq hlinked hdepth hstart (h.traces.get?_of_not_visited hnew hnode).1]
      exact hwithin node nodes entry rfl
  | @wrapped node _ _ _ _ _ nodes entry _ hnode _ _ hplace _ _ hnodes hbare =>
    intro other hother
    rcases List.mem_append.mp hother with hbefore | hlast
    · exact hearlier other hbefore
    · cases List.mem_singleton.mp hlast
      have hknown : node < program.nodes.size :=
        h.converted.nodes.lt_size_of_bare hnode (Program.not_await_of_bare hbare)
      have hawait : nodes.get? node = some (.await (some entry.node)) := by
        rw [hnodes.get?_eq, if_pos rfl, hplace]
      have hbefore : ∀ inner, program.nodes.get? node ≠ some (.await inner) := by
        intro inner hinner
        have hcall := (h.converted.nodes.call_known hknown hnode rfl).1
        rw [hinner] at hcall
        cases hcall
      rw [hconverted.enclosingFunction?_fresh hlinked hdepth hknown hawait hbefore,
        ← hstart.enclosingFunction?_old hlinked hdepth hknown]
      exact hwithin node nodes entry rfl

end Placed

section

variable {program start : Program} (hlinked : program.nodes.Linked)
  (hdepth : program.nodes.DepthAtMost 5000)
include hlinked hdepth

theorem passAfter_placed (hstart : program.ConvertedFrom start) (options : Options)
    (search : ReferenceSearch) (root : MethodId) (ids : List MethodId) :
    Placed program start (passAfter options search start root ids) := by
  have houtset : Placed program start (outset start root) :=
    ⟨Traces.start start _, hstart, fun _ hentry => nomatch hentry⟩
  refine passOver_invariant_within (fun _ _ step h => h.step hlinked hdepth hstart step) ?_
    (fun _ id h => h.lift options id) houtset ids
  intro pass node reference h hnew hnode
  exact h.enclosingFunction?_eq hlinked hdepth hstart (h.traces.get?_of_not_visited hnew hnode).1

/-- However a conversion ends, the program has come from the first one. -/
theorem runWith_convertedFrom (hstart : program.ConvertedFrom start) (options : Options)
    (search : ReferenceSearch) (root : MethodId) :
    program.ConvertedFrom (runWith options search start root).2 := by
  obtain ⟨ids, hids⟩ := exists_passAfter_of_runWith options search start root
  rw [hids]
  exact (passAfter_placed hlinked hdepth hstart options search root ids).converted

theorem runWith_records_functions {options : Options} {search : ReferenceSearch} {root : MethodId}
    {report : Report} {final : Program} (hstart : program.ConvertedFrom start)
    (hrun : runWith options search start root = (.ok report, final)) :
    ∀ entry ∈ report.retargeted,
      final.enclosingFunction? entry.node = some entry.enclosing := by
  obtain ⟨-, rfl, rfl⟩ := passAfter_of_runWith_ok hrun
  exact (passAfter_placed hlinked hdepth hstart options search root _).recorded

end

end Conversion

/-! ## Requests -/

namespace Request

open Program

section

variable {program : Program} (hlinked : program.nodes.Linked)
  (hdepth : program.nodes.DepthAtMost 5000)
include hlinked hdepth

theorem programAfter_convertedFrom (requests : List Request) :
    program.ConvertedFrom (programAfter program requests) := by
  have hrun : ∀ start, program.ConvertedFrom start → ∀ request : Request,
      program.ConvertedFrom (request.perform start).2 := fun start hstart =>
    perform_invariant
      (fun _ _ _ => Conversion.runWith_convertedFrom hlinked hdepth hstart _ _ _) hstart
  exact List.foldlRecOn _ _ (.refl hlinked) fun start hstart request _ => hrun start hstart request

theorem perform_records_functions {start result : Program} {request : Request} {report : Report}
    (hstart : program.ConvertedFrom start) (h : request.perform start = (.ok report, result)) :
    ∀ entry ∈ report.retargeted,
      result.enclosingFunction? entry.node = some entry.enclosing := by
  rcases perform_cases request start with ⟨options, search, root, heq⟩ | ⟨error, heq⟩
  · exact Conversion.runWith_records_functions hlinked hdepth hstart (heq.symm.trans h)
  · cases heq.symm.trans h

end

/-- In trees of bounded depth an `await` is only ever put into an asynchronous function: after any
requests every `await` that was none at the outset is in one. And each request that succeeds
reports the functions that enclose the calls in the program that it leaves behind. -/
theorem requests_await_within_async {program : Program} (hwellFormed : program.WellFormed)
    (hdepth : program.nodes.DepthAtMost 5000) (requests : List Request) :
    (∀ id operand, (programAfter program requests).nodes.get? id = some (.await operand) →
      (∀ inner, program.nodes.get? id ≠ some (.await inner)) →
        ∃ enclosing, (programAfter program requests).enclosingFunction? id = some enclosing ∧
          enclosing.isAsync (programAfter program requests) = true) ∧
    (∀ before request after report result, requests = before ++ request :: after →
      request.perform (programAfter program before) = (.ok report, result) →
        ∀ entry ∈ report.retargeted,
          result.enclosingFunction? entry.node = some entry.enclosing) := by
  have hlinked := hwellFormed.forest.linked
  refine ⟨fun id operand hawait hnew => ?_, fun before request after report result _ h => ?_⟩
  · have hconverted := programAfter_convertedFrom hlinked hdepth requests
    have hid : id < program.nodes.size := by
      by_contra hge
      have hcall := (hconverted.nodes.fresh id (Nat.le_of_not_lt hge)
        (NodeStore.lt_size_of_get? hawait)).1
      rw [hawait] at hcall
      cases hcall
    rw [hconverted.enclosingFunction?_old hlinked hdepth hid]
    exact hconverted.awaits id operand hawait hnew
  · exact perform_records_functions hlinked hdepth
      (programAfter_convertedFrom hlinked hdepth before) h

/-- Of the nested calls the inner one moves below an `await` in the asynchronous method that has
both. -/
theorem requests_await_within_async_nestedLoads :
    nestedLoads.WellFormed ∧ nestedLoads.nodes.DepthAtMost 5000 ∧
    nestedLoads.nodes.get? 0 = some (.call none "Load" (some 0) []) ∧
    (programAfter nestedLoads [.convert {} 0, .execute {} 0, .convert {} 1]).nodes.get? 0 =
      some (.await (some 7)) ∧
    (∃ enclosing,
      (programAfter nestedLoads [.convert {} 0, .execute {} 0, .convert {} 1]).enclosingFunction?
          0 = some enclosing ∧
        enclosing.isAsync
          (programAfter nestedLoads [.convert {} 0, .execute {} 0, .convert {} 1]) = true) ∧
    ∃ report result, (Request.convert {} 0).perform nestedLoads = (.ok report, result) ∧
      report.retargeted.length = 3 ∧ ∀ entry ∈ report.retargeted,
        result.enclosingFunction? entry.node = some entry.enclosing := by
  have hdepth : nestedLoads.nodes.DepthAtMost 5000 := by
    unfold NodeStore.DepthAtMost
    decide +kernel
  have hcall : nestedLoads.nodes.get? 0 = some (.call none "Load" (some 0) []) := by
    decide +kernel
  have hawait : (programAfter nestedLoads
      [.convert {} 0, .execute {} 0, .convert {} 1]).nodes.get? 0 = some (.await (some 7)) := by
    decide +kernel
  have hrun : Conversion.run {} nestedLoads 0 = _ :=
    Conversion.runWith_of_declared (by decide +kernel) (by decide +kernel)
  obtain ⟨hawaits, hreports⟩ := requests_await_within_async intact_nestedLoads.wellFormed hdepth
    [.convert {} 0, .execute {} 0, .convert {} 1]
  refine ⟨intact_nestedLoads.wellFormed, hdepth, hcall, hawait, hawaits 0 _ hawait ?_, _, _, hrun,
    by decide +kernel, hreports [] (.convert {} 0) _ _ _ rfl hrun⟩
  intro inner hinner
  cases hcall.symm.trans hinner

end Request

end AsyncLift
