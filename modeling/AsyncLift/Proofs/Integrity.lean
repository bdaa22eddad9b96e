import AsyncLift.Conversion.Action
import AsyncLift.Proofs.RegisteredRoots
import AsyncLift.Proofs.Validation
import AsyncLift.Proofs.Walks

/-!
# Programs stay intact

`Program.Intact` collects what a program has to be: its nodes make a forest, the roots of bodies and
initializers are nodes without a parent, it is valid, and no `await` waits for an `await`. Changing
a signature keeps this (`Intact.lift`), and so does everything that can happen when a node is
settled (`Intact.step`); in particular an `await` is put above a call only if there is none.

`requests_keep_intact`: whatever is asked for, one request after another, and whether it succeeds or
stops halfway, the program that comes out is intact.
-/

namespace AsyncLift

namespace NodeStore

variable {store result : NodeStore} {id : NodeId} {node : Node}

/-- Whether a node is an `await` that waits for an `await`. -/
def isDoubleAwait (store : NodeStore) (id : NodeId) : Bool :=
  match store.get? id with
  | some (.await (some operand)) =>
    match store.get? operand with
    | some (.await _) => true
    | _ => false
  | _ => false

/-- No `await` waits for an `await`. -/
def AwaitsApart (store : NodeStore) : Prop := ∀ id < store.size, store.isDoubleAwait id = false

theorem awaitsApart_iff : store.AwaitsApart ↔
    ∀ id operand inner, store.get? id = some (.await (some operand)) →
      store.get? operand ≠ some (.await inner) := by
  constructor
  · intro h id operand inner hawait hoperand
    have hsingle := h id (lt_size_of_get? hawait)
    simp [isDoubleAwait, hawait, hoperand] at hsingle
  · intro h id _
    unfold isDoubleAwait
    split
    · rename_i operand hawait
      split
      · rename_i inner hoperand
        exact absurd hoperand (h id operand inner hawait)
      · rfl
    · rfl

namespace AwaitsApart

theorem inPlace (h : store.AwaitsApart) (hresult : store.InPlace id node result)
    (hcall : node.isCall = true) : result.AwaitsApart := by
  rw [awaitsApart_iff] at h ⊢
  intro outer operand inner houter hoperand
  rw [hresult.get?_eq] at houter hoperand
  split at houter
  · cases houter
    cases hcall
  · split at hoperand
    · cases hoperand
      cases hcall
    · exact h outer operand inner houter hoperand

/-- The place of the call was no operand of an `await`, so the `await` that stands there now is
none. -/
theorem moved (h : store.AwaitsApart) (hlinked : store.Linked) (hid : id < store.size)
    (hresult : store.Moved id node result) (hcall : node.isCall = true)
    (hbare : ∀ parent inner, store.parent? id = some parent →
      store.get? parent ≠ some (.await inner)) : result.AwaitsApart := by
  rw [awaitsApart_iff] at h ⊢
  intro outer operand inner houter hoperand
  rw [hresult.get?_eq] at houter hoperand
  split at houter
  · -- The new `await` waits for the call.
    cases houter
    rw [if_neg (Nat.ne_of_gt hid), if_pos rfl] at hoperand
    cases hoperand
    cases hcall
  · split at houter
    · cases houter
      cases hcall
    · split at hoperand
      · subst operand
        have hchild : id ∈ store.childrenOf outer := by
          rw [childrenOf_of_get? houter]
          exact List.mem_singleton_self id
        exact hbare outer _ (hlinked.adopted outer id hchild) houter
      · split at hoperand
        · cases hoperand
          cases hcall
        · exact h outer operand inner houter hoperand

end AwaitsApart

end NodeStore

namespace Program

variable {program later : Program} {nodes : NodeStore} {id : NodeId}

/-- What every program should be, and what a conversion counts on. -/
structure Intact (program : Program) : Prop where
  wellFormed : program.WellFormed
  rootsKnown : program.RootsKnown
  valid : program.validate = .ok ()
  awaitsApart : program.nodes.AwaitsApart

theorem not_await_of_bare (h : program.isUnderAwait id = false) (parent : NodeId) (inner : Slot)
    (hparent : program.nodes.parent? id = some parent) :
    program.nodes.get? parent ≠ some (.await inner) := by
  intro hawait
  simp [isUnderAwait, hparent, hawait] at h

namespace Intact

theorem targetsKnown (h : program.Intact) : program.TargetsKnown :=
  (validate_eq_ok.mp h.valid).2.2.1

/-- Other nodes in place of the old ones, under which the old trees have their roots. -/
theorem withNodes (h : program.Intact) (hforest : nodes.Forest)
    (hsize : program.nodes.size ≤ nodes.size) (hexpands : program.nodes.Expands nodes)
    (htargets : TargetsKnown { program with nodes }) (hawaits : nodes.AwaitsApart) :
    Intact { program with nodes } := by
  refine ⟨⟨hforest, ?_, ?_⟩, ?_, ?_, hawaits⟩
  · intro declaration hdeclaration body hbody
    exact hexpands.root body (h.rootsKnown body (.inl ⟨declaration, hdeclaration, hbody⟩))
      (h.wellFormed.bodies declaration hdeclaration body hbody)
  · intro type htype root hroot
    exact hexpands.root root (h.rootsKnown root (.inr ⟨type, htype, hroot⟩))
      (h.wellFormed.initializers type htype root hroot)
  · exact fun root hroot => (h.rootsKnown root hroot).trans_le hsize
  · have hmodules : Program.modules { program with nodes } = program.modules := rfl
    exact validate_of_changes hmodules rfl rfl htargets h.valid

theorem inPlace (h : program.Intact) {receiver : Slot} {name name' : String}
    {old : Option MethodId} {target : MethodId} {args : List Slot} {method : Method}
    (hnode : program.nodes.get? id = some (.call receiver name old args))
    (hmethod : program.methods[target]? = some method)
    (hnodes : program.nodes.InPlace id (.call receiver name' (some target) args) nodes) :
    Intact { program with nodes } := by
  have htarget : target < program.methods.size := (Array.getElem?_eq_some_iff.mp hmethod).1
  refine h.withNodes (h.wellFormed.forest.inPlace hnode hnodes rfl)
    (Nat.le_of_eq hnodes.size_eq.symm) ((NodeStore.Expands.refl _).inPlace hnodes) ?_
    (h.awaitsApart.inPlace hnodes rfl)
  intro other reference target' hreference htarget'
  rw [hnodes.get?_eq] at hreference
  split at hreference
  · cases hreference
    cases htarget'
    exact htarget
  · exact h.targetsKnown other reference target' hreference htarget'

theorem moved (h : program.Intact) {receiver : Slot} {name name' : String}
    {old : Option MethodId} {target : MethodId} {args : List Slot} {method : Method}
    (hnode : program.nodes.get? id = some (.call receiver name old args))
    (hmethod : program.methods[target]? = some method)
    (hnodes : program.nodes.Moved id (.call receiver name' (some target) args) nodes)
    (hbare : program.isUnderAwait id = false) : Intact { program with nodes } := by
  have htarget : target < program.methods.size := (Array.getElem?_eq_some_iff.mp hmethod).1
  have hid : id < program.nodes.size := NodeStore.lt_size_of_get? hnode
  have hforest := h.wellFormed.forest
  have hsize : program.nodes.size ≤ nodes.size := by
    rw [hnodes.size_eq]
    exact Nat.le_succ _
  have hexpands : program.nodes.Expands nodes :=
    (NodeStore.Expands.refl _).moved hforest.linked hforest.linked (Nat.le_refl _) rfl hnode
      hnodes rfl
  refine h.withNodes (hforest.moved hnode hnodes rfl) hsize hexpands ?_
    (h.awaitsApart.moved hforest.linked hid hnodes rfl (not_await_of_bare hbare))
  intro other reference target' hreference htarget'
  rw [hnodes.get?_eq] at hreference
  split at hreference
  · cases hreference
    cases htarget'
  · split at hreference
    · cases hreference
      cases htarget'
      exact htarget
    · exact h.targetsKnown other reference target' hreference htarget'

theorem lift (h : program.Intact) (options : Options) (id : MethodId) :
    Intact { program with methods := program.methods.modify id (·.lift options) } := by
  have hmodules : Program.modules
      { program with methods := program.methods.modify id (·.lift options) } =
        program.modules := rfl
  refine ⟨⟨h.wellFormed.forest, h.wellFormed.bodies, h.wellFormed.initializers⟩, h.rootsKnown,
    validate_of_changes hmodules rfl ?_ ?_ h.valid, h.awaitsApart⟩
  · apply List.ext_getElem?
    intro place
    simp only [ownersAndKeys, List.getElem?_map, Array.getElem?_toList, Array.getElem?_modify]
    split
    · cases program.methods[place]? <;> rfl
    · rfl
  · intro other reference target hreference htarget
    rw [Array.size_modify]
    exact h.targetsKnown other reference target hreference htarget

/-- Whatever happens when a node is settled keeps the program intact. -/
theorem step {admits : Pass.Warrant} {pass pass' : Pass} (hstep : Pass.Step admits pass pass')
    (h : pass.program.Intact) : pass'.program.Intact := by
  cases hstep with
  | kept => exact h
  | skipped => exact h
  | renamed _ hnode _ hmethod _ _ hnodes => exact h.inPlace hnode hmethod hnodes
  | wrapped _ hnode _ hmethod _ _ _ hnodes hbare => exact h.moved hnode hmethod hnodes hbare

end Intact

end Program

/-! ## Requests -/

namespace Conversion

open Program

variable {program : Program}

theorem passAfter_intact (h : program.Intact) (options : Options) (search : ReferenceSearch)
    (root : MethodId) (ids : List MethodId) :
    (passAfter options search program root ids).program.Intact := by
  let Inv : Pass → Prop := fun pass => pass.program.Intact
  have hlift : ∀ pass id, Inv pass → Inv (pass.lift options id) := by
    intro pass id hpass
    simp only [Inv, Pass.lift_program]
    exact hpass.lift options id
  have hstep : ∀ pass pass', Pass.Step anything pass pass' → Inv pass → Inv pass' :=
    fun _ _ step hpass => hpass.step step
  have houtset : Inv (outset program root) := h
  exact passOver_invariant hlift hstep houtset ids

/-- However a conversion ends, it has gone over some part of its plan. -/
theorem exists_passAfter_of_runWith (options : Options) (search : ReferenceSearch)
    (program : Program) (root : MethodId) :
    ∃ ids, (runWith options search program root).2 =
      (passAfter options search program root ids).program := by
  cases hroot : program.isDeclared root with
  | false =>
    refine ⟨[], ?_⟩
    rw [runWith, hroot]
    rfl
  | true =>
    rcases declared_or_first_undeclared program (program.plan root).order with hall | hfirst
    · exact ⟨_, congrArg Prod.snd (runWith_of_declared hroot hall)⟩
    · obtain ⟨before, id, after, horder, hbefore, hid⟩ := hfirst
      exact ⟨before, congrArg Prod.snd (runWith_of_undeclared hroot horder hbefore hid)⟩

theorem runWith_intact (h : program.Intact) (options : Options) (search : ReferenceSearch)
    (root : MethodId) : (runWith options search program root).2.Intact := by
  obtain ⟨ids, hids⟩ := exists_passAfter_of_runWith options search program root
  rw [hids]
  exact passAfter_intact h options search root ids

end Conversion

/-- The action is the conversion, or it fails and leaves the program as it was. -/
theorem Action.execute_cases (options : Options) (program : Program) (id : MethodId) :
    Action.execute options program id = Conversion.run options program id ∨
      ∃ error, Action.execute options program id = (.error error, program) := by
  unfold Action.execute
  split
  · exact .inr ⟨_, rfl⟩
  · split
    · exact .inr ⟨_, rfl⟩
    · split
      · rename_i heq
        exact .inl heq.symm
      · rename_i heq
        split
        · exact .inr ⟨_, rfl⟩
        · exact .inl heq.symm

/-- What a program can be asked for: a conversion within the configured scope, a conversion with
another search for references, or the action on a method. -/
inductive Request where
  | convert (options : Options) (root : MethodId)
  | convertWith (options : Options) (search : ReferenceSearch) (root : MethodId)
  | execute (options : Options) (id : MethodId)

namespace Request

def perform (program : Program) : Request → Except ConversionError Report × Program
  | .convert options root => Conversion.run options program root
  | .convertWith options search root => Conversion.runWith options search program root
  | .execute options id => Action.execute options program id

/-- The program after requests were performed one after another, whatever each came to. -/
def programAfter (program : Program) (requests : List Request) : Program :=
  requests.foldl (fun program request => (request.perform program).2) program

/-- A request is a conversion, or it fails and leaves the program as it was. -/
theorem perform_cases (request : Request) (program : Program) :
    (∃ options search root,
        request.perform program = Conversion.runWith options search program root) ∨
      ∃ error, request.perform program = (.error error, program) := by
  cases request with
  | convert options root => exact .inl ⟨options, _, root, rfl⟩
  | convertWith options search root => exact .inl ⟨options, search, root, rfl⟩
  | execute options id =>
    rcases Action.execute_cases options program id with hrun | hfailed
    · exact .inl ⟨options, _, id, hrun⟩
    · exact .inr hfailed

/-- What conversions keep, requests keep. -/
theorem perform_invariant {Inv : Program → Prop} {program : Program}
    (hrun : ∀ options search root, Inv (Conversion.runWith options search program root).2)
    (hprogram : Inv program) (request : Request) : Inv (request.perform program).2 := by
  rcases perform_cases request program with ⟨options, search, root, heq⟩ | ⟨error, heq⟩
  · rw [heq]
    exact hrun options search root
  · rw [heq]
    exact hprogram

theorem perform_intact {program : Program} (h : program.Intact) (request : Request) :
    (request.perform program).2.Intact :=
  perform_invariant (fun _ _ _ => Conversion.runWith_intact h _ _ _) h request

/-- A program that is intact stays so. -/
theorem requests_keep_intact {program : Program} (h : program.Intact) (requests : List Request) :
    (programAfter program requests).Intact := by
  induction requests generalizing program with
  | nil => exact h
  | cons request requests ih => exact ih (perform_intact h request)

/-- An asynchronous method with a call inside a call, and with a call that is awaited already. -/
def nestedLoads : Program :=
  (Builder.withMain.run
    [.addType .ofClass "Source", .addMethod 0 { name := "Load" },
      .addMethod 0 { name := "Run", modifiers := { isAsync := true } },
      .call none 0 [], .call none 0 [some 0], .exprStatement (some 1),
      .call none 0 [], .await (some 3), .exprStatement (some 4),
      .setBody 1 [some 2, some 5]]).program

theorem intact_nestedLoads : nestedLoads.Intact := by
  have hdepth : nestedLoads.nodes.DepthAtMost 5 := by
    unfold NodeStore.DepthAtMost
    decide +kernel
  have hforest : nestedLoads.nodes.Forest :=
    NodeStore.forest_of_depth hdepth (by decide +kernel) (by decide +kernel) (by decide +kernel)
  have hcycles : nestedLoads.checkCycles = .ok () :=
    Program.checkCycles_of_ordered (by decide +kernel)
  have htargets : nestedLoads.TargetsKnown := by
    rw [← Program.checkTargets_eq_ok]
    decide +kernel
  have hawaits : nestedLoads.nodes.AwaitsApart := by
    unfold NodeStore.AwaitsApart
    decide +kernel
  exact ⟨⟨hforest, by decide +kernel, by decide +kernel⟩,
    (Builder.rootsRegistered_run Builder.rootsRegistered_withMain _).rootsKnown,
    Program.validate_eq_ok.mpr ⟨by decide +kernel, by decide +kernel, htargets, hcycles⟩, hawaits⟩

/-- The three calls are retargeted, two of them below an `await` that is new, the action is refused
since the method is converted already, and then the caller is converted. -/
theorem requests_keep_intact_nestedLoads :
    nestedLoads.Intact ∧
      (programAfter nestedLoads [.convert {} 0, .execute {} 0, .convert {} 1]).nodes.size =
        nestedLoads.nodes.size + 2 ∧
      (programAfter nestedLoads [.convert {} 0, .execute {} 0, .convert {} 1]).Intact :=
  ⟨intact_nestedLoads, by decide +kernel, requests_keep_intact intact_nestedLoads _⟩

end Request

end AsyncLift
