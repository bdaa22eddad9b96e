import AsyncLift.Proofs.BuildSteps

/-!
# What a builder registers about roots

A program keeps two registers of roots beside its tables: the declaration that a block is the body
of, and the module that the root of a body or of an initializer lies in. A declaration and a type
tell the same, so the registers can go wrong. `Program.RootsRegistered` says that they do not: they
have an entry for each body and each initializer, and no other entries.

This holds after any calls of a builder, whatever ids they refer to (`rootsRegistered_run`). What is
registered is always a node that was made just before, so no entry of another root is overwritten,
and a body that is replaced loses its entries because it was nothing else than this body: bodies
are blocks and initializers are not. In particular what a built program has as a root is a node
(`RootsRegistered.rootsKnown`).
-/

namespace AsyncLift

namespace Program

variable {program later : Program} {id : DeclId} {body root : NodeId} {module_ : ModuleId}
  {node : Node}

/-- The declaration stands in the module and has the body. -/
def BodyAt (program : Program) (id : DeclId) (body : NodeId) (module_ : ModuleId) : Prop :=
  ∃ row, program.declarations[id]? = some row ∧ row.body = some body ∧ row.declaredIn = module_

/-- A type of the module has the initializer. -/
def InitializerIn (program : Program) (root : NodeId) (module_ : ModuleId) : Prop :=
  ∃ type ∈ program.types, root ∈ type.initializers ∧ type.declaredIn = module_

/-- The registers have the entries that the tables call for and no others, bodies are blocks, and
initializers are nodes of their own kind. -/
structure RootsRegistered (program : Program) : Prop where
  owners : ∀ body id, program.bodyOwner.find? body = some id ↔
    ∃ module_, program.BodyAt id body module_
  modules : ∀ root module_, program.rootModule.find? root = some module_ ↔
    (∃ id, program.BodyAt id root module_) ∨ program.InitializerIn root module_
  blocks : ∀ id body module_, program.BodyAt id body module_ →
    ∃ statements, program.nodes.get? body = some (.block statements)
  initializers : ∀ root module_, program.InitializerIn root module_ →
    ∃ name init, program.nodes.get? root = some (.initializer name init)

/-- The id is registered as the root of a body or of an initializer. -/
def IsRoot (program : Program) (root : NodeId) : Prop :=
  (∃ declaration ∈ program.declarations, declaration.body = some root) ∨
    ∃ type ∈ program.types, root ∈ type.initializers

/-- What is registered as a root is a node. -/
def RootsKnown (program : Program) : Prop := ∀ root, program.IsRoot root → root < program.nodes.size

theorem RootsRegistered.rootsKnown (h : program.RootsRegistered) : program.RootsKnown := by
  rintro root (⟨row, hrow, hbody⟩ | ⟨type, htype, hroot⟩)
  · obtain ⟨id, hid⟩ := Array.mem_iff_getElem?.mp hrow
    obtain ⟨statements, hblock⟩ := h.blocks id root _ ⟨row, hid, hbody, rfl⟩
    exact NodeStore.lt_size_of_get? hblock
  · obtain ⟨name, init, hnode⟩ := h.initializers root _ ⟨type, htype, hroot, rfl⟩
    exact NodeStore.lt_size_of_get? hnode

namespace RootsRegistered

/-! ## What roots cannot be -/

theorem not_both (h : program.RootsRegistered) {other : ModuleId}
    (hbody : program.BodyAt id root module_) : ¬ program.InitializerIn root other := by
  intro hinit
  obtain ⟨statements, hblock⟩ := h.blocks id root module_ hbody
  obtain ⟨name, init, hroot⟩ := h.initializers root other hinit
  cases hblock.symm.trans hroot

/-- A body belongs to one declaration. -/
theorem eq_of_body (h : program.RootsRegistered) {other : DeclId} {module' : ModuleId}
    (hbody : program.BodyAt id body module_) (hother : program.BodyAt other body module') :
    other = id := by
  have howner := (h.owners body id).mpr ⟨module_, hbody⟩
  have howner' := (h.owners body other).mpr ⟨module', hother⟩
  exact Option.some.inj (howner'.symm.trans howner)

theorem not_bodyAt_size (h : program.RootsRegistered) :
    ¬ program.BodyAt id program.nodes.size module_ := by
  intro hbody
  obtain ⟨statements, hblock⟩ := h.blocks id _ module_ hbody
  exact Nat.lt_irrefl _ (NodeStore.lt_size_of_get? hblock)

theorem not_initializerIn_size (h : program.RootsRegistered) :
    ¬ program.InitializerIn program.nodes.size module_ := by
  intro hinit
  obtain ⟨name, init, hroot⟩ := h.initializers _ module_ hinit
  exact Nat.lt_irrefl _ (NodeStore.lt_size_of_get? hroot)

/-! ## Steps that register nothing -/

/-- The registers and the nodes stay, and the tables have the same roots. -/
theorem of_roots (h : program.RootsRegistered) (howner : later.bodyOwner = program.bodyOwner)
    (hmodules : later.rootModule = program.rootModule) (hnodes : later.nodes = program.nodes)
    (hbodies : ∀ id body module_, later.BodyAt id body module_ ↔ program.BodyAt id body module_)
    (hinits : ∀ root module_, later.InitializerIn root module_ ↔
      program.InitializerIn root module_) : later.RootsRegistered := by
  constructor
  · simpa only [howner, hbodies] using h.owners
  · simpa only [hmodules, hbodies, hinits] using h.modules
  · simpa only [hnodes, hbodies] using h.blocks
  · simpa only [hnodes, hinits] using h.initializers

theorem addNode (h : program.RootsRegistered) (node : Node) :
    (program.addNode node).RootsRegistered where
  owners := h.owners
  modules := h.modules
  blocks id body module_ hbody := by
    obtain ⟨statements, hblock⟩ := h.blocks id body module_ hbody
    exact ⟨statements, get?_addNode hblock node⟩
  initializers root module_ hinit := by
    obtain ⟨name, init, hroot⟩ := h.initializers root module_ hinit
    exact ⟨name, init, get?_addNode hroot node⟩

theorem addType (h : program.RootsRegistered) (kind : TypeKind) (name : String)
    (declaredIn : ModuleId) : (program.addType kind name declaredIn).RootsRegistered := by
  refine h.of_roots rfl rfl rfl (fun _ _ _ => Iff.rfl) fun root module_ => ?_
  constructor
  · rintro ⟨type, htype, hroot, hmodule⟩
    rcases Array.mem_push.mp htype with hold | rfl
    · exact ⟨type, hold, hroot, hmodule⟩
    · cases hroot
  · rintro ⟨type, htype, hroot, hmodule⟩
    exact ⟨type, Array.mem_push.mpr (.inl htype), hroot, hmodule⟩

/-- A change of types that keeps initializers and modules. -/
theorem modifyType (h : program.RootsRegistered) (change : TypeDecl → TypeDecl)
    (hinits : ∀ type, (change type).initializers = type.initializers)
    (hmodules : ∀ type, (change type).declaredIn = type.declaredIn) (place : TypeId) :
    RootsRegistered { program with types := program.types.modify place change } := by
  refine h.of_roots rfl rfl rfl (fun _ _ _ => Iff.rfl) fun root module_ => ?_
  constructor
  · rintro ⟨type, htype, hroot, hmodule⟩
    dsimp only at htype
    obtain ⟨old, hold, rfl | rfl⟩ := exists_of_mem_modify htype
    · exact ⟨_, hold, hroot, hmodule⟩
    · exact ⟨old, hold, hinits old ▸ hroot, (hmodules old).symm.trans hmodule⟩
  · rintro ⟨type, htype, hroot, hmodule⟩
    obtain ⟨id, hid⟩ := Array.mem_iff_getElem?.mp htype
    have hrow : (program.types.modify place change)[id]? =
        some (if place = id then change type else type) := by
      rw [Array.getElem?_modify, hid]
      split <;> rfl
    refine ⟨_, Array.mem_of_getElem? hrow, ?_, ?_⟩
    · split
      · rw [hinits]
        exact hroot
      · exact hroot
    · split
      · rw [hmodules]
        exact hmodule
      · exact hmodule

end RootsRegistered

/-! ## What the tables have after a root is added or removed -/

theorem bodyAt_addDeclaration {declaration : Declaration} :
    (program.addDeclaration declaration).BodyAt id body module_ ↔
      program.BodyAt id body module_ ∨
        id = program.declarations.size ∧ declaration.body = some body ∧
          declaration.declaredIn = module_ := by
  have hrows : (program.addDeclaration declaration).declarations =
      program.declarations.push declaration := by
    unfold addDeclaration
    dsimp only
    split <;> rfl
  simp only [BodyAt, hrows, Array.getElem?_push]
  by_cases hid : id = program.declarations.size
  · simp [hid]
  · simp [hid]

theorem bodyAt_attachBody {place : DeclId} {row : Declaration} {new : NodeId}
    (hrow : program.declarations[place]? = some row) :
    (program.attachBody place new).BodyAt id body module_ ↔
      id ≠ place ∧ program.BodyAt id body module_ ∨
        id = place ∧ new = body ∧ row.declaredIn = module_ := by
  have hrows : (program.attachBody place new).declarations =
      program.declarations.modify place fun row => { row with body := some new } := by
    simp only [attachBody, hrow]
    split <;> rfl
  simp only [BodyAt, hrows, Array.getElem?_modify]
  by_cases hid : id = place
  · subst hid
    simp [hrow]
  · simp [hid, Ne.symm hid]

/-- The program after a declaration has lost its body. -/
def withoutBody (program : Program) (place : DeclId) (old : NodeId) : Program :=
  { program with
    declarations := program.declarations.modify place fun row => { row with body := none }
    bodyOwner := program.bodyOwner.erase old
    rootModule := program.rootModule.erase old }

theorem bodyAt_withoutBody {place : DeclId} {old : NodeId} :
    (program.withoutBody place old).BodyAt id body module_ ↔
      id ≠ place ∧ program.BodyAt id body module_ := by
  simp only [withoutBody, BodyAt, Array.getElem?_modify]
  by_cases hid : id = place
  · subst hid
    cases hrow : program.declarations[id]? <;> simp
  · simp [hid, Ne.symm hid]

theorem initializerIn_addInitializer {place : TypeId} {type : TypeDecl} {new : NodeId}
    (htype : program.types[place]? = some type) :
    (program.addInitializer place new).InitializerIn root module_ ↔
      program.InitializerIn root module_ ∨ root = new ∧ type.declaredIn = module_ := by
  simp only [addInitializer, htype]
  constructor
  · rintro ⟨decl, hdecl, hroot, hmodule⟩
    obtain ⟨other, hother⟩ := Array.mem_iff_getElem?.mp hdecl
    rw [Array.getElem?_modify] at hother
    split at hother
    · subst other
      rw [htype] at hother
      cases hother
      rcases List.mem_append.mp hroot with hold | hnew
      · exact .inl ⟨type, Array.mem_of_getElem? htype, hold, hmodule⟩
      · exact .inr ⟨List.mem_singleton.mp hnew, hmodule⟩
    · exact .inl ⟨decl, Array.mem_of_getElem? hother, hroot, hmodule⟩
  · have hplace : (program.types.modify place fun decl =>
          { decl with initializers := decl.initializers ++ [new] })[place]? =
        some { type with initializers := type.initializers ++ [new] } := by
      rw [Array.getElem?_modify, if_pos rfl, htype]
      rfl
    rintro (⟨decl, hdecl, hroot, hmodule⟩ | ⟨rfl, hmodule⟩)
    · obtain ⟨other, hother⟩ := Array.mem_iff_getElem?.mp hdecl
      by_cases hsame : place = other
      · subst hsame
        cases htype.symm.trans hother
        exact ⟨_, Array.mem_of_getElem? hplace, List.mem_append_left _ hroot, hmodule⟩
      · refine ⟨decl, Array.mem_of_getElem? (i := other) ?_, hroot, hmodule⟩
        rw [Array.getElem?_modify, if_neg hsame, hother]
    · exact ⟨_, Array.mem_of_getElem? hplace,
        List.mem_append_right _ (List.mem_singleton_self _), hmodule⟩

namespace RootsRegistered

/-! ## Steps that register a root -/

/-- A block that is no root becomes the body of a declaration. -/
theorem register (h : program.RootsRegistered) (place : DeclId) (module_ : ModuleId)
    {statements : List Slot} (hnodes : later.nodes = program.nodes)
    (hblock : program.nodes.get? body = some (.block statements))
    (hnew : ∀ id module_, ¬ program.BodyAt id body module_)
    (hbodies : ∀ id other module', later.BodyAt id other module' ↔
      program.BodyAt id other module' ∨ id = place ∧ body = other ∧ module_ = module')
    (hinits : ∀ root module', later.InitializerIn root module' ↔
      program.InitializerIn root module')
    (howner : later.bodyOwner = program.bodyOwner.insert body place)
    (hmodule : later.rootModule = program.rootModule.insert body module_) :
    later.RootsRegistered := by
  have hnoinit : ∀ module', ¬ program.InitializerIn body module' := by
    intro module' hinit
    obtain ⟨name, init, hroot⟩ := h.initializers body module' hinit
    cases hblock.symm.trans hroot
  constructor
  · intro other id
    simp only [howner, Register.find?_insert, hbodies]
    by_cases hother : other = body
    · subst hother
      simp [hnew, eq_comm]
    · simp [hother, Ne.symm hother, h.owners]
  · intro other module'
    simp only [hmodule, Register.find?_insert, hbodies, hinits]
    by_cases hother : other = body
    · subst hother
      simp [hnew, hnoinit]
    · simp [hother, Ne.symm hother, h.modules]
  · intro id other module' hbody
    rw [hnodes]
    rcases (hbodies id other module').mp hbody with hold | ⟨-, rfl, -⟩
    · exact h.blocks id other module' hold
    · exact ⟨statements, hblock⟩
  · intro root module' hinit
    rw [hnodes]
    exact h.initializers root module' ((hinits root module').mp hinit)

/-- A declaration that loses its body was the only one to have it. -/
theorem withoutBody (h : program.RootsRegistered) {place : DeclId}
    (hbody : program.BodyAt place body module_) :
    (program.withoutBody place body).RootsRegistered := by
  have honly : ∀ id module', id ≠ place → ¬ program.BodyAt id body module' :=
    fun id module' hid hother => hid (h.eq_of_body hbody hother)
  have hplace : ∀ other, other ≠ body → ∀ module', ¬ program.BodyAt place other module' := by
    rintro other hother module' ⟨row, hrow, hrowBody, -⟩
    obtain ⟨row', hrow', hbody', -⟩ := hbody
    cases hrow.symm.trans hrow'
    exact hother (Option.some.inj (hrowBody.symm.trans hbody'))
  have hinits : ∀ root module', (program.withoutBody place body).InitializerIn root module' ↔
      program.InitializerIn root module' := fun _ _ => Iff.rfl
  constructor
  · intro other id
    simp only [bodyAt_withoutBody]
    rw [Program.withoutBody, Register.find?_erase]
    by_cases hother : other = body
    · subst hother
      simp only [if_pos, reduceCtorEq, false_iff]
      rintro ⟨module', hid, hold⟩
      exact honly id module' hid hold
    · rw [if_neg hother, h.owners]
      refine exists_congr fun module' => (and_iff_right_of_imp ?_).symm
      rintro hold rfl
      exact hplace other hother module' hold
  · intro other module'
    simp only [bodyAt_withoutBody, hinits]
    rw [Program.withoutBody, Register.find?_erase]
    by_cases hother : other = body
    · subst hother
      simp only [if_pos, reduceCtorEq, false_iff]
      rintro (⟨id, hid, hold⟩ | hinit)
      · exact honly id module' hid hold
      · exact h.not_both hbody hinit
    · rw [if_neg hother, h.modules]
      refine or_congr_left (exists_congr fun id => (and_iff_right_of_imp ?_).symm)
      rintro hold rfl
      exact hplace other hother module' hold
  · intro id other module' hold
    exact h.blocks id other module' (bodyAt_withoutBody.mp hold).2
  · exact h.initializers

theorem addDeclaration_of_none (h : program.RootsRegistered) {declaration : Declaration}
    (hnone : declaration.body = none) : (program.addDeclaration declaration).RootsRegistered := by
  refine h.of_roots ?_ ?_ ?_ (fun id body module_ => ?_) fun root module_ => ?_
  · simp only [Program.addDeclaration, hnone]
  · simp only [Program.addDeclaration, hnone]
  · simp only [Program.addDeclaration, hnone]
  · rw [bodyAt_addDeclaration, hnone]
    simp
  · simp only [Program.addDeclaration, hnone]
    rfl

theorem addDeclaration (h : program.RootsRegistered) {declaration : Declaration}
    {statements : List Slot} (hbody : declaration.body = some body)
    (hblock : program.nodes.get? body = some (.block statements))
    (hnew : ∀ id module_, ¬ program.BodyAt id body module_) :
    (program.addDeclaration declaration).RootsRegistered := by
  refine h.register program.declarations.size declaration.declaredIn ?_ hblock hnew
    (fun id other module' => ?_) (fun root module' => ?_) ?_ ?_
  · simp only [Program.addDeclaration, hbody, registerBody]
  · rw [bodyAt_addDeclaration, hbody, Option.some.injEq]
  · simp only [Program.addDeclaration, hbody, registerBody]
    rfl
  · simp only [Program.addDeclaration, hbody, registerBody]
  · simp only [Program.addDeclaration, hbody, registerBody]

/-- The old body, if there is one, is forgotten first. -/
theorem attachBody (h : program.RootsRegistered) {place : DeclId} {statements : List Slot}
    (hblock : program.nodes.get? body = some (.block statements))
    (hnew : ∀ id module_, ¬ program.BodyAt id body module_) :
    (program.attachBody place body).RootsRegistered := by
  cases hrow : program.declarations[place]? with
  | none =>
    rw [Program.attachBody, hrow]
    exact h
  | some row =>
    cases hold : row.body with
    | none =>
      refine h.register place row.declaredIn ?_ hblock hnew (fun id other module' => ?_)
        (fun root module' => ?_) ?_ ?_
      · simp only [Program.attachBody, hrow, hold, registerBody]
      · rw [bodyAt_attachBody hrow]
        refine or_congr_left (and_iff_right_of_imp ?_)
        rintro ⟨row', hrow', hbody', -⟩ rfl
        cases hrow.symm.trans hrow'
        cases hold.symm.trans hbody'
      · simp only [Program.attachBody, hrow, hold, registerBody]
        rfl
      · simp only [Program.attachBody, hrow, hold, registerBody]
      · simp only [Program.attachBody, hrow, hold, registerBody]
    | some old =>
      have hwithout := h.withoutBody ⟨row, hrow, hold, rfl⟩
      refine hwithout.register place row.declaredIn ?_ hblock
        (fun id module' hbody => hnew id module' (bodyAt_withoutBody.mp hbody).2)
        (fun id other module' => ?_) (fun root module' => ?_) ?_ ?_
      · simp only [Program.attachBody, hrow, hold, registerBody, Program.withoutBody]
      · rw [bodyAt_attachBody hrow, bodyAt_withoutBody]
      · simp only [Program.attachBody, hrow, hold, registerBody, Program.withoutBody]
        rfl
      · simp only [Program.attachBody, hrow, hold, registerBody, Program.withoutBody]
      · simp only [Program.attachBody, hrow, hold, registerBody, Program.withoutBody]

theorem addInitializer (h : program.RootsRegistered) {place : TypeId} {name : String} {init : Slot}
    (hroot : program.nodes.get? root = some (.initializer name init))
    (hnew : ∀ module_, ¬ program.InitializerIn root module_) :
    (program.addInitializer place root).RootsRegistered := by
  cases htype : program.types[place]? with
  | none =>
    rw [Program.addInitializer, htype]
    exact h
  | some type =>
    have hnobody : ∀ id module_, ¬ program.BodyAt id root module_ := by
      intro id module_ hbody
      obtain ⟨statements, hblock⟩ := h.blocks id root module_ hbody
      cases hblock.symm.trans hroot
    have hinits : ∀ other module', (program.addInitializer place root).InitializerIn other module' ↔
        program.InitializerIn other module' ∨ other = root ∧ type.declaredIn = module' :=
      fun _ _ => initializerIn_addInitializer htype
    have hbodies : ∀ id other module', (program.addInitializer place root).BodyAt id other module' ↔
        program.BodyAt id other module' := by
      intro id other module'
      simp only [Program.addInitializer, htype]
      rfl
    have hnodes : (program.addInitializer place root).nodes = program.nodes := by
      simp only [Program.addInitializer, htype]
    constructor
    · intro other id
      simp only [hbodies, ← h.owners]
      simp only [Program.addInitializer, htype]
    · intro other module'
      simp only [hbodies, hinits]
      simp only [Program.addInitializer, htype, Register.find?_insert]
      by_cases hother : other = root
      · subst hother
        simp [hnew, hnobody]
      · simp [hother, h.modules]
    · intro id other module' hbody
      rw [hnodes]
      exact h.blocks id other module' ((hbodies id other module').mp hbody)
    · intro other module' hinit
      rw [hnodes]
      rcases (hinits other module').mp hinit with hold | ⟨rfl, -⟩
      · exact h.initializers other module' hold
      · exact ⟨name, init, hroot⟩

end RootsRegistered

end Program

/-! ## Built programs -/

namespace Builder

open Program

theorem rootsRegistered_step {current : ModuleId} {call : Call} {program later : Program}
    (h : program.RootsRegistered) (hstep : Step current call program later) :
    later.RootsRegistered := by
  cases hstep with
  | addModule name => exact h.of_roots rfl rfl rfl (fun _ _ _ => Iff.rfl) fun _ _ => Iff.rfl
  | addType kind name => exact h.addType kind name current
  | inherit place hchange =>
    refine h.modifyType _ (fun type => ?_) (fun type => ?_) place
    all_goals
      obtain ⟨baseClass, interfaces, heq⟩ := hchange type
      rw [heq]
  | @addMethod method =>
    have htypes := h.modifyType
      (fun type => { type with members := type.members ++ [program.methods.size] })
      (fun _ => rfl) (fun _ => rfl) method.owner
    exact ⟨htypes.owners, htypes.modules, htypes.blocks, htypes.initializers⟩
  | declare hbody => exact h.addDeclaration_of_none hbody
  | addNode node => exact h.addNode node
  | addPart statements hbody =>
    exact (h.addNode _).addDeclaration hbody (get?_addNode_size _ _) fun _ _ => h.not_bodyAt_size
  | attachBody place statements =>
    exact (h.addNode _).attachBody (get?_addNode_size _ _) fun _ _ => h.not_bodyAt_size
  | addInitializer type name init =>
    exact (h.addNode _).addInitializer (get?_addNode_size _ _) fun _ => h.not_initializerIn_size

theorem rootsRegistered_run {builder : Builder} (h : builder.program.RootsRegistered)
    (calls : List Call) : (builder.run calls).program.RootsRegistered :=
  run_invariant RootsRegistered (fun _ _ _ _ hstep h => rootsRegistered_step h hstep) h calls

theorem rootsRegistered_withMain : withMain.program.RootsRegistered := by
  have hbody : ∀ id body module_, ¬ withMain.program.BodyAt id body module_ := by
    rintro id body module_ ⟨row, hrow, -⟩
    cases hrow
  have hinit : ∀ root module_, ¬ withMain.program.InitializerIn root module_ := by
    rintro root module_ ⟨type, htype, -⟩
    exact absurd htype (Array.not_mem_empty _)
  constructor
  · intro body id
    simp only [hbody, exists_false, iff_false]
    intro howner
    cases howner
  · intro root module_
    simp only [hbody, hinit, exists_false, or_false, iff_false]
    intro hmodule
    cases hmodule
  · exact fun id body module_ h => absurd h (hbody id body module_)
  · exact fun root module_ h => absurd h (hinit root module_)

end Builder

end AsyncLift
