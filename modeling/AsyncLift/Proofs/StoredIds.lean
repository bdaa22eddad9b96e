import AsyncLift.Proofs.LoadedProjects
import AsyncLift.Proofs.OverrideAcyclic
import AsyncLift.Proofs.RegisteredRoots

/-!
# Ids in finished programs

A builder stores the ids that it is given, whatever they are, and validation looks at some of them
when it is done. The others are right for one of two reasons: the builder has made the row itself
just before (members, roots, the declarations of a method), or it has taken the id over from another
row (the module of a declaration).

Two kinds of ids are neither checked nor made: the method that a declaration is for, and the
children of a node. These may lead nowhere in a finished program. They do so exactly if a call has
named a method or a node that is not there in the end (`Builder.finish_stores_ids`).
-/

namespace AsyncLift

/-- A declaration apart from its body. -/
def Declaration.head (row : Declaration) : Declaration := { row with body := none }

theorem Declaration.head_eq_iff {row row' : Declaration} : row'.head = row.head ↔
    row'.method = row.method ∧ row'.declaredIn = row.declaredIn := by
  simp [head]

namespace Program

open Conversion (declarationsOf)

variable {program : Program} {id : MethodId} {child : NodeId}

/-! ## Modules and declarations -/

/-- Types and declarations lie in known modules, and methods list known declarations. -/
structure Housed (program : Program) : Prop where
  types : ∀ type ∈ program.types, type.declaredIn < program.modules.size
  declarations : ∀ declaration ∈ program.declarations,
    declaration.declaredIn < program.modules.size
  methods : ∀ id, ∀ listed ∈ declarationsOf program id, listed < program.declarations.size

theorem declarationsOf_addDeclaration (program : Program) (row : Declaration) (id : MethodId) :
    declarationsOf (program.addDeclaration row) id = declarationsOf program id ++
      if row.method = id ∧ id < program.methods.size then [program.declarations.size] else [] := by
  obtain ⟨bodyOwner, rootModule, hprogram⟩ := program.addDeclaration_eq row
  rw [hprogram]
  simp only [declarationsOf, Array.getElem?_modify]
  by_cases hmethod : row.method = id
  · rw [if_pos hmethod]
    by_cases hid : id < program.methods.size
    · rw [if_pos ⟨hmethod, hid⟩, Array.getElem?_eq_getElem hid]
      rfl
    · rw [if_neg fun h => hid h.2, Array.getElem?_eq_none (Nat.le_of_not_lt hid)]
      rfl
  · rw [if_neg hmethod, if_neg fun h => hmethod h.1, List.append_nil]

/-! ## Methods of declarations and children of nodes -/

/-- Some declaration is one of the method. -/
def Declares (program : Program) (id : MethodId) : Prop :=
  ∃ declaration ∈ program.declarations, declaration.method = id

/-- Some node has the child. -/
def HasChild (program : Program) (child : NodeId) : Prop :=
  ∃ parent, child ∈ program.nodes.childrenOf parent

theorem declares_addDeclaration {declaration : Declaration} :
    (program.addDeclaration declaration).Declares id ↔
      program.Declares id ∨ declaration.method = id := by
  obtain ⟨bodyOwner, rootModule, hprogram⟩ := program.addDeclaration_eq declaration
  rw [hprogram]
  simp only [Declares, Array.mem_push]
  constructor
  · rintro ⟨other, hold | rfl, hid⟩
    · exact .inl ⟨other, hold, hid⟩
    · exact .inr hid
  · rintro (⟨other, hold, hid⟩ | hid)
    · exact ⟨other, .inl hold, hid⟩
    · exact ⟨declaration, .inr rfl, hid⟩

theorem declares_attachBody {place : DeclId} {body : NodeId} :
    (program.attachBody place body).Declares id ↔ program.Declares id := by
  obtain ⟨bodyOwner, rootModule, hprogram⟩ := program.attachBody_eq place body
  have hmethods : (program.declarations.modify place fun declaration =>
      { declaration with body := some body }).map (·.method) =
        program.declarations.map (·.method) := by
    apply map_modify_of_eq
    intro declaration
    rfl
  have hview : ∀ program : Program, program.Declares id ↔
      id ∈ program.declarations.map (·.method) := fun _ => Array.mem_map.symm
  rw [hview, hview, hprogram, hmethods]

theorem hasChild_congr {later : Program} (h : later.nodes = program.nodes) :
    later.HasChild child ↔ program.HasChild child := by
  rw [HasChild, HasChild, h]

theorem hasChild_addNode {node : Node} :
    (program.addNode node).HasChild child ↔ program.HasChild child ∨ child ∈ node.children := by
  have hchildren : ∀ parent, (program.addNode node).nodes.childrenOf parent =
      if parent = program.nodes.size then node.children else program.nodes.childrenOf parent :=
    NodeStore.childrenOf_add program.nodes node
  constructor
  · rintro ⟨parent, hchild⟩
    rw [hchildren] at hchild
    split at hchild
    · exact .inr hchild
    · exact .inl ⟨parent, hchild⟩
  · rintro (⟨parent, hchild⟩ | hchild)
    · obtain ⟨row, hrow, -⟩ := NodeStore.get?_of_mem_childrenOf hchild
      refine ⟨parent, ?_⟩
      rw [hchildren, if_neg (Nat.ne_of_lt (NodeStore.lt_size_of_get? hrow))]
      exact hchild
    · refine ⟨program.nodes.size, ?_⟩
      rw [hchildren, if_pos rfl]
      exact hchild

end Program

/-! ## Builders -/

namespace Builder

open Program
open Conversion (declarationsOf)

variable {builder : Builder}

/-- The places for children that a call fills in. -/
def Call.slots : Call → List Slot
  | setBody _ statements => statements
  | addPart _ statements => statements
  | addField _ _ init => [init]
  | call receiver _ args => receiver :: args
  | unresolvedCall receiver _ args => receiver :: args
  | await operand => [operand]
  | lambda _ _ statements => statements
  | exprStatement expr => [expr]
  | ret expr => [expr]
  | localVar _ init => [init]
  | localFunction _ _ _ statements => statements
  | _ => []

/-- The nodes that a call makes children of new ones. -/
def Call.children (call : Call) : List NodeId := call.slots.filterMap id

/-! ## Modules of types and declarations -/

section Steps

variable {current : ModuleId} {call : Call} {program later : Program}

/-- A type lies where an old one lies or in the module that types go into. -/
theorem Step.declaredIn_cases (h : Step current call program later) {type : TypeDecl}
    (htype : type ∈ later.types) :
    (∃ old ∈ program.types, type.declaredIn = old.declaredIn) ∨ type.declaredIn = current := by
  cases h with
  | addModule name => exact .inl ⟨type, htype, rfl⟩
  | addType kind name =>
    rcases Array.mem_push.mp htype with hold | rfl
    · exact .inl ⟨type, hold, rfl⟩
    · exact .inr rfl
  | inherit place hchange =>
    dsimp only at htype
    obtain ⟨old, hold, rfl | rfl⟩ := exists_of_mem_modify htype
    · exact .inl ⟨_, hold, rfl⟩
    · obtain ⟨baseClass, interfaces, heq⟩ := hchange old
      exact .inl ⟨old, hold, by rw [heq]⟩
  | addMethod =>
    dsimp only [Program.addMethod] at htype
    obtain ⟨old, hold, rfl | rfl⟩ := exists_of_mem_modify htype
    · exact .inl ⟨_, hold, rfl⟩
    · exact .inl ⟨old, hold, rfl⟩
  | declare =>
    rw [types_addDeclaration] at htype
    exact .inl ⟨type, htype, rfl⟩
  | addNode node => exact .inl ⟨type, htype, rfl⟩
  | addPart =>
    rw [types_addDeclaration] at htype
    exact .inl ⟨type, htype, rfl⟩
  | attachBody =>
    rw [types_attachBody] at htype
    exact .inl ⟨type, htype, rfl⟩
  | addInitializer =>
    rw [types_addInitializer] at htype
    obtain ⟨old, hold, rfl | rfl⟩ := exists_of_mem_modify htype
    · exact .inl ⟨_, hold, rfl⟩
    · exact .inl ⟨old, hold, rfl⟩

/-- A step leaves declarations alone, apart from the bodies of these, or it adds one. -/
theorem Step.declarations_cases (h : Step current call program later) :
    ((∀ id, declarationsOf later id = declarationsOf program id) ∧
      later.declarations.map Declaration.head = program.declarations.map Declaration.head) ∨
    ∃ row, (row.method < program.methods.size ∨ call.bodyOf? = some row.method) ∧
      row.declaredIn = moduleOfMethod ⟨program, current⟩ row.method ∧
      later.declarations = program.declarations.push row ∧
      ∀ id, declarationsOf later id = declarationsOf program id ++
        if row.method = id ∧ id < program.methods.size then [program.declarations.size]
        else [] := by
  cases h with
  | addModule name => exact .inl ⟨fun _ => rfl, rfl⟩
  | addType kind name => exact .inl ⟨fun _ => rfl, rfl⟩
  | inherit place hchange => exact .inl ⟨fun _ => rfl, rfl⟩
  | addMethod hnew =>
    -- The new method has no declarations yet.
    refine .inl ⟨fun id => ?_, rfl⟩
    simp only [declarationsOf, Program.addMethod, Array.getElem?_push]
    by_cases hid : id = program.methods.size
    · rw [if_pos hid, Array.getElem?_eq_none (Nat.le_of_eq hid.symm)]
      exact hnew
    · rw [if_neg hid]
  | declare _ hmethod hmodule =>
    exact .inr ⟨_, .inl hmethod, hmodule, declarations_addDeclaration _ _,
      declarationsOf_addDeclaration _ _⟩
  | addNode node => exact .inl ⟨fun _ => rfl, rfl⟩
  | addPart statements _ hmethod hmodule =>
    exact .inr ⟨_, .inr hmethod, hmodule, declarations_addDeclaration _ _,
      declarationsOf_addDeclaration _ _⟩
  | attachBody place statements =>
    obtain ⟨bodyOwner, rootModule, hprogram⟩ :=
      (program.addNode (.block statements)).attachBody_eq place program.nodes.size
    rw [hprogram]
    refine .inl ⟨fun _ => rfl, ?_⟩
    dsimp only
    apply map_modify_of_eq
    exact fun _ => rfl
  | addInitializer type name init =>
    refine .inl ⟨fun id => ?_, ?_⟩
    · rw [declarationsOf, methods_addInitializer]
      rfl
    · rw [declarations_addInitializer]
      rfl

end Steps

/-- The module in which types are added is known, and so is what types, methods and declarations
refer to of modules and declarations. -/
structure Housed (builder : Builder) : Prop where
  current : builder.current < builder.program.modules.size
  program : builder.program.Housed

namespace Housed

theorem moduleOfType (h : builder.Housed) (type : TypeId) :
    builder.moduleOfType type < builder.program.modules.size := by
  unfold Builder.moduleOfType
  split
  · rename_i decl hdecl
    exact h.program.types decl (Array.mem_of_getElem? hdecl)
  · exact h.current

theorem moduleOfMethod (h : builder.Housed) (method : MethodId) :
    builder.moduleOfMethod method < builder.program.modules.size := by
  unfold Builder.moduleOfMethod
  split
  · exact h.moduleOfType _
  · exact h.current

theorem step {current : ModuleId} {call : Call} {program later : Program}
    (h : Housed ⟨program, current⟩) (hstep : Step current call program later) :
    Housed ⟨later, current⟩ := by
  have hmodules := hstep.keepsRows.modules_le
  refine ⟨h.current.trans_le hmodules, fun type htype => ?_, fun row hrow => ?_, ?_⟩
  · obtain ⟨old, hold, heq⟩ | heq := hstep.declaredIn_cases htype
    · rw [heq]
      exact (h.program.types old hold).trans_le hmodules
    · rw [heq]
      exact h.current.trans_le hmodules
  · obtain ⟨-, hheads⟩ | ⟨new, -, hmodule, hrows, -⟩ := hstep.declarations_cases
    · obtain ⟨old, hold, heq⟩ := exists_of_map_eq hheads hrow
      rw [← (Declaration.head_eq_iff.mp heq).2]
      exact (h.program.declarations old hold).trans_le hmodules
    · rw [hrows] at hrow
      rcases Array.mem_push.mp hrow with hold | rfl
      · exact (h.program.declarations row hold).trans_le hmodules
      · rw [hmodule]
        exact (h.moduleOfMethod row.method).trans_le hmodules
  · intro id listed hlisted
    obtain ⟨hlists, hheads⟩ | ⟨row, -, -, hrows, hlists⟩ := hstep.declarations_cases
    · have hsize : later.declarations.size = program.declarations.size := by
        simpa only [Array.size_map] using congrArg Array.size hheads
      rw [hsize]
      exact h.program.methods id listed (hlists id ▸ hlisted)
    · dsimp only
      rw [hrows, Array.size_push]
      rw [hlists] at hlisted
      rcases List.mem_append.mp hlisted with hold | hnew
      · exact Nat.lt_succ_of_lt (h.program.methods id listed hold)
      · split at hnew
        · rw [List.mem_singleton.mp hnew]
          exact Nat.lt_succ_self _
        · cases hnew

theorem perform (h : builder.Housed) (call : Call) : (builder.perform call).2.Housed := by
  have hprogram : Housed ⟨(builder.perform call).2.program, builder.current⟩ :=
    perform_invariant (fun program => Housed ⟨program, builder.current⟩)
      (fun _ _ _ hstep h => h.step hstep) h
  refine ⟨?_, hprogram.program⟩
  -- Only a new module takes the place of the one in which types are added.
  cases call with
  | startModule name => simp [Builder.perform, Builder.startModule, addModule]
  | addMethod owner spec =>
    rw [← current_addMethod builder owner spec] at hprogram
    exact hprogram.current
  | setBody method statements =>
    have hcurrent : (builder.setBody method statements).2.current = builder.current := by
      unfold setBody
      split <;> rfl
    rw [← hcurrent] at hprogram
    exact hprogram.current
  | _ => exact hprogram.current

theorem run (h : builder.Housed) (calls : List Call) : (builder.run calls).Housed := by
  induction calls generalizing builder with
  | nil => exact h
  | cons call calls ih => exact ih (h.perform call)

end Housed

theorem housed_withMain : withMain.Housed :=
  ⟨by decide, fun _ h => absurd h (Array.not_mem_empty _),
    fun _ h => absurd h (Array.not_mem_empty _), fun id listed h => by cases h⟩

/-! ## What calls add -/

theorem declares_addPart {method id : MethodId} {statements : List Slot} :
    (builder.addPart method statements).2.program.Declares id ↔
      builder.program.Declares id ∨ method = id :=
  declares_addDeclaration

/-- Past the last method, declarations are of the methods that calls add bodies for. -/
theorem declares_perform {call : Call} {id : MethodId}
    (hid : (builder.perform call).2.program.methods.size ≤ id) :
    (builder.perform call).2.program.Declares id ↔
      builder.program.Declares id ∨ call.bodyOf? = some id := by
  have hkept : ∀ {kept : Prop}, kept ↔ kept ∨ (none : Option MethodId) = some id := by simp
  cases call with
  | addMethod owner spec =>
    -- The method that is declared here is known from now on.
    have hne : builder.program.methods.size ≠ id := by
      dsimp only [perform] at hid
      rw [size_addMethod] at hid
      exact Nat.ne_of_lt hid
    dsimp only [perform]
    unfold addMethod
    split
    · exact hkept
    · dsimp only
      rw [declares_addDeclaration, or_iff_left hne]
      exact hkept
  | setBody method statements =>
    simp only [perform, Prod.map, Call.bodyOf?, Option.some.injEq, id_eq] at hid ⊢
    unfold setBody at hid ⊢
    split
    · -- A method that has a declaration is known, so it is another one.
      rename_i first hfirst
      rw [hfirst] at hid
      obtain ⟨row, hrow, -⟩ := Option.bind_eq_some_iff.mp hfirst
      have hlt := (Array.getElem?_eq_some_iff.mp hrow).1
      dsimp only at hid ⊢
      rw [methods_attachBody] at hid
      rw [declares_attachBody]
      exact (or_iff_left (Nat.ne_of_lt (hlt.trans_le hid))).symm
    · exact declares_addPart
  | addPart method statements =>
    simp only [perform, Prod.map, Call.bodyOf?, Option.some.injEq, id_eq]
    exact declares_addPart
  | addField type name init =>
    simp only [perform, Prod.map, addField, addNode, Declares, declarations_addInitializer, id_eq]
    exact hkept
  | _ => exact hkept

theorem hasChild_addPart {method : MethodId} {statements : List Slot} {child : NodeId} :
    (builder.addPart method statements).2.program.HasChild child ↔
      builder.program.HasChild child ∨ child ∈ (Node.block statements).children :=
  (hasChild_congr (nodes_addDeclaration ..)).trans hasChild_addNode

/-- Past the last node, children are those that calls name. -/
theorem hasChild_perform {call : Call} {child : NodeId}
    (hchild : (builder.perform call).2.program.nodes.size ≤ child) :
    (builder.perform call).2.program.HasChild child ↔
      builder.program.HasChild child ∨ child ∈ call.children := by
  have hkept : ∀ {kept : Prop}, kept ↔ kept ∨ child ∈ ([] : List NodeId) := by simp
  -- A function is made together with its block, which is known from then on.
  have hfunction : ∀ {node : Node} {statements : List Slot},
      node.children = [builder.program.nodes.size] →
      ((builder.program.addNode (.block statements)).addNode node).nodes.size ≤ child →
      (((builder.program.addNode (.block statements)).addNode node).HasChild child ↔
        builder.program.HasChild child ∨ child ∈ (Node.block statements).children) := by
    intro node statements hnode hsize
    have hne : child ∉ node.children := by
      simp only [Program.addNode, NodeStore.size_add] at hsize
      rw [hnode, List.mem_singleton]
      refine Nat.ne_of_gt ?_
      omega
    rw [hasChild_addNode, or_iff_left hne, hasChild_addNode]
  cases call with
  | startModule name => exact hkept
  | addType kind name => exact hkept
  | setBaseClass child base => exact hkept
  | listInterface type interface => exact hkept
  | addMethod owner spec =>
    dsimp only [perform]
    unfold addMethod
    split
    · exact hkept
    · dsimp only
      rw [hasChild_congr (nodes_addDeclaration ..)]
      exact hkept
  | setBody method statements =>
    dsimp only [perform, Prod.map, id_eq]
    unfold setBody
    split
    · dsimp only
      rw [hasChild_congr (nodes_attachBody ..)]
      exact hasChild_addNode
    · dsimp only
      exact hasChild_addPart
  | addPart method statements => exact hasChild_addPart
  | addField type name init =>
    dsimp only [perform, Prod.map, addField, id_eq]
    rw [hasChild_congr (nodes_addInitializer ..)]
    exact hasChild_addNode
  | lambda isAsync params statements => exact hfunction rfl hchild
  | localFunction name isAsync returnType statements => exact hfunction rfl hchild
  | _ => exact hasChild_addNode

/-- What holds of ids past the end of a table if a call brings it about holds after a run if one of
the calls does, since tables do not get shorter. -/
theorem run_iff (holds : Builder → Prop) (brings : Call → Prop) (size : Builder → Nat) {id : Nat}
    (hgrows : ∀ builder call, size builder ≤ size (builder.perform call).2)
    (hstep : ∀ builder call, size (builder.perform call).2 ≤ id →
      (holds (builder.perform call).2 ↔ holds builder ∨ brings call))
    {calls : List Call} (hid : size (builder.run calls) ≤ id) :
    holds (builder.run calls) ↔ holds builder ∨ ∃ call ∈ calls, brings call := by
  have hrun : ∀ (builder : Builder) calls, size builder ≤ size (builder.run calls) := by
    intro builder calls
    induction calls generalizing builder with
    | nil => exact Nat.le_refl _
    | cons call calls ih => exact (hgrows builder call).trans (ih _)
  induction calls generalizing builder with
  | nil => simp [run]
  | cons call calls ih =>
    have hfirst := hstep builder call ((hrun _ calls).trans hid)
    refine (ih hid).trans ?_
    rw [hfirst, or_assoc]
    simp only [List.mem_cons, exists_eq_or_imp]

theorem declares_run {calls : List Call} {id : MethodId}
    (hid : (builder.run calls).program.methods.size ≤ id) :
    (builder.run calls).program.Declares id ↔
      builder.program.Declares id ∨ ∃ call ∈ calls, call.bodyOf? = some id :=
  run_iff (fun builder => builder.program.Declares id) (fun call => call.bodyOf? = some id)
    (fun builder => builder.program.methods.size)
    (fun builder call => (builder.keepsRows_perform call).methods_le)
    (fun _ _ => declares_perform) hid

theorem hasChild_run {calls : List Call} {child : NodeId}
    (hchild : (builder.run calls).program.nodes.size ≤ child) :
    (builder.run calls).program.HasChild child ↔
      builder.program.HasChild child ∨ ∃ call ∈ calls, child ∈ call.children :=
  run_iff (fun builder => builder.program.HasChild child) (fun call => child ∈ call.children)
    (fun builder => builder.program.nodes.size)
    (fun builder call => (builder.keepsRows_perform call).nodes_le)
    (fun _ _ => hasChild_perform) hchild

end Builder

/-! ## Finished programs -/

namespace Program

/-- The ids in the tables lead to rows, with nothing said of the methods of declarations and of the
children of nodes. -/
structure RowsKnown (program : Program) : Prop where
  modules : ∀ type ∈ program.types, type.declaredIn < program.modules.size
  bases : ∀ type ∈ program.types, ∀ base, type.baseClass = some base → base < program.types.size
  interfaces : ∀ type ∈ program.types, ∀ interface ∈ type.interfaces,
    interface < program.types.size
  members : ∀ type ∈ program.types, ∀ id ∈ type.members, id < program.methods.size
  initializers : ∀ type ∈ program.types, ∀ root ∈ type.initializers, root < program.nodes.size
  owners : ∀ method ∈ program.methods, method.owner < program.types.size
  declarations : ∀ method ∈ program.methods, ∀ id ∈ method.declarations,
    id < program.declarations.size
  declaredIn : ∀ declaration ∈ program.declarations,
    declaration.declaredIn < program.modules.size
  bodies : ∀ declaration ∈ program.declarations, ∀ body, declaration.body = some body →
    body < program.nodes.size
  targets : program.TargetsKnown

theorem owner_lt_of_checkMethods {program : Program} {keys : List String} {methods : List Method}
    (h : program.checkMethods keys methods = .ok ()) :
    ∀ method ∈ methods, method.owner < program.types.size := by
  fun_induction program.checkMethods keys methods with
  | case1 => exact nofun
  | case2 => cases h
  | case3 keys method methods howner hkey ih =>
    exact List.forall_mem_cons.mpr ⟨Nat.lt_of_not_le howner, ih h⟩
  | case4 => cases h
  | case5 keys method methods howner key hkey hnew ih =>
    exact List.forall_mem_cons.mpr ⟨Nat.lt_of_not_le howner, ih h⟩

theorem rowsKnown_of_validate {program : Program} (h : program.validate = .ok ())
    (hmembers : program.MembersKnown) (hroots : program.RootsKnown) (hhoused : program.Housed) :
    program.RowsKnown := by
  obtain ⟨htypes, hmethods, htargets, -⟩ := validate_eq_ok.mp h
  have hchecked : ∀ type ∈ program.types, program.checkType type = .ok () :=
    fun type htype => htypes type (Array.mem_toList_iff.mpr htype)
  refine ⟨hhoused.types, ?_, ?_, ?_, ?_, ?_, ?_, hhoused.declarations, ?_, htargets⟩
  · intro type htype base hbase
    obtain ⟨parent, hparent, -⟩ := checkBaseClass_eq_ok.mp
      ((checkType_eq_ok.mp (hchecked type htype)).2.1 base hbase)
    exact (Array.getElem?_eq_some_iff.mp hparent).1
  · intro type htype interface hlisted
    obtain ⟨parent, hparent, -⟩ := checkInterface_eq_ok.mp
      ((checkType_eq_ok.mp (hchecked type htype)).2.2 interface hlisted)
    exact (Array.getElem?_eq_some_iff.mp hparent).1
  · intro type htype id hid
    obtain ⟨place, hplace⟩ := Array.mem_iff_getElem?.mp htype
    have howner := hmembers place id (by rw [membersOf, hplace]; exact hid)
    obtain ⟨row, hrow, -⟩ := Option.map_eq_some_iff.mp howner
    exact (Array.getElem?_eq_some_iff.mp hrow).1
  · exact fun type htype root hroot => hroots root (.inr ⟨type, htype, hroot⟩)
  · exact fun method hmethod =>
      owner_lt_of_checkMethods hmethods method (Array.mem_toList_iff.mpr hmethod)
  · intro method hmethod id hid
    obtain ⟨place, hplace⟩ := Array.mem_iff_getElem?.mp hmethod
    exact hhoused.methods place id (by rw [Conversion.declarationsOf, hplace]; exact hid)
  · exact fun declaration hdeclaration body hbody =>
      hroots body (.inl ⟨declaration, hdeclaration, hbody⟩)

end Program

namespace Builder

open Program

/-- In a finished program the ids in the tables lead to rows, but for two kinds of them. A
declaration is of an unknown method exactly if a call has added a body for that method, and a node
has an unknown child exactly if a call has named that child. -/
theorem finish_stores_ids {calls : List Call} {program : Program}
    (h : (withMain.run calls).finish = .ok program) :
    program.RowsKnown ∧
      (∀ id, program.methods.size ≤ id →
        ((∃ declaration ∈ program.declarations, declaration.method = id) ↔
          ∃ call ∈ calls, call.bodyOf? = some id)) ∧
      ∀ child, program.nodes.size ≤ child →
        ((∃ parent, child ∈ program.nodes.childrenOf parent) ↔
          ∃ call ∈ calls, child ∈ call.children) := by
  obtain ⟨hvalid, rfl⟩ := finish_eq_ok.mp h
  refine ⟨rowsKnown_of_validate hvalid (membersKnown_run membersKnown_withMain calls)
    (rootsRegistered_run rootsRegistered_withMain calls).rootsKnown
    (housed_withMain.run calls).program, ?_, ?_⟩
  · intro id hid
    have hnone : ¬ withMain.program.Declares id := by
      rintro ⟨declaration, hdeclaration, -⟩
      exact Array.not_mem_empty _ hdeclaration
    exact (declares_run hid).trans (or_iff_right hnone)
  · intro child hchild
    have hnone : ¬ withMain.program.HasChild child := by
      rintro ⟨parent, hparent⟩
      cases hparent
    exact (hasChild_run hchild).trans (or_iff_right hnone)

/-- A body that returns a node which is not there, and a part of a method which is not there. -/
def unknownParts : List Call :=
  [.addType .ofClass "Store", .addMethod 0 { name := "Load" },
    .addMethod 0 { name := "Run", modifiers := { isAsync := true } },
    .call none 0 [], .exprStatement (some 0), .ret (some 5), .setBody 1 [some 1, some 2],
    .addPart 7 []]

/-- Validation passes. When the first method is converted, the call of it moves to a new place, and
the missing node is there: it is returned by the body as well. -/
theorem finish_stores_ids_unknownParts :
    ∃ program, (withMain.run unknownParts).finish = .ok program ∧ program.RowsKnown ∧
      program.methods.size = 2 ∧
      (∃ declaration ∈ program.declarations, declaration.method = 7) ∧
      program.nodes.size = 5 ∧ (∃ parent, 5 ∈ program.nodes.childrenOf parent) ∧
      (Conversion.run {} program 0).2.nodes.get? 0 = some (.await (some 5)) ∧
      (Conversion.run {} program 0).2.nodes.get? 5 =
        some (.call none "LoadAsync" (some 0) []) := by
  have hvalid : (withMain.run unknownParts).program.validate = .ok () :=
    validate_eq_ok.mpr ⟨by decide +kernel, by decide +kernel,
      checkTargets_eq_ok.mp (by decide +kernel), checkCycles_of_ordered (by decide +kernel)⟩
  have hfinish := finish_eq_ok.mpr ⟨hvalid, rfl⟩
  obtain ⟨hrows, hmethods, hchildren⟩ := finish_stores_ids hfinish
  exact ⟨_, hfinish, hrows, by decide +kernel,
    (hmethods 7 (by decide +kernel)).mpr ⟨.addPart 7 [], by decide, rfl⟩, by decide +kernel,
    (hchildren 5 (by decide +kernel)).mpr ⟨.ret (some 5), by decide, by decide⟩,
    by decide +kernel, by decide +kernel⟩

end Builder

end AsyncLift
