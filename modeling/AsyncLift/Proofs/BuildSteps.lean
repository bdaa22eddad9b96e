import AsyncLift.Program.Builder
import AsyncLift.Proofs.NodeStore
import Mathlib.Logic.Relation

/-!
# What building changes

A builder takes many calls, but there are few things that a call does to the program. It adds a row
to a table, and what refers to the row is kept in step: `Builder.Step` lists these changes together
with what the builder sees to when it makes them. A body or an initializer is a node made just
before, a new method has no declarations, it is of the kind that its owner gives it, and a
declaration stands in the module of the owner.

Every call is a sequence of steps (`Builder.perform_steps`), so that what a step keeps, a call keeps
and a run of calls (`Builder.perform_invariant`, `Builder.run_invariant`). In particular no row is
ever moved. Under its place it keeps all that it was made with (`Program.KeepsRows`); only lists
grow, supertypes are set, and bodies are replaced.
-/

namespace AsyncLift

/-! ## Rows of a table -/

section Rows

variable {α β : Type} {rows : Array α} {place : Nat} {row : α} {change : α → α}

theorem exists_of_mem_modify (h : row ∈ rows.modify place change) :
    ∃ old ∈ rows, row = old ∨ row = change old := by
  obtain ⟨other, hother⟩ := Array.mem_iff_getElem?.mp h
  rw [Array.getElem?_modify] at hother
  split at hother
  · obtain ⟨old, hold, rfl⟩ := Option.map_eq_some_iff.mp hother
    exact ⟨old, Array.mem_of_getElem? hold, .inr rfl⟩
  · exact ⟨row, Array.mem_of_getElem? hother, .inl rfl⟩

theorem exists_getElem?_modify (h : rows[place]? = some row) (other : Nat) (change : α → α) :
    ∃ row', (rows.modify other change)[place]? = some row' ∧ (row' = row ∨ row' = change row) := by
  rw [Array.getElem?_modify, h]
  split
  · exact ⟨_, rfl, .inr rfl⟩
  · exact ⟨_, rfl, .inl rfl⟩

theorem getElem?_push_of_some (h : rows[place]? = some row) (new : α) :
    (rows.push new)[place]? = some row := by
  rw [Array.getElem?_push, if_neg (Nat.ne_of_lt (Array.getElem?_eq_some_iff.mp h).1), h]

theorem map_modify_of_eq {f : α → β} (h : ∀ row, f (change row) = f row) (rows : Array α)
    (place : Nat) : (rows.modify place change).map f = rows.map f := by
  apply Array.ext_getElem?
  intro other
  rw [Array.getElem?_map, Array.getElem?_map, Array.getElem?_modify]
  split
  · cases rows[other]? <;> simp [h]
  · rfl

theorem exists_of_map_eq {rows' : Array α} {f : α → β} (h : rows'.map f = rows.map f)
    (hrow : row ∈ rows') : ∃ old ∈ rows, f old = f row := by
  have hmem : f row ∈ rows.map f := h ▸ Array.mem_map_of_mem hrow
  exact Array.mem_map.mp hmem

theorem modify_of_getElem?_eq_none (h : rows[place]? = none) (change : α → α) :
    rows.modify place change = rows := by
  apply Array.ext_getElem?
  intro other
  rw [Array.getElem?_modify]
  split
  · rename_i hplace
    rw [← hplace, h]
    rfl
  · rfl

end Rows

/-- A method apart from its declarations. -/
def Method.head (method : Method) : Method := { method with declarations := [] }

theorem Method.eq_of_head {method method' : Method} (h : method'.head = method.head) :
    method' = { method with declarations := method'.declarations } := by
  cases method
  cases method'
  simpa [head] using h

namespace Program

variable {program later third : Program} {id : NodeId} {node : Node}

/-! ## New nodes -/

theorem size_lt_addNode (program : Program) (node : Node) :
    program.nodes.size < (program.addNode node).nodes.size := by
  simp [addNode]

theorem get?_addNode_size (program : Program) (node : Node) :
    (program.addNode node).nodes.get? program.nodes.size = some node := by
  rw [addNode, NodeStore.get?_add, if_pos rfl]

theorem get?_addNode (h : program.nodes.get? id = some node) (other : Node) :
    (program.addNode other).nodes.get? id = some node := by
  rw [addNode, NodeStore.get?_add, if_neg (Nat.ne_of_lt (NodeStore.lt_size_of_get? h)), h]

/-! ## Tables after a declaration, a body or an initializer was added -/

section Tables

variable (program : Program)

theorem addDeclaration_eq (declaration : Declaration) : ∃ bodyOwner rootModule,
    program.addDeclaration declaration = { program with
      declarations := program.declarations.push declaration
      methods := program.methods.modify declaration.method fun method =>
        { method with declarations := method.declarations ++ [program.declarations.size] }
      bodyOwner, rootModule } := by
  unfold addDeclaration
  dsimp only
  split
  · exact ⟨_, _, rfl⟩
  · exact ⟨_, _, rfl⟩

theorem attachBody_eq (id : DeclId) (body : NodeId) : ∃ bodyOwner rootModule,
    program.attachBody id body = { program with
      declarations := program.declarations.modify id fun declaration =>
        { declaration with body := some body }
      bodyOwner, rootModule } := by
  unfold attachBody
  split
  · rename_i hnone
    rw [modify_of_getElem?_eq_none hnone]
    exact ⟨_, _, rfl⟩
  · dsimp only
    split
    · exact ⟨_, _, rfl⟩
    · exact ⟨_, _, rfl⟩

theorem addInitializer_eq (id : TypeId) (root : NodeId) : ∃ rootModule,
    program.addInitializer id root = { program with
      types := program.types.modify id fun decl =>
        { decl with initializers := decl.initializers ++ [root] }
      rootModule } := by
  unfold addInitializer
  split
  · rename_i hnone
    rw [modify_of_getElem?_eq_none hnone]
    exact ⟨_, rfl⟩
  · exact ⟨_, rfl⟩

variable (row : Declaration) (place : Nat) (root : NodeId)

@[simp] theorem types_addDeclaration : (program.addDeclaration row).types = program.types := by
  obtain ⟨bodyOwner, rootModule, hprogram⟩ := program.addDeclaration_eq row
  rw [hprogram]

theorem heads_addDeclaration : (program.addDeclaration row).methods.map Method.head =
    program.methods.map Method.head := by
  obtain ⟨bodyOwner, rootModule, hprogram⟩ := program.addDeclaration_eq row
  rw [hprogram]
  dsimp only
  apply map_modify_of_eq
  intro method
  rfl

@[simp] theorem declarations_addDeclaration :
    (program.addDeclaration row).declarations = program.declarations.push row := by
  obtain ⟨bodyOwner, rootModule, hprogram⟩ := program.addDeclaration_eq row
  rw [hprogram]

@[simp] theorem nodes_addDeclaration : (program.addDeclaration row).nodes = program.nodes := by
  obtain ⟨bodyOwner, rootModule, hprogram⟩ := program.addDeclaration_eq row
  rw [hprogram]

@[simp] theorem types_attachBody : (program.attachBody place root).types = program.types := by
  obtain ⟨bodyOwner, rootModule, hprogram⟩ := program.attachBody_eq place root
  rw [hprogram]

@[simp] theorem methods_attachBody : (program.attachBody place root).methods = program.methods := by
  obtain ⟨bodyOwner, rootModule, hprogram⟩ := program.attachBody_eq place root
  rw [hprogram]

@[simp] theorem nodes_attachBody : (program.attachBody place root).nodes = program.nodes := by
  obtain ⟨bodyOwner, rootModule, hprogram⟩ := program.attachBody_eq place root
  rw [hprogram]

@[simp] theorem types_addInitializer : (program.addInitializer place root).types =
    program.types.modify place fun decl =>
      { decl with initializers := decl.initializers ++ [root] } := by
  obtain ⟨rootModule, hprogram⟩ := program.addInitializer_eq place root
  rw [hprogram]

@[simp] theorem methods_addInitializer :
    (program.addInitializer place root).methods = program.methods := by
  obtain ⟨rootModule, hprogram⟩ := program.addInitializer_eq place root
  rw [hprogram]

@[simp] theorem declarations_addInitializer :
    (program.addInitializer place root).declarations = program.declarations := by
  obtain ⟨rootModule, hprogram⟩ := program.addInitializer_eq place root
  rw [hprogram]

@[simp] theorem nodes_addInitializer :
    (program.addInitializer place root).nodes = program.nodes := by
  obtain ⟨rootModule, hprogram⟩ := program.addInitializer_eq place root
  rw [hprogram]

end Tables

/-! ## Rows that keep their places -/

/-- What stands in the tables stands at the same places in a later program, apart from lists,
supertypes and bodies. -/
structure KeepsRows (program later : Program) : Prop where
  modules : ∀ (id : ModuleId) name, program.modules[id]? = some name →
    later.modules[id]? = some name
  types : ∀ (id : TypeId) type, program.types[id]? = some type →
    ∃ type', later.types[id]? = some type' ∧ type'.name = type.name ∧
      type'.declaredIn = type.declaredIn ∧ type'.kind = type.kind
  methods : ∀ (id : MethodId) method, program.methods[id]? = some method →
    ∃ method', later.methods[id]? = some method' ∧ method'.head = method.head
  declarations : ∀ (id : DeclId) row, program.declarations[id]? = some row →
    ∃ row', later.declarations[id]? = some row' ∧ row'.method = row.method ∧
      row'.declaredIn = row.declaredIn
  nodes : ∀ id node, program.nodes.get? id = some node → later.nodes.get? id = some node

namespace KeepsRows

theorem refl (program : Program) : program.KeepsRows program where
  modules _ _ h := h
  types _ type h := ⟨type, h, rfl, rfl, rfl⟩
  methods _ method h := ⟨method, h, rfl⟩
  declarations _ row h := ⟨row, h, rfl, rfl⟩
  nodes _ _ h := h

theorem trans (h : program.KeepsRows later) (h' : later.KeepsRows third) :
    program.KeepsRows third where
  modules id name hname := h'.modules id name (h.modules id name hname)
  types id type htype := by
    obtain ⟨type', htype', hname, hmodule, hkind⟩ := h.types id type htype
    obtain ⟨type'', htype'', hname', hmodule', hkind'⟩ := h'.types id type' htype'
    exact ⟨type'', htype'', hname'.trans hname, hmodule'.trans hmodule, hkind'.trans hkind⟩
  methods id method hmethod := by
    obtain ⟨method', hmethod', hhead⟩ := h.methods id method hmethod
    obtain ⟨method'', hmethod'', hhead'⟩ := h'.methods id method' hmethod'
    exact ⟨method'', hmethod'', hhead'.trans hhead⟩
  declarations id row hrow := by
    obtain ⟨row', hrow', hmethod, hmodule⟩ := h.declarations id row hrow
    obtain ⟨row'', hrow'', hmethod', hmodule'⟩ := h'.declarations id row' hrow'
    exact ⟨row'', hrow'', hmethod'.trans hmethod, hmodule'.trans hmodule⟩
  nodes id node hnode := h'.nodes id node (h.nodes id node hnode)

/-! A table never gets shorter. -/

theorem modules_le (h : program.KeepsRows later) : program.modules.size ≤ later.modules.size := by
  refine Nat.le_of_not_lt fun hlt => ?_
  have hmodule := h.modules _ _ (Array.getElem?_eq_getElem hlt)
  exact Nat.lt_irrefl _ (Array.getElem?_eq_some_iff.mp hmodule).1

theorem types_le (h : program.KeepsRows later) : program.types.size ≤ later.types.size := by
  refine Nat.le_of_not_lt fun hlt => ?_
  obtain ⟨type, htype, -⟩ := h.types _ _ (Array.getElem?_eq_getElem hlt)
  exact Nat.lt_irrefl _ (Array.getElem?_eq_some_iff.mp htype).1

theorem methods_le (h : program.KeepsRows later) : program.methods.size ≤ later.methods.size := by
  refine Nat.le_of_not_lt fun hlt => ?_
  obtain ⟨method, hmethod, -⟩ := h.methods _ _ (Array.getElem?_eq_getElem hlt)
  exact Nat.lt_irrefl _ (Array.getElem?_eq_some_iff.mp hmethod).1

theorem nodes_le (h : program.KeepsRows later) : program.nodes.size ≤ later.nodes.size := by
  refine Nat.le_of_not_lt fun hlt => ?_
  obtain ⟨node, hnode⟩ := NodeStore.exists_get? hlt
  exact Nat.lt_irrefl _ (NodeStore.lt_size_of_get? (h.nodes _ node hnode))

end KeepsRows

section KeepsRows

variable (program : Program)

theorem keepsRows_addNode (node : Node) : program.KeepsRows (program.addNode node) :=
  { KeepsRows.refl program with nodes := fun _ _ h => get?_addNode h node }

/-- A change of types that keeps names, modules and kinds. -/
theorem keepsRows_modifyType (change : TypeDecl → TypeDecl)
    (hchange : ∀ type, (change type).name = type.name ∧
      (change type).declaredIn = type.declaredIn ∧ (change type).kind = type.kind)
    (place : TypeId) :
    program.KeepsRows { program with types := program.types.modify place change } :=
  { KeepsRows.refl program with
    types := fun id type h => by
      obtain ⟨type', htype', rfl | rfl⟩ := exists_getElem?_modify h place change
      · exact ⟨_, htype', rfl, rfl, rfl⟩
      · exact ⟨_, htype', hchange type⟩ }

theorem keepsRows_addMethod (method : Method) : program.KeepsRows (program.addMethod method) :=
  { program.keepsRows_modifyType
      (fun type => { type with members := type.members ++ [program.methods.size] })
      (fun _ => ⟨rfl, rfl, rfl⟩) method.owner with
    methods := fun _ row h => ⟨row, getElem?_push_of_some h method, rfl⟩ }

theorem keepsRows_addDeclaration (declaration : Declaration) :
    program.KeepsRows (program.addDeclaration declaration) := by
  obtain ⟨bodyOwner, rootModule, hprogram⟩ := program.addDeclaration_eq declaration
  rw [hprogram]
  refine { KeepsRows.refl program with methods := ?_, declarations := ?_ }
  · intro id method hmethod
    obtain ⟨method', hmethod', rfl | rfl⟩ := exists_getElem?_modify hmethod declaration.method
      fun method => { method with
        declarations := method.declarations ++ [program.declarations.size] }
    · exact ⟨_, hmethod', rfl⟩
    · exact ⟨_, hmethod', rfl⟩
  · exact fun id row hrow => ⟨row, getElem?_push_of_some hrow declaration, rfl, rfl⟩

theorem keepsRows_attachBody (place : DeclId) (body : NodeId) :
    program.KeepsRows (program.attachBody place body) := by
  obtain ⟨bodyOwner, rootModule, hprogram⟩ := program.attachBody_eq place body
  rw [hprogram]
  refine { KeepsRows.refl program with declarations := ?_ }
  intro id row hrow
  obtain ⟨row', hrow', rfl | rfl⟩ := exists_getElem?_modify hrow place
    fun row => { row with body := some body }
  · exact ⟨_, hrow', rfl, rfl⟩
  · exact ⟨_, hrow', rfl, rfl⟩

theorem keepsRows_addInitializer (type : TypeId) (root : NodeId) :
    program.KeepsRows (program.addInitializer type root) := by
  obtain ⟨rootModule, hprogram⟩ := program.addInitializer_eq type root
  have htypes := program.keepsRows_modifyType
    (fun decl => { decl with initializers := decl.initializers ++ [root] })
    (fun _ => ⟨rfl, rfl, rfl⟩) type
  rw [hprogram]
  exact ⟨htypes.modules, htypes.types, htypes.methods, htypes.declarations, htypes.nodes⟩

end KeepsRows

end Program

namespace Builder

open Program

/-! ## Steps -/

/-- The types that a call refers to. -/
def Call.namedTypes : Call → List TypeId
  | setBaseClass child base => [child, base]
  | listInterface type interface => [type, interface]
  | addMethod owner _ => [owner]
  | addField type _ _ => [type]
  | _ => []

/-- The method that a call adds a body for. -/
def Call.bodyOf? : Call → Option MethodId
  | setBody method _ => some method
  | addPart method _ => some method
  | _ => none

/-- One change that a call makes to a program, while types go into the module `current`. -/
inductive Step (current : ModuleId) (call : Call) (program : Program) : Program → Prop
  | addModule (name : String) : Step current call program (program.addModule name)
  | addType (kind : TypeKind) (name : String) :
      Step current call program (program.addType kind name current)
  /-- A type gets a base class or one more interface. -/
  | inherit (place : TypeId) {change : TypeDecl → TypeDecl}
      (hchange : ∀ type, ∃ baseClass interfaces,
        change type = { type with baseClass, interfaces }) :
      Step current call program { program with types := program.types.modify place change }
  | addMethod {method : Method} (hnew : method.declarations = [])
      (howner : method.owner ∈ call.namedTypes)
      (hkind : method.kind = kindOf ⟨program, current⟩ method.owner method.modifiers) :
      Step current call program (program.addMethod method)
  /-- A known method is declared without a body. -/
  | declare {row : Declaration} (hbody : row.body = none)
      (hmethod : row.method < program.methods.size)
      (hmodule : row.declaredIn = moduleOfMethod ⟨program, current⟩ row.method) :
      Step current call program (program.addDeclaration row)
  | addNode (node : Node) : Step current call program (program.addNode node)
  /-- A method is declared together with a body for it. -/
  | addPart {row : Declaration} (statements : List Slot)
      (hbody : row.body = some program.nodes.size) (hmethod : call.bodyOf? = some row.method)
      (hmodule : row.declaredIn = moduleOfMethod ⟨program, current⟩ row.method) :
      Step current call program ((program.addNode (.block statements)).addDeclaration row)
  | attachBody (place : DeclId) (statements : List Slot) :
      Step current call program
        ((program.addNode (.block statements)).attachBody place program.nodes.size)
  | addInitializer (type : TypeId) (name : String) (init : Slot) :
      Step current call program
        ((program.addNode (.initializer name init)).addInitializer type program.nodes.size)

variable {current : ModuleId} {call : Call} {program later : Program} {builder : Builder}

theorem Step.keepsRows (h : Step current call program later) : program.KeepsRows later := by
  cases h with
  | addModule name =>
    exact { KeepsRows.refl program with modules := fun _ _ h => getElem?_push_of_some h name }
  | addType kind name =>
    exact { KeepsRows.refl program with
      types := fun _ type h => ⟨type, getElem?_push_of_some h _, rfl, rfl, rfl⟩ }
  | inherit place hchange =>
    refine program.keepsRows_modifyType _ (fun type => ?_) place
    obtain ⟨baseClass, interfaces, heq⟩ := hchange type
    rw [heq]
    exact ⟨rfl, rfl, rfl⟩
  | addMethod => exact program.keepsRows_addMethod _
  | declare => exact program.keepsRows_addDeclaration _
  | addNode node => exact program.keepsRows_addNode node
  | addPart => exact (program.keepsRows_addNode _).trans (keepsRows_addDeclaration _ _)
  | attachBody => exact (program.keepsRows_addNode _).trans (keepsRows_attachBody _ _ _)
  | addInitializer => exact (program.keepsRows_addNode _).trans (keepsRows_addInitializer _ _ _)

/-- A method is added and, unless it is external, declared at once. -/
theorem addMethod_steps (builder : Builder) (owner : TypeId) (spec : MethodSpec) :
    Relation.ReflTransGen (Step builder.current (.addMethod owner spec)) builder.program
      (builder.addMethod owner spec).program := by
  unfold addMethod
  extract_lets id program
  have hfirst : Step builder.current (.addMethod owner spec) builder.program program :=
    .addMethod rfl (List.mem_singleton_self owner) rfl
  split
  · exact .single hfirst
  · dsimp only
    refine .head hfirst (.single (.declare rfl ?_ ?_))
    · simp [program, id, Program.addMethod]
    · -- The owner has one more member and lies where it lay.
      have hrow : program.methods[id]? = some _ := Array.getElem?_push_size
      rw [moduleOfMethod, hrow]
      dsimp only
      rw [moduleOfType, moduleOfType]
      dsimp only [program, Program.addMethod]
      rw [Array.getElem?_modify, if_pos rfl]
      cases builder.program.types[owner]? <;> rfl

theorem program_addPart (builder : Builder) (method : MethodId) (statements : List Slot) :
    (builder.addPart method statements).2.program =
      (builder.program.addNode (.block statements)).addDeclaration
        { method, declaredIn := builder.moduleOfMethod method
          body := some builder.program.nodes.size } :=
  rfl

theorem addPart_step (builder : Builder) {method : MethodId} (statements : List Slot)
    (h : call.bodyOf? = some method) : Step builder.current call builder.program
      (builder.addPart method statements).2.program := by
  rw [program_addPart]
  exact .addPart statements rfl h rfl

theorem perform_steps (builder : Builder) (call : Call) :
    Relation.ReflTransGen (Step builder.current call) builder.program
      (builder.perform call).2.program := by
  cases call with
  | startModule name => exact .single (.addModule name)
  | addType kind name => exact .single (.addType kind name)
  | setBaseClass child base => exact .single (.inherit child fun _ => ⟨_, _, rfl⟩)
  | listInterface type interface => exact .single (.inherit type fun _ => ⟨_, _, rfl⟩)
  | addMethod owner spec => exact builder.addMethod_steps owner spec
  | setBody method statements =>
    simp only [perform, setBody]
    split
    · exact .single (.attachBody _ statements)
    · exact .single (builder.addPart_step statements rfl)
  | addPart method statements => exact .single (builder.addPart_step statements rfl)
  | addField type name init => exact .single (.addInitializer type name init)
  | lambda isAsync params statements => exact .head (.addNode _) (.single (.addNode _))
  | localFunction name isAsync returnType statements =>
    exact .head (.addNode _) (.single (.addNode _))
  | _ => exact .single (.addNode _)

/-- What the steps of a call keep, the call keeps. In the steps, the rows that were there before the
call are where they were. -/
theorem perform_invariant (Inv : Program → Prop)
    (hstep : ∀ program later, builder.program.KeepsRows program →
      Step builder.current call program later → Inv program → Inv later)
    (h : Inv builder.program) : Inv (builder.perform call).2.program := by
  have hsteps := builder.perform_steps call
  generalize (builder.perform call).2.program = after at hsteps
  suffices hboth : builder.program.KeepsRows after ∧ Inv after from hboth.2
  induction hsteps with
  | refl => exact ⟨.refl _, h⟩
  | tail _ step ih => exact ⟨ih.1.trans step.keepsRows, hstep _ _ ih.1 step ih.2⟩

/-- What every step keeps, a run keeps. -/
theorem run_invariant (Inv : Program → Prop)
    (hstep : ∀ current call program later, Step current call program later →
      Inv program → Inv later)
    (h : Inv builder.program) (calls : List Call) : Inv (builder.run calls).program := by
  induction calls generalizing builder with
  | nil => exact h
  | cons call calls ih =>
    exact ih (perform_invariant Inv (fun _ _ _ => hstep _ _ _ _) h)

theorem keepsRows_perform (builder : Builder) (call : Call) :
    builder.program.KeepsRows (builder.perform call).2.program :=
  perform_invariant builder.program.KeepsRows
    (fun _ _ _ step hkeeps => hkeeps.trans step.keepsRows) (.refl _)

theorem keepsRows_run (builder : Builder) (calls : List Call) :
    builder.program.KeepsRows (builder.run calls).program :=
  run_invariant builder.program.KeepsRows
    (fun _ _ _ _ step hkeeps => hkeeps.trans step.keepsRows) (.refl _) calls

end Builder

end AsyncLift
