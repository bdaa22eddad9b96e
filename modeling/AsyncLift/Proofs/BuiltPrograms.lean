import AsyncLift.Proofs.BuiltTables
import AsyncLift.Proofs.PlantedTrees

/-!
# Programs that are built in order

A builder takes any ids. It is used in order (`Builder.Ordered`) if every type and method that a
call refers to was returned by a call before it, and so was every node that it makes a child, which
moreover was not used before as a child, a body or an initializer.

Then the program is in order at every moment (`Builder.run_consistent`). What a call has made stands
under the id that it returned, with what the call said (`Call.StandsAt`). Lists and registers say
what the tables say, and the nodes are a forest whose registered roots have no parent
(`Program.Consistent`).

The nodes that calls may still make children of are the tops that `Program.OpenTrees` keeps account
of: nodes without a parent that are not registered as a root.
-/

namespace AsyncLift

namespace Program

variable {program later : Program} {tops : NodeId → Prop} {root : NodeId} {module_ : ModuleId}

/-! ## Trees that wait for a parent -/

/-- The nodes are a forest. What is registered as a root has no parent, and neither have the tops,
which are not registered. -/
structure OpenTrees (program : Program) (tops : NodeId → Prop) : Prop where
  forest : program.nodes.Forest
  roots : ∀ root module_, program.rootModule.find? root = some module_ →
    root < program.nodes.size ∧ program.nodes.parent? root = none
  tops : ∀ top, tops top → top < program.nodes.size ∧ program.nodes.parent? top = none ∧
    program.rootModule.find? top = none

namespace OpenTrees

theorem mono (h : program.OpenTrees tops) {fewer : NodeId → Prop}
    (hfewer : ∀ top, fewer top → tops top) : program.OpenTrees fewer :=
  ⟨h.forest, h.roots, fun top htop => h.tops top (hfewer top htop)⟩

/-- Steps that leave the nodes and the register alone. -/
theorem of_eq (h : program.OpenTrees tops) (hnodes : later.nodes = program.nodes)
    (hroots : later.rootModule = program.rootModule) : later.OpenTrees tops := by
  constructor
  · rw [hnodes]
    exact h.forest
  · rw [hnodes, hroots]
    exact h.roots
  · rw [hnodes, hroots]
    exact h.tops

/-- A node takes tops for its children and is a top itself. -/
theorem addNode (h : program.OpenTrees tops) (node : Node) (hnodup : node.children.Nodup)
    (hchildren : ∀ child ∈ node.children, tops child) :
    (program.addNode node).OpenTrees fun id =>
      id = program.nodes.size ∨ tops id ∧ id ∉ node.children := by
  have hparent : ∀ id, id ∉ node.children →
      (program.addNode node).nodes.parent? id = program.nodes.parent? id := by
    intro id hid
    rw [Program.addNode, NodeStore.parent?_add, if_neg fun hchild => hid hchild.1]
  have hsize := program.size_lt_addNode node
  refine ⟨?_, fun root module_ hroot => ?_, fun top htop => ?_⟩
  · refine h.forest.add hnodup fun child hchild => ?_
    obtain ⟨hknown, hbare, -⟩ := h.tops child (hchildren child hchild)
    exact ⟨hknown, hbare⟩
  · obtain ⟨hknown, hbare⟩ := h.roots root module_ hroot
    have hchild : root ∉ node.children := by
      intro hchild
      obtain ⟨-, -, hnone⟩ := h.tops root (hchildren root hchild)
      cases hnone.symm.trans hroot
    exact ⟨hknown.trans hsize, (hparent root hchild).trans hbare⟩
  · rcases htop with rfl | ⟨htop, hchild⟩
    · refine ⟨hsize, program.nodes.parent?_add_size node, ?_⟩
      refine Option.eq_none_iff_forall_ne_some.mpr fun module_ hroot => ?_
      exact Nat.lt_irrefl _ (h.roots _ module_ hroot).1
    · obtain ⟨hknown, hbare, hnone⟩ := h.tops top htop
      exact ⟨hknown.trans hsize, (hparent top hchild).trans hbare, hnone⟩

/-- A top is registered as a root and is a top no more. -/
theorem register (h : program.OpenTrees tops) (hroot : tops root)
    (hnodes : later.nodes = program.nodes)
    (hroots : ∀ other module_, later.rootModule.find? other = some module_ →
      other = root ∨ program.rootModule.find? other = some module_) :
    later.OpenTrees fun id => tops id ∧ id ≠ root := by
  refine ⟨hnodes ▸ h.forest, fun other module_ hother => ?_, fun top ⟨htop, hne⟩ => ?_⟩
  · rw [hnodes]
    rcases hroots other module_ hother with rfl | hold
    · obtain ⟨hknown, hbare, -⟩ := h.tops other hroot
      exact ⟨hknown, hbare⟩
    · exact h.roots other module_ hold
  · rw [hnodes]
    obtain ⟨hknown, hbare, hnone⟩ := h.tops top htop
    refine ⟨hknown, hbare, Option.eq_none_iff_forall_ne_some.mpr fun module_ hother => ?_⟩
    rcases hroots top module_ hother with heq | hold
    · exact hne heq
    · cases hnone.symm.trans hold

/-- A node that is returned can be made a child later. -/
theorem addReturned (h : program.OpenTrees tops) (node : Node) (hnodup : node.children.Nodup)
    (hchildren : ∀ child ∈ node.children, tops child) :
    (program.addNode node).OpenTrees fun id =>
      (Builder.Made.ofNode program.nodes.size = .ofNode id ∨ tops id) ∧ id ∉ node.children := by
  refine (h.addNode node hnodup hchildren).mono fun id hid => ?_
  obtain ⟨hmade | htop, hchild⟩ := hid
  · cases hmade
    exact .inl rfl
  · exact .inr ⟨htop, hchild⟩

/-- A node that is registered at once is never a top. -/
theorem addRoot (h : program.OpenTrees tops) (node : Node) (hnodup : node.children.Nodup)
    (hchildren : ∀ child ∈ node.children, tops child)
    (hnodes : later.nodes = (program.addNode node).nodes)
    (hroots : ∀ other module_, later.rootModule.find? other = some module_ →
      other = program.nodes.size ∨
        (program.addNode node).rootModule.find? other = some module_) :
    later.OpenTrees fun id => tops id ∧ id ∉ node.children := by
  refine ((h.addNode node hnodup hchildren).register (.inl rfl) hnodes hroots).mono fun id hid => ?_
  refine ⟨.inr hid, ?_⟩
  rintro rfl
  exact Nat.lt_irrefl _ (h.tops _ hid.1).1

/-- A block and a function that has it for its body. -/
theorem addFunction (h : program.OpenTrees tops) (node : Node) (hnodup : node.children.Nodup)
    (hchildren : ∀ child ∈ node.children, tops child) {function : Node}
    (hfunction : function.children = [program.nodes.size]) :
    ((program.addNode node).addNode function).OpenTrees fun id =>
      (Builder.Made.ofNode (program.addNode node).nodes.size = .ofNode id ∨ tops id) ∧
        id ∉ node.children := by
  have hblock := h.addNode node hnodup hchildren
  have houter := hblock.addReturned function (by simp [hfunction]) fun child hchild => by
    rw [hfunction, List.mem_singleton] at hchild
    exact .inl hchild
  refine houter.mono fun id hid => ?_
  obtain ⟨hmade | htop, hchild⟩ := hid
  · cases hmade
    refine ⟨.inl rfl, ?_⟩
    rw [hfunction, List.mem_singleton]
    exact Nat.ne_of_gt (program.size_lt_addNode node)
  · refine ⟨.inr (.inr ⟨htop, hchild⟩), ?_⟩
    rw [hfunction, List.mem_singleton]
    rintro rfl
    exact Nat.lt_irrefl _ (h.tops _ htop).1

end OpenTrees

/-! ## What is registered -/

theorem find?_addDeclaration {declaration : Declaration} (hbody : declaration.body = some root)
    {other : NodeId}
    (h : (program.addDeclaration declaration).rootModule.find? other = some module_) :
    other = root ∨ program.rootModule.find? other = some module_ := by
  simp only [addDeclaration, hbody, registerBody, Register.find?_insert] at h
  split at h
  · exact .inl ‹_›
  · exact .inr h

theorem find?_attachBody {place : DeclId} {other : NodeId}
    (h : (program.attachBody place root).rootModule.find? other = some module_) :
    other = root ∨ program.rootModule.find? other = some module_ := by
  unfold attachBody at h
  split at h
  · exact .inr h
  · simp only [registerBody, Register.find?_insert] at h
    split at h
    · exact .inl ‹_›
    · split at h
      · rw [Register.find?_erase] at h
        split at h
        · cases h
        · exact .inr h
      · exact .inr h

theorem find?_addInitializer {place : TypeId} {other : NodeId}
    (h : (program.addInitializer place root).rootModule.find? other = some module_) :
    other = root ∨ program.rootModule.find? other = some module_ := by
  unfold addInitializer at h
  split at h
  · exact .inr h
  · simp only [Register.find?_insert] at h
    split at h
    · exact .inl ‹_›
    · exact .inr h

/-! ## Consistent programs -/

/-- What lists and registers repeat is what the tables say, and the nodes are a forest. -/
structure Consistent (program : Program) : Prop where
  members : ∀ (id : TypeId) type, program.types[id]? = some type →
    type.members = placesWhere program.methods (·.owner == id)
  declarations : ∀ (id : MethodId) method, program.methods[id]? = some method →
    method.declarations = placesWhere program.declarations (·.method == id)
  kinds : ∀ method ∈ program.methods, ∃ type, program.types[method.owner]? = some type ∧
    (method.kind = .interfaceMember ↔ type.kind = .ofInterface) ∧
    (type.kind ≠ .ofInterface → (method.kind = .abstract ↔ method.modifiers.isAbstract = true))
  modules : ∀ row ∈ program.declarations, program.LiesIn row.method row.declaredIn
  bodyOwners : ∀ body (id : DeclId), program.bodyOwner.find? body = some id ↔
    ∃ row, program.declarations[id]? = some row ∧ row.body = some body
  rootModules : ∀ root module_, program.rootModule.find? root = some module_ ↔
    (∃ row ∈ program.declarations, row.body = some root ∧ program.LiesIn row.method module_) ∨
      ∃ type ∈ program.types, root ∈ type.initializers ∧ type.declaredIn = module_
  wellFormed : program.WellFormed

theorem LiesIn.unique {id : MethodId} {other : ModuleId} (h : program.LiesIn id module_)
    (h' : program.LiesIn id other) : module_ = other := by
  obtain ⟨method, type, hmethod, htype, rfl⟩ := h
  obtain ⟨method', type', hmethod', htype', rfl⟩ := h'
  cases hmethod.symm.trans hmethod'
  cases htype.symm.trans htype'
  rfl

theorem KindGiven.cases {method : Method} (h : program.KindGiven method) :
    ∃ type, program.types[method.owner]? = some type ∧
      (method.kind = .interfaceMember ↔ type.kind = .ofInterface) ∧
      (type.kind ≠ .ofInterface →
        (method.kind = .abstract ↔ method.modifiers.isAbstract = true)) := by
  obtain ⟨type, htype, hkind⟩ := h
  refine ⟨type, htype, ?_, fun hclass => ?_⟩
  · rw [hkind, TypeKind.methodKind_eq_interfaceMember]
  · rw [hkind]
    cases hof : type.kind with
    | ofInterface => exact absurd hof hclass
    | ofClass =>
      cases hmodifier : method.modifiers.isAbstract <;> simp [TypeKind.methodKind, hmodifier]

theorem OpenTrees.wellFormed (h : program.OpenTrees tops) (hroots : program.RootsRegistered) :
    program.WellFormed where
  forest := h.forest
  bodies row hrow body hbody := by
    obtain ⟨id, hid⟩ := Array.mem_iff_getElem?.mp hrow
    exact (h.roots body _ ((hroots.modules body _).mpr (.inl ⟨id, row, hid, hbody, rfl⟩))).2
  initializers type htype root hroot :=
    (h.roots root _ ((hroots.modules root _).mpr (.inr ⟨type, htype, hroot, rfl⟩))).2

theorem consistent_of (htables : program.TablesAgree) (htrees : program.OpenTrees tops)
    (hroots : program.RootsRegistered) : program.Consistent where
  members id type htype := by
    rw [← htables.members, membersOf, htype]
  declarations id method hmethod := by
    rw [← htables.declarations, Conversion.declarationsOf, hmethod]
    rfl
  kinds method hmethod := (htables.kinds method hmethod).cases
  modules := htables.modules
  bodyOwners body id := by
    rw [hroots.owners]
    constructor
    · rintro ⟨module_, row, hrow, hbody, -⟩
      exact ⟨row, hrow, hbody⟩
    · rintro ⟨row, hrow, hbody⟩
      exact ⟨row.declaredIn, row, hrow, hbody, rfl⟩
  rootModules root module_ := by
    rw [hroots.modules]
    refine or_congr_left ⟨?_, ?_⟩
    · rintro ⟨id, row, hid, hbody, rfl⟩
      have hrow := Array.mem_of_getElem? hid
      exact ⟨row, hrow, hbody, htables.modules row hrow⟩
    · rintro ⟨row, hrow, hbody, hlies⟩
      obtain ⟨id, hid⟩ := Array.mem_iff_getElem?.mp hrow
      exact ⟨id, row, hid, hbody, (htables.modules row hrow).unique hlies⟩
  wellFormed := htrees.wellFormed hroots

end Program

namespace Builder

open Program

variable {builder : Builder} {tops : NodeId → Prop} {call : Call}

/-! ## Calls in order -/

/-- The methods that a call refers to. -/
def Call.namedMethods : Call → List MethodId
  | .setBody method _ => [method]
  | .addPart method _ => [method]
  | .call _ target _ => [target]
  | .methodGroup target => [target]
  | _ => []

theorem Call.mem_namedMethods {id : MethodId} (h : id ∈ call.bodyOf?) : id ∈ call.namedMethods := by
  cases call <;> first
    | cases h; exact List.mem_singleton_self _
    | cases h

/-- The nodes that a call uses up: those that it makes children of others, and what it makes itself
if this is a body or an initializer. -/
def Call.uses (call : Call) (made : Made) : List NodeId :=
  match call, made with
  | .setBody .., .ofNode body => body :: call.children
  | .addField .., .ofNode root => root :: call.children
  | _, _ => call.children

/-- Calls refer only to types and methods that were returned before. They make children only of
nodes that were returned before and are not used up, and of none of them twice. -/
def Ordered (builder : Builder) (returned : List Made) (used : List NodeId) : List Call → Prop
  | [] => True
  | call :: calls =>
    (∀ type ∈ call.namedTypes, .ofType type ∈ returned) ∧
    (∀ method ∈ call.namedMethods, .ofMethod method ∈ returned) ∧
    call.children.Nodup ∧ (∀ child ∈ call.children, .ofNode child ∈ returned ∧ child ∉ used) ∧
    (builder.perform call).2.Ordered ((builder.perform call).1 :: returned)
      (call.uses (builder.perform call).1 ++ used) calls

instance decidableOrdered (builder : Builder) (returned : List Made) (used : List NodeId) :
    (calls : List Call) → Decidable (builder.Ordered returned used calls)
  | [] => .isTrue trivial
  | call :: calls =>
    have := decidableOrdered (builder.perform call).2 ((builder.perform call).1 :: returned)
      (call.uses (builder.perform call).1 ++ used) calls
    inferInstanceAs (Decidable (_ ∧ _ ∧ _ ∧ _ ∧ _))

section Bodies

variable {statements : List Slot} (h : builder.program.OpenTrees tops) (method : MethodId)
  (hnodup : (Node.block statements).children.Nodup)
  (hchildren : ∀ child ∈ (Node.block statements).children, tops child)
include h hnodup hchildren

theorem openTrees_addPart : (builder.addPart method statements).2.program.OpenTrees fun id =>
    tops id ∧ id ∉ (Node.block statements).children := by
  rw [program_addPart]
  exact h.addRoot _ hnodup hchildren (nodes_addDeclaration _ _)
    fun _ _ hother => find?_addDeclaration rfl hother

theorem openTrees_setBody : (builder.setBody method statements).2.program.OpenTrees fun id =>
    tops id ∧ id ∉ (Node.block statements).children := by
  unfold setBody
  split
  · exact h.addRoot _ hnodup hchildren (nodes_attachBody _ _ _)
      fun _ _ hother => find?_attachBody hother
  · exact openTrees_addPart h method hnodup hchildren

end Bodies

/-- A call that makes children of tops leaves the other tops and adds what it returns, unless this
is a root. -/
theorem openTrees_perform (h : builder.program.OpenTrees tops) (hnodup : call.children.Nodup)
    (hchildren : ∀ child ∈ call.children, tops child) :
    (builder.perform call).2.program.OpenTrees fun id =>
      ((builder.perform call).1 = .ofNode id ∨ tops id) ∧
        id ∉ call.uses (builder.perform call).1 := by
  -- Where no node is made, nodes and register are as before.
  have hkept : ∀ {later : Program} {made : Made}, later.nodes = builder.program.nodes →
      later.rootModule = builder.program.rootModule → (∀ id, made ≠ .ofNode id) →
      later.OpenTrees fun id => (made = .ofNode id ∨ tops id) ∧ id ∉ call.uses made := by
    intro later made hnodes hroots hmade
    refine (h.of_eq hnodes hroots).mono fun id hid => ?_
    exact hid.1.resolve_left (hmade id)
  -- Where the node is registered at once, it is not at hand although it is returned.
  have hspent : ∀ {root id},
      (Made.ofNode root = .ofNode id ∨ tops id) ∧ id ∉ root :: call.children →
        tops id ∧ id ∉ call.children := by
    rintro root id ⟨hmade | htop, hused⟩
    · cases hmade
      exact absurd (List.mem_cons_self ..) hused
    · exact ⟨htop, fun hchild => hused (List.mem_cons_of_mem _ hchild)⟩
  cases call with
  | startModule name => exact hkept rfl rfl fun id => by simp [perform]
  | addType kind name => exact hkept rfl rfl fun id => by simp [perform]
  | setBaseClass child base => exact hkept rfl rfl fun id => by simp [perform]
  | listInterface type interface => exact hkept rfl rfl fun id => by simp [perform]
  | addMethod owner spec =>
    refine hkept ?_ ?_ fun id => by simp [perform]
    · simp only [perform, addMethod]
      split <;> rfl
    · simp only [perform, addMethod]
      split <;> rfl
  | setBody method statements =>
    exact (openTrees_setBody h method hnodup hchildren).mono fun _ hid => hspent hid
  | addPart method statements =>
    refine (openTrees_addPart h method hnodup hchildren).mono fun id hid => ?_
    obtain ⟨hmade | htop, hused⟩ := hid
    · cases hmade
    · exact ⟨htop, hused⟩
  | addField type name init =>
    have hroot := h.addRoot (.initializer name init) hnodup hchildren
      (nodes_addInitializer _ type _) fun _ _ hother => find?_addInitializer hother
    exact hroot.mono fun _ hid => hspent hid
  | lambda isAsync params statements =>
    exact h.addFunction (.block statements) hnodup hchildren rfl
  | localFunction name isAsync returnType statements =>
    exact h.addFunction (.block statements) hnodup hchildren rfl
  | _ => exact h.addReturned _ hnodup hchildren

/-! ## What calls have made -/

/-- The node that a call makes, if nothing but the call decides on it. -/
def Call.node? : Call → Option Node
  | .setBody _ statements => some (.block statements)
  | .addField _ field init => some (.initializer field init)
  | .unresolvedCall receiver text args => some (.call receiver text none args)
  | .await operand => some (.await operand)
  | .name text => some (.name text)
  | .literal text => some (.literal text)
  | .exprStatement expr => some (.exprStatement expr)
  | .ret expr => some (.ret expr)
  | .localVar text init => some (.localVar text init)
  | _ => none

/-- What a call has made stands in the program, under the id that the call returned. -/
inductive Call.StandsAt (program : Program) : Call → Made → Prop
  | ofModule {name : String} {id : ModuleId} (hmodule : program.modules[id]? = some name) :
      StandsAt program (.startModule name) (.ofModule id)
  | ofType {kind : TypeKind} {name : String} {id : TypeId} {type : TypeDecl}
      (htype : program.types[id]? = some type) (hname : type.name = name)
      (hkind : type.kind = kind) : StandsAt program (.addType kind name) (.ofType id)
  | ofBaseClass {child base : TypeId} : StandsAt program (.setBaseClass child base) .nothing
  | ofInterface {type interface : TypeId} :
      StandsAt program (.listInterface type interface) .nothing
  | ofMethod {owner : TypeId} {spec : MethodSpec} {id : MethodId} {method : Method}
      (hmethod : program.methods[id]? = some method)
      (hhead : method.head =
        { owner, name := spec.name, params := spec.params, returnType := spec.returnType
          modifiers := spec.modifiers, kind := method.kind, key := spec.key }) :
      StandsAt program (.addMethod owner spec) (.ofMethod id)
  | ofPart {method : MethodId} {statements : List Slot} {id : DeclId} {row : Declaration}
      (hrow : program.declarations[id]? = some row) (hmethod : row.method = method) :
      StandsAt program (.addPart method statements) (.ofDeclaration id)
  | ofNode {call : Call} {id : NodeId} {node : Node} (hmade : call.node? = some node)
      (hnode : program.nodes.get? id = some node) : StandsAt program call (.ofNode id)
  /-- Calls and method groups are written with the name of the method. -/
  | ofCall {receiver : Slot} {target : MethodId} {args : List Slot} {id : NodeId} {method : Method}
      (hmethod : program.methods[target]? = some method)
      (hnode : program.nodes.get? id = some (.call receiver method.name (some target) args)) :
      StandsAt program (.call receiver target args) (.ofNode id)
  | ofMethodGroup {target : MethodId} {id : NodeId} {method : Method}
      (hmethod : program.methods[target]? = some method)
      (hnode : program.nodes.get? id = some (.methodGroup none method.name (some target))) :
      StandsAt program (.methodGroup target) (.ofNode id)
  | ofLambda {isAsync : Bool} {params : List String} {statements : List Slot} {id body : NodeId}
      (hnode : program.nodes.get? id = some (.lambda isAsync params (some body)))
      (hbody : program.nodes.get? body = some (.block statements)) :
      StandsAt program (.lambda isAsync params statements) (.ofNode id)
  | ofLocalFunction {name : String} {isAsync : Bool} {returnType : TypeExpr}
      {statements : List Slot} {id body : NodeId}
      (hnode : program.nodes.get? id = some (.localFunction name isAsync returnType (some body)))
      (hbody : program.nodes.get? body = some (.block statements)) :
      StandsAt program (.localFunction name isAsync returnType statements) (.ofNode id)

/-- What calls return, one after another. -/
def answers (builder : Builder) : List Call → List Made
  | [] => []
  | call :: calls => (builder.perform call).1 :: (builder.perform call).2.answers calls

namespace Call.StandsAt

variable {program later : Program} {made : Made}

/-- Rows that keep their places keep what was made. -/
theorem kept (h : call.StandsAt program made) (hkeeps : program.KeepsRows later) :
    call.StandsAt later made := by
  have hname : ∀ {id : MethodId} {method : Method}, program.methods[id]? = some method →
      ∃ method', later.methods[id]? = some method' ∧ method'.name = method.name := by
    intro id method hmethod
    obtain ⟨method', hmethod', hhead⟩ := hkeeps.methods id method hmethod
    exact ⟨method', hmethod', by rw [Method.eq_of_head hhead]⟩
  cases h with
  | ofModule hmodule => exact .ofModule (hkeeps.modules _ _ hmodule)
  | ofType htype hname hkind =>
    obtain ⟨type', htype', hname', -, hkind'⟩ := hkeeps.types _ _ htype
    exact .ofType htype' (hname'.trans hname) (hkind'.trans hkind)
  | ofBaseClass => exact .ofBaseClass
  | ofInterface => exact .ofInterface
  | ofMethod hmethod hhead =>
    obtain ⟨method', hmethod', hhead'⟩ := hkeeps.methods _ _ hmethod
    refine .ofMethod hmethod' ?_
    rw [hhead', hhead, Method.eq_of_head hhead']
  | ofPart hrow hmethod =>
    obtain ⟨row', hrow', hmethod', -⟩ := hkeeps.declarations _ _ hrow
    exact .ofPart hrow' (hmethod'.trans hmethod)
  | ofNode hmade hnode => exact .ofNode hmade (hkeeps.nodes _ _ hnode)
  | ofCall hmethod hnode =>
    obtain ⟨method', hmethod', heq⟩ := hname hmethod
    exact .ofCall hmethod' (heq ▸ hkeeps.nodes _ _ hnode)
  | ofMethodGroup hmethod hnode =>
    obtain ⟨method', hmethod', heq⟩ := hname hmethod
    exact .ofMethodGroup hmethod' (heq ▸ hkeeps.nodes _ _ hnode)
  | ofLambda hnode hbody =>
    exact .ofLambda (hkeeps.nodes _ _ hnode) (hkeeps.nodes _ _ hbody)
  | ofLocalFunction hnode hbody =>
    exact .ofLocalFunction (hkeeps.nodes _ _ hnode) (hkeeps.nodes _ _ hbody)

theorem type_lt {id : TypeId} (h : call.StandsAt program (.ofType id)) :
    id < program.types.size := by
  cases h with
  | ofType htype => exact (Array.getElem?_eq_some_iff.mp htype).1

theorem method_lt {id : MethodId} (h : call.StandsAt program (.ofMethod id)) :
    id < program.methods.size := by
  cases h with
  | ofMethod hmethod => exact (Array.getElem?_eq_some_iff.mp hmethod).1

end Call.StandsAt

/-- Each call makes what it says, provided that the methods it names are there. -/
theorem standsAt_perform
    (hmethods : ∀ method ∈ call.namedMethods, method < builder.program.methods.size) :
    call.StandsAt (builder.perform call).2.program (builder.perform call).1 := by
  have hname : ∀ {id : MethodId} (hid : id < builder.program.methods.size),
      builder.program.methods[id]? = some builder.program.methods[id] ∧
        builder.methodName id = builder.program.methods[id].name := by
    intro id hid
    have hmethod := Array.getElem?_eq_getElem hid
    exact ⟨hmethod, by rw [methodName, hmethod]⟩
  cases call with
  | startModule name => exact .ofModule Array.getElem?_push_size
  | addType kind name => exact .ofType Array.getElem?_push_size rfl rfl
  | setBaseClass child base => exact .ofBaseClass
  | listInterface type interface => exact .ofInterface
  | addMethod owner spec =>
    exact .ofMethod ((getElem?_addMethod builder owner spec _).trans (if_pos rfl)) rfl
  | setBody method statements =>
    refine .ofNode rfl ?_
    simp only [perform, setBody]
    split
    · exact (congrArg (NodeStore.get? · _) (nodes_attachBody ..)).trans (get?_addNode_size _ _)
    · exact (congrArg (NodeStore.get? · _) (nodes_addDeclaration ..)).trans (get?_addNode_size _ _)
  | addPart method statements =>
    obtain ⟨bodyOwner, rootModule, hprogram⟩ :=
      (builder.program.addNode (.block statements)).addDeclaration_eq
        { method, declaredIn := builder.moduleOfMethod method
          body := some builder.program.nodes.size }
    have hrow : (builder.addPart method statements).2.program.declarations[
        builder.program.declarations.size]? = some
          { method, declaredIn := builder.moduleOfMethod method
            body := some builder.program.nodes.size } := by
      rw [program_addPart, hprogram]
      exact Array.getElem?_push_size
    exact .ofPart hrow rfl
  | addField type name init =>
    refine .ofNode rfl ?_
    exact (congrArg (NodeStore.get? · _) (nodes_addInitializer ..)).trans (get?_addNode_size _ _)
  | call receiver target args =>
    obtain ⟨hmethod, hname⟩ := hname (hmethods target (List.mem_singleton_self target))
    refine .ofCall hmethod ?_
    rw [← hname]
    exact get?_addNode_size _ _
  | methodGroup target =>
    obtain ⟨hmethod, hname⟩ := hname (hmethods target (List.mem_singleton_self target))
    refine .ofMethodGroup hmethod ?_
    rw [← hname]
    exact get?_addNode_size _ _
  | lambda isAsync params statements =>
    exact .ofLambda (get?_addNode_size _ _) (get?_addNode (get?_addNode_size _ _) _)
  | localFunction name isAsync returnType statements =>
    exact .ofLocalFunction (get?_addNode_size _ _) (get?_addNode (get?_addNode_size _ _) _)
  | _ => exact .ofNode rfl (get?_addNode_size _ _)

/-! ## Builders in order -/

/-- What holds of a builder between calls in order: its tables agree, the nodes that were returned
and are not used up are tops, and the types and methods that were returned are there. -/
structure InOrder (builder : Builder) (returned : List Made) (used : List NodeId) : Prop where
  tables : builder.program.TablesAgree
  trees : builder.program.OpenTrees fun id => .ofNode id ∈ returned ∧ id ∉ used
  types : ∀ id, .ofType id ∈ returned → id < builder.program.types.size
  methods : ∀ id, .ofMethod id ∈ returned → id < builder.program.methods.size

namespace InOrder

variable {returned : List Made} {used : List NodeId} {calls : List Call}

/-- One call in order: what it makes stands, and the builder is in order after it. -/
theorem perform (h : builder.InOrder returned used)
    (hordered : builder.Ordered returned used (call :: calls)) :
    call.StandsAt (builder.perform call).2.program (builder.perform call).1 ∧
      (builder.perform call).2.InOrder ((builder.perform call).1 :: returned)
        (call.uses (builder.perform call).1 ++ used) := by
  obtain ⟨htypes, hmethods, hnodup, hchildren, -⟩ := hordered
  have hstands := standsAt_perform fun id hid => h.methods id (hmethods id hid)
  have hkeeps := builder.keepsRows_perform call
  refine ⟨hstands, ?_, ?_, fun id hid => ?_, fun id hid => ?_⟩
  · refine tablesAgree_perform h.tables (fun id hid => h.types id (htypes id hid)) ?_
    exact fun id hid => h.methods id (hmethods id (Call.mem_namedMethods hid))
  · refine (openTrees_perform h.trees hnodup hchildren).mono fun id hid => ?_
    obtain ⟨hreturned, hused⟩ := hid
    rw [List.mem_append, not_or] at hused
    refine ⟨?_, hused.1⟩
    rcases List.mem_cons.mp hreturned with hmade | hold
    · exact .inl hmade.symm
    · exact .inr ⟨hold, hused.2⟩
  · rcases List.mem_cons.mp hid with hmade | hold
    · exact (hmade ▸ hstands).type_lt
    · exact (h.types id hold).trans_le hkeeps.types_le
  · rcases List.mem_cons.mp hid with hmade | hold
    · exact (hmade ▸ hstands).method_lt
    · exact (h.methods id hold).trans_le hkeeps.methods_le

/-- Any number of calls in order. -/
theorem run (h : builder.InOrder returned used) (hordered : builder.Ordered returned used calls) :
    List.Forall₂ (Call.StandsAt (builder.run calls).program) calls (builder.answers calls) ∧
      ∃ returned' used', (builder.run calls).InOrder returned' used' := by
  induction calls generalizing builder returned used with
  | nil => exact ⟨.nil, returned, used, h⟩
  | cons call calls ih =>
    obtain ⟨hstands, hnext⟩ := h.perform hordered
    obtain ⟨hrest, hlast⟩ := ih hnext hordered.2.2.2.2
    refine ⟨.cons (hstands.kept (keepsRows_run _ calls)) hrest, hlast⟩

end InOrder

theorem inOrder_withMain : withMain.InOrder [] [] where
  tables := tablesAgree_withMain
  trees := by
    have hdepth : withMain.program.nodes.DepthAtMost 0 := by
      unfold NodeStore.DepthAtMost
      decide
    refine ⟨NodeStore.forest_of_depth hdepth (by decide) (by decide) (by decide), ?_, ?_⟩
    · intro root module_ hroot
      cases hroot
    · exact fun top htop => absurd htop.1 List.not_mem_nil
  types id hid := absurd hid List.not_mem_nil
  methods id hid := absurd hid List.not_mem_nil

/-- Of a builder that is used in order, all that calls have made stands under the ids that they
returned, and the program is consistent. -/
theorem run_consistent {calls : List Call} (h : withMain.Ordered [] [] calls) :
    List.Forall₂ (Call.StandsAt (withMain.run calls).program) calls (withMain.answers calls) ∧
      (withMain.run calls).program.Consistent := by
  obtain ⟨hstands, returned, used, hlast⟩ := inOrder_withMain.run h
  exact ⟨hstands, consistent_of hlast.tables hlast.trees
    (rootsRegistered_run rootsRegistered_withMain calls)⟩

/-- An interface and a class in modules of their own. A body is replaced, an external method gets
one, a method has two parts, and a field is initialized with a function. -/
def replacedBodies : List Call :=
  [.addType .ofInterface "ISource", .startModule "app", .addType .ofClass "Source",
    .listInterface 1 0, .addMethod 0 { name := "Load" }, .addMethod 1 { name := "Load" },
    .addMethod 1 { name := "Clean", isExternal := true },
    .addMethod 1 { name := "Stop", modifiers := { isAbstract := true } }, .startModule "test",
    .call none 0 [], .exprStatement (some 0), .setBody 1 [some 1],
    .call none 2 [], .exprStatement (some 3), .setBody 1 [some 4],
    .methodGroup 1, .ret (some 6), .setBody 2 [some 7],
    .call none 2 [], .ret (some 9), .addPart 1 [some 10],
    .literal "0", .ret (some 12), .lambda false [] [some 13], .addField 1 "init" (some 15)]

theorem run_consistent_replacedBodies :
    withMain.Ordered [] [] replacedBodies ∧
      List.Forall₂ (Call.StandsAt (withMain.run replacedBodies).program) replacedBodies
        (withMain.answers replacedBodies) ∧
      (withMain.run replacedBodies).program.Consistent ∧
      (withMain.run replacedBodies).program.bodyOwner.find? 2 = none ∧
      (withMain.run replacedBodies).program.bodyOwner.find? 5 = some 1 ∧
      (withMain.run replacedBodies).program.bodyOwner.find? 8 = some 3 ∧
      (withMain.run replacedBodies).program.bodyOwner.find? 11 = some 4 ∧
      (withMain.run replacedBodies).program.rootModule.find? 16 = some 1 ∧
      (withMain.run replacedBodies).program.methods.toList.map (·.declarations) =
        [[0], [1, 4], [3], [2]] := by
  have hordered : withMain.Ordered [] [] replacedBodies := by decide +kernel
  obtain ⟨hstands, hconsistent⟩ := run_consistent hordered
  exact ⟨hordered, hstands, hconsistent, by decide +kernel, by decide +kernel, by decide +kernel,
    by decide +kernel, by decide +kernel, by decide +kernel⟩

end Builder

end AsyncLift
