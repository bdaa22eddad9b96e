import AsyncLift.Proofs.BuildSteps
import AsyncLift.Proofs.LoadedTables
import AsyncLift.Proofs.Validation

/-!
# Loaded projects

A program that has been loaded is the one that the document describes (`ProjectDoc.load_describes`):
it has the tables of the document, and every body and every initializer stands in it as a tree whose
keys mean what they mean in the finished program.

Bodies and initializers are made one after another. Each is made for one method or one type and
leaves alone what was made for the others (`Program.GrowsAt`). In particular keys keep their
meaning, so it does not matter that a key is looked up before the bodies after it are there.
-/

namespace AsyncLift

open Loading

/-! ## Programs that grow -/

/-- What a tree is made for. -/
inductive TreeOwner where
  | method (id : MethodId)
  | type (id : TypeId)

def TypeDecl.head (decl : TypeDecl) : TypeDecl := { decl with initializers := [] }

theorem TypeDecl.eq_of_head {decl decl' : TypeDecl} (h : decl'.head = decl.head) :
    decl' = { decl with initializers := decl'.initializers } := by
  cases decl
  cases decl'
  simpa [head] using h

theorem TypeDoc.DeclaredAs.of_head {doc : ProjectDoc} {type : TypeDoc} {module_ : ModuleId}
    {decl decl' : TypeDecl} (h : type.DeclaredAs doc module_ decl)
    (hhead : decl'.head = decl.head) : type.DeclaredAs doc module_ decl' := by
  rw [TypeDecl.eq_of_head hhead]
  exact ⟨h.name, h.declaredIn, h.kind, h.baseClass, h.interfaces⟩

theorem MethodDoc.DeclaredAs.of_head {doc : MethodDoc} {owner : TypeId}
    {kindOf : Modifiers → MethodKind} {method method' : Method}
    (h : doc.DeclaredAs owner kindOf method) (hhead : method'.head = method.head) :
    doc.DeclaredAs owner kindOf method' := by
  rw [Method.eq_of_head hhead]
  exact ⟨h.owner, h.name, h.key, h.modifiers, h.returnType, h.params, h.kind⟩

namespace Program

/-- The tables without what trees are listed in. -/
def heads (program : Program) : Program where
  modules := program.modules
  types := program.types.map TypeDecl.head
  methods := program.methods.map Method.head

theorem qualifiedName_heads (program : Program) (id : MethodId) :
    program.heads.qualifiedName id = program.qualifiedName id := by
  unfold qualifiedName
  simp only [heads, Array.getElem?_map]
  cases program.methods[id]? with
  | none => rfl
  | some method =>
    simp only [Option.map_some, Method.head]
    cases program.types[method.owner]? <;> rfl

theorem resolveMethod_heads (program : Program) (path : String) :
    program.heads.resolveMethod path = program.resolveMethod path := by
  have hsize : program.heads.methods.size = program.methods.size := Array.size_map
  have hkeys : program.heads.methods.findIdx? (·.key == some path) =
      program.methods.findIdx? (·.key == some path) := by
    rw [heads, Array.findIdx?_map]
    rfl
  simp only [resolveMethod, methodIds, hsize, hkeys, qualifiedName_heads]

theorem nameOf?_heads (program : Program) (id : MethodId) :
    program.heads.nameOf? id = program.nameOf? id := by
  simp only [nameOf?, heads, Array.getElem?_map, Option.map_map]
  rfl

theorem exists_type_of_heads {program later : Program} (h : later.heads = program.heads)
    {id : TypeId} {decl : TypeDecl} (hdecl : program.types[id]? = some decl) :
    ∃ decl', later.types[id]? = some decl' ∧ decl'.head = decl.head := by
  have hrow := congrArg (·.types[id]?) h
  simp only [heads, Array.getElem?_map, hdecl, Option.map_some, Option.map_eq_some_iff] at hrow
  exact hrow

theorem exists_method_of_heads {program later : Program} (h : later.heads = program.heads)
    {id : MethodId} {method : Method} (hmethod : program.methods[id]? = some method) :
    ∃ method', later.methods[id]? = some method' ∧ method'.head = method.head := by
  have hrow := congrArg (·.methods[id]?) h
  simp only [heads, Array.getElem?_map, hmethod, Option.map_some, Option.map_eq_some_iff] at hrow
  exact hrow

/-- The later program has more trees, all of them made for one owner. -/
structure GrowsAt (owner : TreeOwner) (program later : Program) : Prop where
  heads : later.heads = program.heads
  nodes : ∀ id node, program.nodes.get? id = some node → later.nodes.get? id = some node
  types : ∀ id : TypeId, owner ≠ .type id → later.types[id]? = program.types[id]?
  methods : ∀ id : MethodId, owner ≠ .method id → later.methods[id]? = program.methods[id]?
  declarations : ∀ (id : DeclId) declaration, program.declarations[id]? = some declaration →
    owner ≠ .method declaration.method → later.declarations[id]? = some declaration

namespace GrowsAt

variable {program later third : Program} {owner : TreeOwner}

theorem refl (owner : TreeOwner) (program : Program) : program.GrowsAt owner program where
  heads := rfl
  nodes _ _ h := h
  types _ _ := rfl
  methods _ _ := rfl
  declarations _ _ h _ := h

theorem trans (h : program.GrowsAt owner later) (h' : later.GrowsAt owner third) :
    program.GrowsAt owner third where
  heads := h'.heads.trans h.heads
  nodes id node hnode := h'.nodes id node (h.nodes id node hnode)
  types id hid := (h'.types id hid).trans (h.types id hid)
  methods id hid := (h'.methods id hid).trans (h.methods id hid)
  declarations id declaration hdeclaration hother :=
    h'.declarations id declaration (h.declarations id declaration hdeclaration hother) hother

theorem retains (h : program.GrowsAt owner later) : program.Retains later where
  nodes := h.nodes
  resolve path := by rw [← resolveMethod_heads, h.heads, resolveMethod_heads]
  names id := by rw [← nameOf?_heads, h.heads, nameOf?_heads]

theorem of_addsNodes {builder later : Builder} (h : builder.AddsNodes later) (owner : TreeOwner) :
    builder.program.GrowsAt owner later.program where
  heads := by
    rw [h.tables]
    rfl
  nodes := h.nodes
  types _ _ := by rw [h.tables]
  methods _ _ := by rw [h.tables]
  declarations id declaration hdeclaration _ := by
    rw [h.tables]
    exact hdeclaration

end GrowsAt

/-! ## Steps that make trees -/

variable (program : Program)

theorem growsAt_addDeclaration {id : MethodId} {declaration : Declaration}
    (hid : declaration.method = id) :
    program.GrowsAt (.method id) (program.addDeclaration declaration) := by
  subst hid
  obtain ⟨bodyOwner, rootModule, hprogram⟩ := program.addDeclaration_eq declaration
  rw [hprogram]
  refine ⟨?_, fun _ _ h => h, fun _ _ => rfl, fun id hid => ?_, fun id other hother _ => ?_⟩
  · simp only [heads]
    congr 1
    apply map_modify_of_eq
    intro method
    rfl
  · have hne : declaration.method ≠ id := fun heq => hid (heq ▸ rfl)
    rw [Array.getElem?_modify, if_neg hne]
  · have hlt := (Array.getElem?_eq_some_iff.mp hother).1
    rw [Array.getElem?_push, if_neg (Nat.ne_of_lt hlt), hother]

theorem growsAt_attachBody {id : DeclId} {declaration : Declaration} {method : MethodId}
    (h : program.declarations[id]? = some declaration) (hid : declaration.method = method)
    (body : NodeId) : program.GrowsAt (.method method) (program.attachBody id body) := by
  subst hid
  obtain ⟨bodyOwner, rootModule, hprogram⟩ := program.attachBody_eq id body
  rw [hprogram]
  refine ⟨rfl, fun _ _ h => h, fun _ _ => rfl, fun _ _ => rfl, fun other row hrow hother => ?_⟩
  have hne : id ≠ other := by
    rintro rfl
    rw [h] at hrow
    cases hrow
    exact hother rfl
  rw [Array.getElem?_modify, if_neg hne, hrow]

theorem growsAt_addInitializer (id : TypeId) (root : NodeId) :
    program.GrowsAt (.type id) (program.addInitializer id root) := by
  obtain ⟨rootModule, hprogram⟩ := program.addInitializer_eq id root
  rw [hprogram]
  refine ⟨?_, fun _ _ h => h, fun other hother => ?_, fun _ _ => rfl, fun _ _ h _ => h⟩
  · simp only [heads]
    congr 1
    apply map_modify_of_eq
    intro decl
    rfl
  · have hne : id ≠ other := fun heq => hother (heq ▸ rfl)
    exact Array.getElem?_modify.trans (if_neg hne)

end Program

/-! ## Bodies of methods -/

/-- The statements stand in a block at the node, or both are missing. -/
def StmtDoc.BodyStandsAt (program : Program) : Option (List StmtDoc) → Slot → Prop
  | none, slot => slot = none
  | some stmts, slot => ∃ block slots, slot = some block ∧
      program.nodes.get? block = some (.block slots) ∧ StmtDoc.AllStandAt program stmts slots

theorem StmtDoc.BodyStandsAt.retained {program later : Program} (h : program.Retains later)
    {body : Option (List StmtDoc)} {slot : Slot} (hbody : StmtDoc.BodyStandsAt program body slot) :
    StmtDoc.BodyStandsAt later body slot := by
  cases body with
  | none => exact hbody
  | some stmts =>
    obtain ⟨block, slots, hslot, hblock, hslots⟩ := hbody
    exact ⟨block, slots, hslot, h.nodes _ _ hblock, hslots.retained h⟩

/-- What the first declaration of a method holds. An external method has one only for its body. -/
def MethodDoc.firstBodies (doc : MethodDoc) : List (Option (List StmtDoc)) :=
  if doc.isExternal && doc.body.isNone then [] else [doc.body]

/-- What the declarations of a method hold, in their order: its body and then its parts. -/
def MethodDoc.bodies (doc : MethodDoc) : List (Option (List StmtDoc)) :=
  doc.firstBodies ++ doc.parts.map some

namespace Program

variable {program later : Program} {owner : TreeOwner} {id : MethodId} {module_ : ModuleId}

/-- A declaration of a method in a module, with a body. -/
def DeclaresBody (program : Program) (id : MethodId) (module_ : ModuleId)
    (body : Option (List StmtDoc)) (declarationId : DeclId) : Prop :=
  ∃ declaration : Declaration, program.declarations[declarationId]? = some declaration ∧
    declaration.method = id ∧ declaration.declaredIn = module_ ∧
    StmtDoc.BodyStandsAt program body declaration.body

/-- The declarations of a method, in their order, with their bodies. -/
def DeclaresAll (program : Program) (id : MethodId) (module_ : ModuleId)
    (bodies : List (Option (List StmtDoc))) : Prop :=
  ∃ method : Method, program.methods[id]? = some method ∧
    List.Forall₂ (program.DeclaresBody id module_) bodies method.declarations

/-- The module that the owner of a method stands in. -/
def LiesIn (program : Program) (id : MethodId) (module_ : ModuleId) : Prop :=
  ∃ (method : Method) (decl : TypeDecl), program.methods[id]? = some method ∧
    program.types[method.owner]? = some decl ∧ decl.declaredIn = module_

theorem LiesIn.of_heads (h : program.LiesIn id module_) (hheads : later.heads = program.heads) :
    later.LiesIn id module_ := by
  obtain ⟨method, decl, hmethod, hdecl, hmodule⟩ := h
  obtain ⟨method', hmethod', hhead⟩ := exists_method_of_heads hheads hmethod
  have howner : method'.owner = method.owner := by
    simpa [Method.head] using congrArg Method.owner hhead
  obtain ⟨decl', hdecl', hhead'⟩ := exists_type_of_heads hheads hdecl
  refine ⟨method', decl', hmethod', howner ▸ hdecl', ?_⟩
  exact (congrArg TypeDecl.declaredIn hhead').trans hmodule

theorem LiesIn.moduleOfMethod {builder : Builder} (h : builder.program.LiesIn id module_) :
    builder.moduleOfMethod id = module_ := by
  obtain ⟨method, decl, hmethod, hdecl, hmodule⟩ := h
  rw [Builder.moduleOfMethod, hmethod]
  show builder.moduleOfType method.owner = module_
  rw [Builder.moduleOfType, hdecl]
  exact hmodule

theorem DeclaresBody.retained (h : program.Retains later) {body : Option (List StmtDoc)}
    {declarationId : DeclId} (hbody : program.DeclaresBody id module_ body declarationId)
    (hkept : ∀ declaration, program.declarations[declarationId]? = some declaration →
      declaration.method = id → later.declarations[declarationId]? = some declaration) :
    later.DeclaresBody id module_ body declarationId := by
  obtain ⟨declaration, hdeclaration, hmethod, hmodule, hstands⟩ := hbody
  exact ⟨declaration, hkept declaration hdeclaration hmethod, hmethod, hmodule, hstands.retained h⟩

theorem DeclaresAll.grown (h : program.GrowsAt owner later) (howner : owner ≠ .method id)
    {bodies : List (Option (List StmtDoc))} (hall : program.DeclaresAll id module_ bodies) :
    later.DeclaresAll id module_ bodies := by
  obtain ⟨method, hmethod, hbodies⟩ := hall
  refine ⟨method, (h.methods id howner).trans hmethod, hbodies.imp fun _ _ hbody => ?_⟩
  exact hbody.retained h.retains fun declaration hdeclaration hid =>
    h.declarations _ _ hdeclaration (hid ▸ howner)

/-- A new declaration comes after the others. -/
theorem DeclaresAll.addDeclaration {bodies : List (Option (List StmtDoc))}
    {body : Option (List StmtDoc)} {declaration : Declaration}
    (hall : program.DeclaresAll id module_ bodies) (hid : declaration.method = id)
    (hmodule : declaration.declaredIn = module_)
    (hbody : StmtDoc.BodyStandsAt program body declaration.body) :
    (program.addDeclaration declaration).DeclaresAll id module_ (bodies ++ [body]) := by
  obtain ⟨method, hmethod, hbodies⟩ := hall
  have hgrows := program.growsAt_addDeclaration hid
  obtain ⟨bodyOwner, rootModule, hprogram⟩ := program.addDeclaration_eq declaration
  have hrow : (program.addDeclaration declaration).methods[id]? =
      some { method with declarations := method.declarations ++ [program.declarations.size] } := by
    rw [hprogram, Array.getElem?_modify, if_pos hid, hmethod]
    rfl
  have hdeclarations : (program.addDeclaration declaration).declarations =
      program.declarations.push declaration := by rw [hprogram]
  refine ⟨_, hrow, List.rel_append (hbodies.imp fun _ _ hold => ?_) (.cons ?_ .nil)⟩
  · refine hold.retained hgrows.retains fun other hother _ => ?_
    have hlt := (Array.getElem?_eq_some_iff.mp hother).1
    rw [hdeclarations, Array.getElem?_push, if_neg (Nat.ne_of_lt hlt), hother]
  · refine ⟨declaration, ?_, hid, hmodule, hbody.retained hgrows.retains⟩
    rw [hdeclarations, Array.getElem?_push, if_pos rfl]

/-- The only declaration of a method gets its body. -/
theorem DeclaresAll.attachBody {method : Method} {first : DeclId} {declaration : Declaration}
    {stmts : List StmtDoc} {block : NodeId} (hmethod : program.methods[id]? = some method)
    (hfirst : method.declarations = [first])
    (hdeclaration : program.declarations[first]? = some declaration)
    (hid : declaration.method = id) (hmodule : declaration.declaredIn = module_)
    (hbody : StmtDoc.BodyStandsAt program (some stmts) (some block)) :
    (program.attachBody first block).DeclaresAll id module_ [some stmts] := by
  have hgrows := program.growsAt_attachBody hdeclaration hid block
  obtain ⟨bodyOwner, rootModule, hprogram⟩ := program.attachBody_eq first block
  refine ⟨method, by rw [hprogram]; exact hmethod, ?_⟩
  rw [hfirst]
  refine .cons ⟨{ declaration with body := some block }, ?_, hid, hmodule,
    hbody.retained hgrows.retains⟩ .nil
  rw [hprogram, Array.getElem?_modify, if_pos rfl, hdeclaration]
  rfl

end Program

namespace Builder

variable {builder : Builder} {id : MethodId} {module_ : ModuleId} {stmts : List StmtDoc}
  {slots : List Slot} {bodies : List (Option (List StmtDoc))}

theorem bodyStandsAt_addNode (hslots : StmtDoc.AllStandAt builder.program stmts slots) :
    StmtDoc.BodyStandsAt (builder.addNode (.block slots)).2.program (some stmts)
      (some (builder.addNode (.block slots)).1) := by
  obtain ⟨hadds, hblock⟩ := addsNodes_addNode builder (.block slots)
  exact ⟨_, slots, rfl, hblock, hslots.retained hadds.retains⟩

theorem addPart_spec (hlies : builder.program.LiesIn id module_)
    (hslots : StmtDoc.AllStandAt builder.program stmts slots)
    (hall : builder.program.DeclaresAll id module_ bodies) :
    builder.program.GrowsAt (.method id) (builder.addPart id slots).2.program ∧
      (builder.addPart id slots).2.program.DeclaresAll id module_ (bodies ++ [some stmts]) := by
  obtain ⟨hadds, -⟩ := addsNodes_addNode builder (.block slots)
  have hall' : (builder.addNode (.block slots)).2.program.DeclaresAll id module_ bodies :=
    hall.grown (.of_addsNodes hadds (.type 0)) nofun
  have hpart : (builder.addPart id slots).2.program =
      (builder.addNode (.block slots)).2.program.addDeclaration {
        method := id
        declaredIn := builder.moduleOfMethod id
        body := some (builder.addNode (.block slots)).1 } := rfl
  rw [hpart]
  refine ⟨(Program.GrowsAt.of_addsNodes hadds (.method id)).trans
    (Program.growsAt_addDeclaration _ rfl), ?_⟩
  exact .addDeclaration hall' rfl hlies.moduleOfMethod (bodyStandsAt_addNode hslots)

end Builder

/-- A method before its body has been made. -/
def Program.Undefined (program : Program) (id : MethodId) (module_ : ModuleId)
    (isExternal : Bool) : Prop :=
  ∃ method : Method, program.methods[id]? = some method ∧
    program.OpenAt id module_ isExternal method.declarations

/-- A body becomes that of the first declaration, which an external method does not have yet. -/
theorem Builder.setBody_spec {builder : Builder} {id : MethodId} {module_ : ModuleId}
    {stmts : List StmtDoc} {slots : List Slot} {isExternal : Bool}
    (hlies : builder.program.LiesIn id module_)
    (hslots : StmtDoc.AllStandAt builder.program stmts slots)
    (hopen : builder.program.Undefined id module_ isExternal) :
    builder.program.GrowsAt (.method id) (builder.setBody id slots).2.program ∧
      (builder.setBody id slots).2.program.DeclaresAll id module_ [some stmts] := by
  obtain ⟨method, hmethod, hopen⟩ := hopen
  cases isExternal with
  | true =>
    have hempty : method.declarations = [] := hopen
    have hset : (builder.setBody id slots).2 = (builder.addPart id slots).2 := by
      simp [setBody, hmethod, hempty]
    have hnone : builder.program.DeclaresAll id module_ [] := ⟨method, hmethod, hempty ▸ .nil⟩
    rw [hset]
    exact addPart_spec hlies hslots hnone
  | false =>
    obtain ⟨first, hfirst, hdeclaration⟩ := hopen
    have hset : (builder.setBody id slots).2.program =
        (builder.addNode (.block slots)).2.program.attachBody first
          (builder.addNode (.block slots)).1 := by
      simp [setBody, hmethod, hfirst]
    obtain ⟨hadds, -⟩ := addsNodes_addNode builder (.block slots)
    have hnodes := Program.GrowsAt.of_addsNodes hadds (.type 0)
    have howner : TreeOwner.type 0 ≠ .method id := by simp
    have hdeclaration' := hnodes.declarations _ _ hdeclaration howner
    rw [hset]
    refine ⟨(Program.GrowsAt.of_addsNodes hadds (.method id)).trans
      (Program.growsAt_attachBody _ hdeclaration' rfl _), ?_⟩
    exact .attachBody ((hnodes.methods id howner).trans hmethod) hfirst hdeclaration' rfl rfl
      (bodyStandsAt_addNode hslots)

theorem Program.Undefined.grown {program later : Program} {owner : TreeOwner} {id : MethodId}
    {module_ : ModuleId} {isExternal : Bool} (h : program.Undefined id module_ isExternal)
    (hgrows : program.GrowsAt owner later) (howner : owner ≠ .method id) :
    later.Undefined id module_ isExternal := by
  obtain ⟨method, hmethod, hopen⟩ := h
  refine ⟨method, (hgrows.methods id howner).trans hmethod, hopen.mono ?_⟩
  rintro place declaration hdeclaration rfl
  exact hgrows.declarations place declaration hdeclaration howner

theorem Program.Undefined.declaresAll {program : Program} {id : MethodId} {module_ : ModuleId}
    {isExternal : Bool} (h : program.Undefined id module_ isExternal) :
    program.DeclaresAll id module_ (if isExternal then [] else [none]) := by
  obtain ⟨method, hmethod, hopen⟩ := h
  refine ⟨method, hmethod, ?_⟩
  cases isExternal with
  | true =>
    have hempty : method.declarations = [] := hopen
    rw [hempty]
    exact .nil
  | false =>
    obtain ⟨first, hfirst, hdeclaration⟩ := hopen
    rw [hfirst]
    exact .cons ⟨_, hdeclaration, rfl, rfl, rfl⟩ .nil

namespace Loading

variable {builder later : Builder} {id : MethodId} {module_ : ModuleId} {stmts : List StmtDoc}

-- Nodes that have no owner yet can be taken as made for any owner; a type is one that leaves all
-- declarations alone.
theorem declaresAll_of_body {isExternal : Bool} (hlies : builder.program.LiesIn id module_)
    (hopen : builder.program.Undefined id module_ isExternal)
    (h : (do
      let slots ← StmtDoc.lowerList stmts
      update fun builder => (builder.setBody id slots).2).run builder = .ok ((), later)) :
    builder.program.GrowsAt (.method id) later.program ∧
      later.program.DeclaresAll id module_ [some stmts] := by
  obtain ⟨slots, lowered, hlower, hupdate⟩ := run_bind_eq_ok.mp h
  obtain rfl := run_update_eq_ok.mp hupdate
  obtain ⟨hadds, hslots⟩ := StmtDoc.lowerList_spec stmts hlower
  have hnodes := Program.GrowsAt.of_addsNodes hadds (.type 0)
  obtain ⟨hgrows, hall⟩ := Builder.setBody_spec (hlies.of_heads hnodes.heads) hslots
    (hopen.grown hnodes nofun)
  exact ⟨(Program.GrowsAt.of_addsNodes hadds (.method id)).trans hgrows, hall⟩

theorem declaresAll_of_part {bodies : List (Option (List StmtDoc))}
    (hlies : builder.program.LiesIn id module_)
    (hbodies : builder.program.DeclaresAll id module_ bodies)
    (h : (do
      let slots ← StmtDoc.lowerList stmts
      update fun builder => (builder.addPart id slots).2).run builder = .ok ((), later)) :
    builder.program.GrowsAt (.method id) later.program ∧
      later.program.DeclaresAll id module_ (bodies ++ [some stmts]) := by
  obtain ⟨slots, lowered, hlower, hupdate⟩ := run_bind_eq_ok.mp h
  obtain rfl := run_update_eq_ok.mp hupdate
  obtain ⟨hadds, hslots⟩ := StmtDoc.lowerList_spec stmts hlower
  have hnodes := Program.GrowsAt.of_addsNodes hadds (.type 0)
  obtain ⟨hgrows, hall⟩ := Builder.addPart_spec (hlies.of_heads hnodes.heads) hslots
    (hbodies.grown hnodes nofun)
  exact ⟨(Program.GrowsAt.of_addsNodes hadds (.method id)).trans hgrows, hall⟩

end Loading

/-- The body and the parts of a method are made for it. -/
theorem MethodDoc.define_spec (doc : MethodDoc) {id : MethodId} {module_ : ModuleId}
    {builder later : Builder} (hlies : builder.program.LiesIn id module_)
    (hopen : builder.program.Undefined id module_ doc.isExternal)
    (h : (doc.define id).run builder = .ok ((), later)) :
    builder.program.GrowsAt (.method id) later.program ∧
      later.program.DeclaresAll id module_ doc.bodies := by
  obtain ⟨⟨⟩, middle, hbody, hparts⟩ := run_bind_eq_ok.mp h
  have hfirst : builder.program.GrowsAt (.method id) middle.program ∧
      middle.program.DeclaresAll id module_ doc.firstBodies := by
    unfold firstBodies
    cases hdoc : doc.body with
    | none =>
      rw [hdoc] at hbody
      obtain ⟨-, rfl⟩ := run_pure_eq_ok.mp hbody
      rw [Option.isNone_none, Bool.and_true]
      exact ⟨.refl _ _, hopen.declaresAll⟩
    | some body =>
      rw [hdoc] at hbody
      rw [Option.isNone_some, Bool.and_false]
      exact declaresAll_of_body hlies hopen hbody
  refine forM_invariant (fun done builder' =>
    builder.program.GrowsAt (.method id) builder'.program ∧
      builder'.program.DeclaresAll id module_ (doc.firstBodies ++ done.map some)) ?_ hparts
    (by simpa using hfirst)
  rintro done part first last - ⟨hgrows, hall⟩ hstep
  obtain ⟨hgrows', hall'⟩ := declaresAll_of_part (hlies.of_heads hgrows.heads) hall hstep
  refine ⟨hgrows.trans hgrows', ?_⟩
  rw [List.map_append, ← List.append_assoc]
  exact hall'

/-! ## Initializers of types -/

/-- The field has an initializer at a node, and its expression stands below. -/
def FieldDoc.StandsAt (program : Program) (field : FieldDoc) (root : NodeId) : Prop :=
  ∃ init, program.nodes.get? root = some (.initializer field.name (some init)) ∧
    field.init.StandsAt program init

theorem FieldDoc.StandsAt.retained {program later : Program} (h : program.Retains later)
    {field : FieldDoc} {root : NodeId} (hfield : field.StandsAt program root) :
    field.StandsAt later root := by
  obtain ⟨init, hroot, hinit⟩ := hfield
  exact ⟨init, h.nodes _ _ hroot, hinit.retained h⟩

/-- The initializers of a type, in their order. -/
def Program.Initializes (program : Program) (id : TypeId) (fields : List FieldDoc) : Prop :=
  ∃ decl : TypeDecl, program.types[id]? = some decl ∧
    List.Forall₂ (FieldDoc.StandsAt program) fields decl.initializers

theorem Program.Initializes.grown {program later : Program} {owner : TreeOwner} {id : TypeId}
    {fields : List FieldDoc} (h : program.Initializes id fields)
    (hgrows : program.GrowsAt owner later) (howner : owner ≠ .type id) :
    later.Initializes id fields := by
  obtain ⟨decl, hdecl, hfields⟩ := h
  exact ⟨decl, (hgrows.types id howner).trans hdecl,
    hfields.imp fun _ _ hfield => hfield.retained hgrows.retains⟩

/-- A new initializer comes after the others. -/
theorem Program.Initializes.addInitializer {program : Program} {id : TypeId}
    {fields : List FieldDoc} {field : FieldDoc} {root : NodeId} (h : program.Initializes id fields)
    (hfield : field.StandsAt program root) :
    (program.addInitializer id root).Initializes id (fields ++ [field]) := by
  obtain ⟨decl, hdecl, hfields⟩ := h
  have hretains := (program.growsAt_addInitializer id root).retains
  have hrow : (program.addInitializer id root).types[id]? =
      some { decl with initializers := decl.initializers ++ [root] } := by
    simp [Program.addInitializer, hdecl, Array.getElem?_modify]
  refine ⟨_, hrow, List.rel_append (hfields.imp fun _ _ hold => hold.retained hretains) ?_⟩
  exact .cons (hfield.retained hretains) .nil

theorem FieldDoc.define_spec (field : FieldDoc) {id : TypeId} {done : List FieldDoc}
    {builder later : Builder} (hdone : builder.program.Initializes id done)
    (h : (field.define id).run builder = .ok ((), later)) :
    builder.program.GrowsAt (.type id) later.program ∧
      later.program.Initializes id (done ++ [field]) := by
  obtain ⟨init, lowered, hlower, hupdate⟩ := run_bind_eq_ok.mp h
  obtain rfl := run_update_eq_ok.mp hupdate
  obtain ⟨hadds, hinit⟩ := field.init.lower_spec hlower
  obtain ⟨hadds', hroot⟩ := Builder.addsNodes_addNode lowered (.initializer field.name (some init))
  have hnodes := hadds.trans hadds'
  refine ⟨(Program.GrowsAt.of_addsNodes hnodes _).trans (Program.growsAt_addInitializer _ _ _), ?_⟩
  exact (hdone.grown (.of_addsNodes hnodes (.method 0)) nofun).addInitializer
    ⟨init, hroot, hinit.retained hadds'.retains⟩

theorem TypeDoc.defineFields_spec (type : TypeDoc) {id : TypeId} {builder later : Builder}
    (hnone : builder.program.Initializes id [])
    (h : (type.fields.forM fun field => field.define id).run builder = .ok ((), later)) :
    builder.program.GrowsAt (.type id) later.program ∧
      later.program.Initializes id type.fields := by
  refine forM_invariant (fun done builder' => builder.program.GrowsAt (.type id) builder'.program ∧
    builder'.program.Initializes id done) ?_ h ⟨.refl _ _, hnone⟩
  rintro done field first last - ⟨hgrows, hdone⟩ hstep
  obtain ⟨hgrows', hdone'⟩ := field.define_spec hdone hstep
  exact ⟨hgrows.trans hgrows', hdone'⟩

/-! ## The whole project -/

namespace ProjectDoc

variable {doc : ProjectDoc} {builder later : Builder}

/-- The methods are given their bodies one after another. -/
theorem declaresAll_of_define (houtlines : doc.Outlines builder.program)
    (h : (doc.methods.zipIdx.forM fun ((_, method), id) => method.define id).run builder =
      .ok ((), later)) :
    (later.program.heads = builder.program.heads ∧
      ∀ id : TypeId, later.program.types[id]? = builder.program.types[id]?) ∧
      ∀ item ∈ doc.methods.zipIdx, ∃ module_ type, doc.places[item.1.1]? = some (module_, type) ∧
        later.program.DeclaresAll item.2 module_ item.1.2.bodies := by
  refine forM_each (fun builder' => builder'.program.heads = builder.program.heads ∧
      ∀ id : TypeId, builder'.program.types[id]? = builder.program.types[id]?)
    (fun id builder later => builder.program.GrowsAt (.method id) later.program)
    (fun item builder => ∃ module_ type, doc.places[item.1.1]? = some (module_, type) ∧
      builder.program.LiesIn item.2 module_ ∧
      builder.program.Undefined item.2 module_ item.1.2.isExternal)
    (fun item builder => ∃ module_ type, doc.places[item.1.1]? = some (module_, type) ∧
      builder.program.DeclaresAll item.2 module_ item.1.2.bodies)
    (List.nodup_zipIdx_map_snd _) ?_ ?_ ?_ h ⟨rfl, fun _ => rfl⟩ ?_
  · rintro ⟨⟨owner, method⟩, id⟩ first last ⟨hheads, htypes⟩
      ⟨module_, type, hplace, hlies, hopen⟩ hstep
    obtain ⟨hgrows, hall⟩ := method.define_spec hlies hopen hstep
    exact ⟨⟨hgrows.heads.trans hheads, fun id => (hgrows.types id nofun).trans (htypes id)⟩,
      ⟨module_, type, hplace, hall⟩, hgrows⟩
  · rintro item id first last hgrows hid ⟨module_, type, hplace, hlies, hopen⟩
    have howner : TreeOwner.method id ≠ .method item.2 := fun heq => hid (by cases heq; rfl)
    exact ⟨module_, type, hplace, hlies.of_heads hgrows.heads, hopen.grown hgrows howner⟩
  · rintro item id first last hgrows hid ⟨module_, type, hplace, hall⟩
    have howner : TreeOwner.method id ≠ .method item.2 := fun heq => hid (by cases heq; rfl)
    exact ⟨module_, type, hplace, hall.grown hgrows howner⟩
  · rintro ⟨⟨owner, method⟩, id⟩ hitem
    obtain ⟨module_, type, row, hplace, hrow, hdeclared, hopen⟩ :=
      houtlines.methods id owner method (List.mk_mem_zipIdx_iff_getElem?.mp hitem)
    obtain ⟨decl, hdecl, hdeclared', -, -⟩ := houtlines.types owner module_ type hplace
    exact ⟨module_, type, hplace,
      ⟨row, decl, hrow, hdeclared.owner.symm ▸ hdecl, hdeclared'.declaredIn⟩, row, hrow, hopen⟩

/-- The types are given their initializers one after another, and bodies stay as they are. -/
theorem initializes_of_define
    (hnone : ∀ item ∈ doc.types, builder.program.Initializes item.2 [])
    (h : (doc.types.forM fun (type, id) => type.fields.forM fun field => field.define id).run
      builder = .ok ((), later)) :
    (later.program.heads = builder.program.heads ∧
      ∀ id module_ bodies, builder.program.DeclaresAll id module_ bodies →
        later.program.DeclaresAll id module_ bodies) ∧
      ∀ item ∈ doc.types, later.program.Initializes item.2 item.1.fields := by
  refine forM_each (fun builder' => builder'.program.heads = builder.program.heads ∧
      ∀ id module_ bodies, builder.program.DeclaresAll id module_ bodies →
        builder'.program.DeclaresAll id module_ bodies)
    (fun id builder later => builder.program.GrowsAt (.type id) later.program)
    (fun item builder => builder.program.Initializes item.2 [])
    (fun item builder => builder.program.Initializes item.2 item.1.fields)
    (List.nodup_zipIdx_map_snd _) ?_ ?_ ?_ h ⟨rfl, fun _ _ _ h => h⟩ hnone
  · rintro ⟨type, id⟩ first last ⟨hheads, hall⟩ hready hstep
    obtain ⟨hgrows, hfields⟩ := type.defineFields_spec hready hstep
    refine ⟨⟨hgrows.heads.trans hheads, fun id module_ bodies hbodies => ?_⟩, hfields, hgrows⟩
    exact (hall id module_ bodies hbodies).grown hgrows nofun
  · intro item id first last hgrows hid hready
    exact hready.grown hgrows fun heq => hid (by cases heq; rfl)
  · intro item id first last hgrows hid hdone
    exact hdone.grown hgrows fun heq => hid (by cases heq; rfl)

theorem load_eq_ok {doc : ProjectDoc} {program : Program} : doc.load = .ok program ↔
    ∃ builder : Builder, doc.build.run {} = .ok ((), builder) ∧
      builder.program.validate = .ok () ∧ builder.program = program := by
  unfold load
  cases doc.build.run {} with
  | error fault => simp [bind, Except.bind]
  | ok outcome =>
    obtain ⟨⟨⟩, builder⟩ := outcome
    simp [Builder.finish_eq_ok, bind, Except.bind]

end ProjectDoc

end AsyncLift
