import AsyncLift.Proofs.LoweredTrees
import Mathlib.Data.List.Sigma

/-!
# The tables of a loaded project

Before any body is made, a loader has declared all that a document lists: modules and types in their
order, what types inherit from, and methods in their order (`ProjectDoc.Outlines`). A name in a
heritage list means the first type of that name in the document (`ProjectDoc.firstType?`), wherever
it is listed, because all types are there when the first name is looked up.
-/

namespace AsyncLift

/-! ## Loops -/

namespace Loading

variable {α ι : Type} {builder later : Builder}

/-- What holds of the items done and of the builder, if each round goes on from there. -/
theorem forM_invariant (Inv : List ι → Builder → Prop) {items : List ι} {step : ι → Loading Unit}
    (hstep : ∀ done item builder later, item ∈ items → Inv done builder →
      (step item).run builder = .ok ((), later) → Inv (done ++ [item]) later)
    (h : (items.forM step).run builder = .ok ((), later)) (hinit : Inv [] builder) :
    Inv items later := by
  suffices hrest : ∀ rest done builder, (∀ item ∈ rest, item ∈ items) → Inv done builder →
      (rest.forM step).run builder = .ok ((), later) → Inv (done ++ rest) later from
    hrest items [] builder (fun _ hitem => hitem) hinit h
  intro rest
  induction rest with
  | nil =>
    intro done builder _ hinv hrun
    obtain ⟨-, rfl⟩ := run_pure_eq_ok.mp hrun
    rwa [List.append_nil]
  | cons item rest ih =>
    intro done builder hrest hinv hrun
    obtain ⟨⟨⟩, middle, hfirst, hlast⟩ := run_bind_eq_ok.mp hrun
    have hnext := hstep done item builder middle (hrest item List.mem_cons_self) hinv hfirst
    rw [List.append_cons]
    exact ih _ middle (fun other hother => hrest other (List.mem_cons_of_mem _ hother)) hnext hlast

/-- A loop over rows of a table in which each round finishes its own row and leaves what is said of
the others. -/
theorem forM_each (Inv : Builder → Prop) (Changes : Nat → Builder → Builder → Prop)
    (Ready Done : α × Nat → Builder → Prop) {items : List (α × Nat)}
    {step : α × Nat → Loading Unit}
    (hnodup : (items.map (·.2)).Nodup)
    (hstep : ∀ item builder later, Inv builder → Ready item builder →
      (step item).run builder = .ok ((), later) →
        Inv later ∧ Done item later ∧ Changes item.2 builder later)
    (hready : ∀ item id builder later, Changes id builder later → item.2 ≠ id →
      Ready item builder → Ready item later)
    (hdone : ∀ item id builder later, Changes id builder later → item.2 ≠ id →
      Done item builder → Done item later)
    (h : (items.forM step).run builder = .ok ((), later)) (hinv : Inv builder)
    (hall : ∀ item ∈ items, Ready item builder) :
    Inv later ∧ ∀ item ∈ items, Done item later := by
  -- Rows outside of the list are carried along, for the row that has just been finished.
  suffices hrest : Inv later ∧ (∀ item ∈ items, Done item later) ∧
      ∀ item, item.2 ∉ items.map (·.2) → Done item builder → Done item later from
    ⟨hrest.1, hrest.2.1⟩
  induction items generalizing builder with
  | nil =>
    obtain ⟨-, rfl⟩ := run_pure_eq_ok.mp h
    exact ⟨hinv, by simp, fun _ _ hdone => hdone⟩
  | cons item items ih =>
    obtain ⟨⟨⟩, middle, hfirst, hlast⟩ := run_bind_eq_ok.mp h
    rw [List.map_cons, List.nodup_cons] at hnodup
    obtain ⟨hinv', hitem, hchanges⟩ :=
      hstep item builder middle hinv (hall item List.mem_cons_self) hfirst
    have hother : ∀ other ∈ items, other.2 ≠ item.2 := by
      intro other hother heq
      exact hnodup.1 (heq ▸ List.mem_map_of_mem hother)
    obtain ⟨hinv'', hitems, hkept⟩ := ih hnodup.2 hlast hinv' fun other hmem =>
      hready other item.2 builder middle hchanges (hother other hmem)
        (hall other (List.mem_cons_of_mem _ hmem))
    refine ⟨hinv'', List.forall_mem_cons.mpr ⟨hkept item hnodup.1 hitem, hitems⟩, ?_⟩
    intro outside houtside hdone'
    rw [List.map_cons, List.mem_cons, not_or] at houtside
    exact hkept outside houtside.2 (hdone outside item.2 builder middle hchanges houtside.1 hdone')

end Loading

open Loading

/-! ## What the document says of its types -/

namespace ProjectDoc

variable (doc : ProjectDoc)

/-- The types in document order, with the modules that they stand in. -/
def places : List (ModuleId × TypeDoc) :=
  doc.modules.zipIdx.flatMap fun (module_, id) => module_.types.map (id, ·)

/-- The place of the first type of a name. -/
def firstType? (name : String) : Option TypeId :=
  (doc.places.map (·.2.name)).findIdx? (· == name)

theorem types_eq : doc.types = doc.places.zipIdx.map (Prod.map (·.2) id) := by
  have hplaces : doc.places.map (·.2) = doc.modules.flatMap (·.types) := by
    have hmodules : doc.modules = doc.modules.zipIdx.map (·.1) :=
      (List.zipIdx_map_fst 0 doc.modules).symm
    conv_rhs => rw [hmodules, List.flatMap_map]
    simp [places, List.map_flatMap, Function.comp_def]
  rw [types, ← hplaces, List.zipIdx_map]

theorem mem_types {type : TypeDoc} {id : TypeId} :
    (type, id) ∈ doc.types ↔ ∃ module_, doc.places[id]? = some (module_, type) := by
  rw [types_eq]
  constructor
  · intro h
    obtain ⟨⟨⟨module_, type'⟩, id'⟩, hmem, heq⟩ := List.mem_map.mp h
    cases heq
    exact ⟨module_, List.mk_mem_zipIdx_iff_getElem?.mp hmem⟩
  · rintro ⟨module_, hplace⟩
    exact List.mem_map.mpr ⟨_, List.mk_mem_zipIdx_iff_getElem?.mpr hplace, rfl⟩

end ProjectDoc

/-- A type before it inherits anything or has any members. -/
def TypeDoc.bare (type : TypeDoc) (declaredIn : ModuleId) : TypeDecl where
  name := type.name
  declaredIn := declaredIn
  kind := type.kind

/-- The type stands in the table as the document has it; names in its heritage mean the first types
of these names. -/
structure TypeDoc.DeclaredAs (doc : ProjectDoc) (type : TypeDoc) (module_ : ModuleId)
    (decl : TypeDecl) : Prop where
  name : decl.name = type.name
  declaredIn : decl.declaredIn = module_
  kind : decl.kind = type.kind
  baseClass : decl.baseClass.map some = type.extends?.map doc.firstType?
  interfaces : decl.interfaces.map some = type.implements.map doc.firstType?

/-! ## Modules and types -/

theorem TypeDoc.run_addTypes (types : List TypeDoc) {builder later : Builder}
    (h : (types.forM fun type => update (·.addType type.kind type.name)).run builder =
      .ok ((), later)) :
    later = { builder with program := { builder.program with
      types := builder.program.types ++ (types.map (·.bare builder.current)).toArray } } := by
  induction types generalizing builder with
  | nil =>
    obtain ⟨-, rfl⟩ := run_pure_eq_ok.mp h
    simp
  | cons type types ih =>
    obtain ⟨⟨⟩, middle, hfirst, hlast⟩ := run_bind_eq_ok.mp h
    rw [ih hlast, run_update_eq_ok.mp hfirst]
    simp [Builder.addType, Program.addType, TypeDoc.bare]

theorem ModuleDoc.run_declareAll (modules : List ModuleDoc) {builder later : Builder}
    (h : (modules.forM ModuleDoc.declare).run builder = .ok ((), later)) :
    later.program = { builder.program with
      modules := builder.program.modules ++ (modules.map (·.name)).toArray
      types := builder.program.types ++ ((modules.zipIdx builder.program.modules.size).flatMap
        fun (module_, id) => module_.types.map (·.bare id)).toArray } := by
  induction modules generalizing builder with
  | nil =>
    obtain ⟨-, rfl⟩ := run_pure_eq_ok.mp h
    simp
  | cons module_ modules ih =>
    obtain ⟨⟨⟩, middle, hfirst, hlast⟩ := run_bind_eq_ok.mp h
    obtain ⟨⟨⟩, started, hstart, htypes⟩ := run_bind_eq_ok.mp hfirst
    rw [ih hlast, TypeDoc.run_addTypes _ htypes, run_update_eq_ok.mp hstart]
    simp [Builder.startModule, Program.addModule]

/-- The program that has nothing but the modules and the types of the document, without what they
inherit. -/
def ProjectDoc.bare (doc : ProjectDoc) : Program where
  modules := (doc.modules.map (·.name)).toArray
  types := (doc.places.map fun place => place.2.bare place.1).toArray

theorem ProjectDoc.bare_of_declare (doc : ProjectDoc) {later : Builder}
    (h : (doc.modules.forM ModuleDoc.declare).run {} = .ok ((), later)) :
    later.program = doc.bare := by
  rw [ModuleDoc.run_declareAll doc.modules h]
  simp [bare, places, List.map_flatMap, Function.comp_def]

/-! ## Heritage -/

def TypeDecl.inheriting (base? : Option TypeId) (interfaces : List TypeId) (decl : TypeDecl) :
    TypeDecl :=
  { decl with baseClass := base?.or decl.baseClass, interfaces := decl.interfaces ++ interfaces }

theorem Program.findType?_eq (program : Program) (name : String) :
    program.findType? name = (program.types.map (·.name)).findIdx? (· == name) := by
  rw [Array.findIdx?_map]
  rfl

namespace Builder

/-- The later builder differs in the heritage of one type, which has a base class and interfaces
more. -/
structure Inherits (id : TypeId) (base? : Option TypeId) (interfaces : List TypeId)
    (builder later : Builder) : Prop where
  rest : later = { builder with program := { builder.program with types := later.program.types } }
  others : ∀ other, other ≠ id → later.program.types[other]? = builder.program.types[other]?
  row : later.program.types[id]? = builder.program.types[id]?.map (·.inheriting base? interfaces)

namespace Inherits

variable {builder later third : Builder} {id : TypeId} {base? base?' : Option TypeId}
  {interfaces interfaces' : List TypeId}

theorem refl (builder : Builder) (id : TypeId) : builder.Inherits id none [] builder where
  rest := rfl
  others _ _ := rfl
  row := by cases builder.program.types[id]? <;> simp [TypeDecl.inheriting]

theorem trans (h : builder.Inherits id base? interfaces later)
    (h' : later.Inherits id base?' interfaces' third) :
    builder.Inherits id (base?'.or base?) (interfaces ++ interfaces') third where
  rest := by rw [h'.rest, h.rest]
  others other hother := (h'.others other hother).trans (h.others other hother)
  row := by
    rw [h'.row, h.row]
    cases builder.program.types[id]? <;> simp [TypeDecl.inheriting, Option.or_assoc]

theorem setBaseClass (builder : Builder) (id base : TypeId) : builder.Inherits id (some base) []
    { builder with program := builder.program.setBaseClass id base } where
  rest := rfl
  others other hother := by simp [Program.setBaseClass, Array.getElem?_modify, hother.symm]
  row := by simp [Program.setBaseClass, Array.getElem?_modify, TypeDecl.inheriting]

theorem listInterface (builder : Builder) (id interface : TypeId) :
    builder.Inherits id none [interface]
      { builder with program := builder.program.listInterface id interface } where
  rest := rfl
  others other hother := by simp [Program.listInterface, Array.getElem?_modify, hother.symm]
  row := by simp [Program.listInterface, Array.getElem?_modify, TypeDecl.inheriting]

theorem names_eq (h : builder.Inherits id base? interfaces later) :
    later.program.types.map (·.name) = builder.program.types.map (·.name) := by
  apply Array.ext_getElem?
  intro other
  rw [Array.getElem?_map, Array.getElem?_map]
  by_cases hother : other = id
  · rw [hother, h.row, Option.map_map]
    rfl
  · rw [h.others other hother]

theorem findType?_eq (h : builder.Inherits id base? interfaces later) (name : String) :
    later.program.findType? name = builder.program.findType? name := by
  rw [Program.findType?_eq, Program.findType?_eq, h.names_eq]

end Inherits

end Builder

open Builder in
/-- A type gets the types that its heritage names mean at this point. -/
theorem TypeDoc.inherit_spec (type : TypeDoc) {id : TypeId} {builder later : Builder}
    (h : (type.inherit id).run builder = .ok ((), later)) :
    ∃ base? interfaces, base?.map some = type.extends?.map builder.program.findType? ∧
      interfaces.map some = type.implements.map builder.program.findType? ∧
      builder.Inherits id base? interfaces later := by
  obtain ⟨⟨⟩, middle, hextends, himplements⟩ := run_bind_eq_ok.mp h
  have hbase : ∃ base?, base?.map some = type.extends?.map builder.program.findType? ∧
      builder.Inherits id base? [] middle := by
    cases hname : type.extends? with
    | none =>
      rw [hname] at hextends
      obtain ⟨-, rfl⟩ := run_pure_eq_ok.mp hextends
      exact ⟨none, rfl, .refl _ id⟩
    | some name =>
      rw [hname] at hextends
      obtain ⟨base, _, hfind, hupdate⟩ := run_bind_eq_ok.mp hextends
      obtain ⟨hbase, rfl⟩ := run_findType_eq_ok.mp hfind
      obtain rfl := run_update_eq_ok.mp hupdate
      exact ⟨some base, congrArg some hbase.symm, .setBaseClass _ id base⟩
  obtain ⟨base?, hbase?, hinherits⟩ := hbase
  have hinterfaces : ∃ interfaces,
      interfaces.map some = type.implements.map builder.program.findType? ∧
        builder.Inherits id base? interfaces later := by
    refine forM_invariant (fun done builder' => ∃ interfaces,
      interfaces.map some = done.map builder.program.findType? ∧
        builder.Inherits id base? interfaces builder') ?_ himplements ⟨[], rfl, hinherits⟩
    rintro done name first last - ⟨interfaces, hinterfaces, hfirst⟩ hstep
    obtain ⟨interface, _, hfind, hupdate⟩ := run_bind_eq_ok.mp hstep
    obtain ⟨hinterface, rfl⟩ := run_findType_eq_ok.mp hfind
    obtain rfl := run_update_eq_ok.mp hupdate
    rw [hfirst.findType?_eq] at hinterface
    refine ⟨interfaces ++ [interface], by simp [hinterfaces, hinterface], ?_⟩
    exact hfirst.trans (.listInterface _ id interface)
  obtain ⟨interfaces, hinterfaces, hlast⟩ := hinterfaces
  exact ⟨base?, interfaces, hbase?, hinterfaces, hlast⟩

namespace ProjectDoc

variable (doc : ProjectDoc)

/-- The program has nothing but the modules of the document and types, under the names that the
document gives them. -/
structure Typed (program : Program) : Prop where
  rest : program = { doc.bare with types := program.types }
  names : program.types.map (·.name) = (doc.places.map (·.2.name)).toArray

variable {doc} {program : Program}

theorem Typed.findType?_eq (h : doc.Typed program) : program.findType? = doc.firstType? := by
  funext name
  rw [Program.findType?_eq, h.names, List.findIdx?_toArray]
  rfl

theorem Typed.size_eq (h : doc.Typed program) : program.types.size = doc.places.length := by
  simpa using congrArg Array.size h.names

theorem typed_bare : doc.Typed doc.bare := ⟨rfl, by simp [bare, TypeDoc.bare]⟩

variable (doc) in
/-- A type stands in the table with what it inherits, and has no members or initializers yet. -/
def Inherited (program : Program) (id : TypeId) (type : TypeDoc) : Prop :=
  ∀ module_, doc.places[id]? = some (module_, type) → ∃ decl, program.types[id]? = some decl ∧
    type.DeclaredAs doc module_ decl ∧ decl.members = [] ∧ decl.initializers = []

theorem inherited_of_inherits {builder later : Builder} {id : TypeId} {base? : Option TypeId}
    {interfaces : List TypeId} {type : TypeDoc}
    (hbare : ∀ module_, doc.places[id]? = some (module_, type) →
      builder.program.types[id]? = some (type.bare module_))
    (hbase : base?.map some = type.extends?.map doc.firstType?)
    (hinterfaces : interfaces.map some = type.implements.map doc.firstType?)
    (h : builder.Inherits id base? interfaces later) : doc.Inherited later.program id type := by
  intro module_ hplace
  refine ⟨(type.bare module_).inheriting base? interfaces, ?_, ⟨rfl, rfl, rfl, ?_, ?_⟩, rfl, rfl⟩
  · rw [h.row, hbare module_ hplace]
    rfl
  · simpa [TypeDecl.inheriting, TypeDoc.bare] using hbase
  · simpa [TypeDecl.inheriting, TypeDoc.bare] using hinterfaces

/-- Every type comes to inherit from the first types of the names in its heritage: inheriting does
not change what names mean. -/
theorem inherited_of_inherit {builder later : Builder} (hbare : builder.program = doc.bare)
    (h : (doc.types.forM fun (type, id) => type.inherit id).run builder = .ok ((), later)) :
    doc.Typed later.program ∧
      ∀ item ∈ doc.types, doc.Inherited later.program item.2 item.1 := by
  refine forM_each (fun builder => doc.Typed builder.program)
    (fun id builder later => ∀ other, other ≠ id →
      later.program.types[other]? = builder.program.types[other]?)
    (fun item builder => ∀ module_, doc.places[item.2]? = some (module_, item.1) →
      builder.program.types[item.2]? = some (item.1.bare module_))
    (fun item builder => doc.Inherited builder.program item.2 item.1)
    (List.nodup_zipIdx_map_snd _) ?_ ?_ ?_ h ?_ ?_
  · rintro ⟨type, id⟩ builder later htyped hready hstep
    obtain ⟨base?, interfaces, hbase, hinterfaces, hinherits⟩ := type.inherit_spec hstep
    rw [htyped.findType?_eq] at hbase hinterfaces
    refine ⟨⟨?_, hinherits.names_eq.trans htyped.names⟩,
      inherited_of_inherits hready hbase hinterfaces hinherits, hinherits.others⟩
    rw [hinherits.rest, htyped.rest]
  · intro item id builder later hchanges hitem hready module_ hplace
    rw [hchanges _ hitem]
    exact hready module_ hplace
  · intro item id builder later hchanges hitem hdone module_ hplace
    rw [hchanges _ hitem]
    exact hdone module_ hplace
  · rw [hbare]
    exact typed_bare
  · intro item _ module_ hplace
    rw [hbare]
    simp [bare, hplace]

end ProjectDoc

/-! ## Methods -/

/-- What a method is in a type of some kind. -/
def TypeKind.methodKind : TypeKind → Modifiers → MethodKind
  | .ofInterface, _ => .interfaceMember
  | .ofClass, modifiers => if modifiers.isAbstract then .abstract else .concrete

theorem Builder.kindOf_of_type {builder : Builder} {owner : TypeId} {decl : TypeDecl}
    (h : builder.program.types[owner]? = some decl) :
    builder.kindOf owner = decl.kind.methodKind := by
  funext modifiers
  rw [kindOf, h, Option.any_some]
  cases decl.kind <;> rfl

/-- The method stands in the table as the document has it, with its texts parsed. Its modifiers
decide what kind of method it is. -/
structure MethodDoc.DeclaredAs (doc : MethodDoc) (owner : TypeId) (kindOf : Modifiers → MethodKind)
    (method : Method) : Prop where
  owner : method.owner = owner
  name : method.name = doc.name
  key : method.key = doc.key
  modifiers : Modifiers.ofKeywords doc.modifiers = .ok method.modifiers
  returnType : TypeExpr.parse doc.returns = .ok method.returnType
  params : doc.params.mapM ParamDoc.param = .ok method.params
  kind : method.kind = kindOf method.modifiers

/-- The places of the methods that a type owns. -/
def MethodDoc.ownedBy (type : TypeId) (methods : List (TypeId × MethodDoc)) : List MethodId :=
  (methods.zipIdx.filter (·.1.1 == type)).map (·.2)

theorem MethodDoc.ownedBy_concat (type : TypeId) (methods : List (TypeId × MethodDoc))
    (owner : TypeId) (method : MethodDoc) :
    ownedBy type (methods ++ [(owner, method)]) =
      ownedBy type methods ++ if owner = type then [methods.length] else [] := by
  by_cases howner : owner = type <;> simp [ownedBy, List.zipIdx_append, howner]

/-- The declarations of a method that has no body yet: none if it is external. -/
def Program.OpenAt (program : Program) (id : MethodId) (module_ : ModuleId) :
    (isExternal : Bool) → List DeclId → Prop
  | true, ids => ids = []
  | false, ids => ∃ first, ids = [first] ∧
      program.declarations[first]? = some { method := id, declaredIn := module_ }

theorem Program.OpenAt.mono {program later : Program} {id : MethodId} {module_ : ModuleId}
    {isExternal : Bool} {ids : List DeclId} (h : program.OpenAt id module_ isExternal ids)
    (hlater : ∀ (place : DeclId) declaration, program.declarations[place]? = some declaration →
      declaration.method = id → later.declarations[place]? = some declaration) :
    later.OpenAt id module_ isExternal ids := by
  cases isExternal with
  | true => exact h
  | false =>
    obtain ⟨first, hids, hfirst⟩ := h
    exact ⟨first, hids, hlater first _ hfirst rfl⟩

theorem MethodDoc.spec_eq_ok {doc : MethodDoc} {spec : MethodSpec} (h : doc.spec = .ok spec) :
    spec.name = doc.name ∧ spec.key = doc.key ∧ spec.isExternal = doc.isExternal ∧
      Modifiers.ofKeywords doc.modifiers = .ok spec.modifiers ∧
      TypeExpr.parse doc.returns = .ok spec.returnType ∧
      doc.params.mapM ParamDoc.param = .ok spec.params := by
  unfold MethodDoc.spec at h
  cases hmodifiers : Modifiers.ofKeywords doc.modifiers with
  | error fault => simp [hmodifiers, bind, Except.bind] at h
  | ok modifiers =>
    cases hreturns : TypeExpr.parse doc.returns with
    | error fault => simp [hmodifiers, hreturns, bind, Except.bind] at h
    | ok returnType =>
      cases hparams : doc.params.mapM ParamDoc.param with
      | error fault => simp [hmodifiers, hreturns, hparams, bind, Except.bind] at h
      | ok params =>
        simp only [hmodifiers, hreturns, hparams, bind, Except.bind, pure, Except.pure] at h
        cases h
        exact ⟨rfl, rfl, rfl, rfl, rfl, rfl⟩

/-- What holds of the methods added and of the builder, if each of them goes on from there. -/
theorem MethodDoc.declareAll_invariant (Inv : List (TypeId × MethodDoc) → Builder → Prop)
    (hstep : ∀ done owner method spec builder, Inv done builder → method.spec = .ok spec →
      Inv (done ++ [(owner, method)]) (builder.addMethod owner spec))
    {docs : List (TypeId × MethodDoc)} {keys : List String} {builder later : Builder}
    (h : (declareAll keys docs).run builder = .ok ((), later)) (hinit : Inv [] builder) :
    Inv docs later := by
  suffices hrest : ∀ rest keys done builder, Inv done builder →
      (declareAll keys rest).run builder = .ok ((), later) → Inv (done ++ rest) later from
    hrest docs keys [] builder hinit h
  intro rest
  induction rest with
  | nil =>
    intro keys done builder hinv hrun
    obtain ⟨-, rfl⟩ := run_pure_eq_ok.mp hrun
    rwa [List.append_nil]
  | cons item rest ih =>
    intro keys done builder hinv hrun
    obtain ⟨owner, method⟩ := item
    obtain ⟨⟨⟩, same, hkey, hnext⟩ := run_bind_eq_ok.mp hrun
    obtain rfl : same = builder := by
      cases hname : method.key with
      | none =>
        rw [hname] at hkey
        exact (run_pure_eq_ok.mp hkey).2
      | some key =>
        rw [hname] at hkey
        by_cases hknown : keys.contains key
        · simp only [Option.forM, hknown, if_true] at hkey
          cases hkey
        · simp only [Option.forM, hknown] at hkey
          exact (run_pure_eq_ok.mp hkey).2
    obtain ⟨spec, _, hlift, hafter⟩ := run_bind_eq_ok.mp hnext
    obtain ⟨hspec, rfl⟩ := run_lift_eq_ok.mp hlift
    obtain ⟨⟨⟩, middle, hupdate, hrest⟩ := run_bind_eq_ok.mp hafter
    obtain rfl := run_update_eq_ok.mp hupdate
    rw [List.append_cons]
    exact ih _ _ _ (hstep done owner method spec _ hinv hspec) hrest

namespace Builder

variable (builder : Builder) (owner : TypeId) (spec : MethodSpec)

theorem modules_addMethod :
    (builder.addMethod owner spec).program.modules = builder.program.modules := by
  unfold addMethod
  split <;> rfl

theorem current_addMethod : (builder.addMethod owner spec).current = builder.current := by
  unfold addMethod
  split <;> rfl

theorem types_addMethod : (builder.addMethod owner spec).program.types =
    builder.program.types.modify owner fun type =>
      { type with members := type.members ++ [builder.program.methods.size] } := by
  unfold addMethod
  split <;> rfl

theorem size_addMethod : (builder.addMethod owner spec).program.methods.size =
    builder.program.methods.size + 1 := by
  unfold addMethod
  split <;> simp [Program.addMethod, Program.addDeclaration]

theorem getElem?_addMethod (id : MethodId) :
    (builder.addMethod owner spec).program.methods[id]? =
      if id = builder.program.methods.size then some
        { owner, name := spec.name, params := spec.params, returnType := spec.returnType
          modifiers := spec.modifiers, kind := builder.kindOf owner spec.modifiers, key := spec.key
          declarations := if spec.isExternal then [] else [builder.program.declarations.size] }
      else builder.program.methods[id]? := by
  unfold addMethod
  split
  · simp [Program.addMethod, Array.getElem?_push]
  · simp only [Program.addMethod, Program.addDeclaration, Array.getElem?_modify,
      Array.getElem?_push]
    by_cases hid : id = builder.program.methods.size
    · simp [hid]
    · simp [hid, Ne.symm hid]

theorem declarations_addMethod : (builder.addMethod owner spec).program.declarations =
    if spec.isExternal then builder.program.declarations
    else builder.program.declarations.push
      { method := builder.program.methods.size, declaredIn := builder.moduleOfType owner } := by
  unfold addMethod
  split <;> rfl

theorem declaration_addMethod {id : DeclId} {declaration : Declaration}
    (h : builder.program.declarations[id]? = some declaration) :
    (builder.addMethod owner spec).program.declarations[id]? = some declaration := by
  rw [declarations_addMethod]
  split
  · exact h
  · have hlt := (Array.getElem?_eq_some_iff.mp h).1
    rw [Array.getElem?_push, if_neg (Nat.ne_of_lt hlt), h]

theorem openAt_addMethod : (builder.addMethod owner spec).program.OpenAt
    builder.program.methods.size (builder.moduleOfType owner) spec.isExternal
      (if spec.isExternal then [] else [builder.program.declarations.size]) := by
  cases hexternal : spec.isExternal with
  | true => rfl
  | false =>
    refine ⟨_, rfl, ?_⟩
    rw [declarations_addMethod, hexternal]
    simp

end Builder

/-- The tables after some methods have been added to a builder that had none. -/
structure Builder.AddsMethods (builder : Builder) (done : List (TypeId × MethodDoc))
    (later : Builder) : Prop where
  modules : later.program.modules = builder.program.modules
  current : later.current = builder.current
  typeCount : later.program.types.size = builder.program.types.size
  types : ∀ id : TypeId, later.program.types[id]? = builder.program.types[id]?.map fun decl =>
    { decl with members := decl.members ++ MethodDoc.ownedBy id done }
  size : later.program.methods.size = done.length
  methods : ∀ (id : MethodId) owner doc, done[id]? = some (owner, doc) →
    ∃ method : Method, later.program.methods[id]? = some method ∧
      doc.DeclaredAs owner (builder.kindOf owner) method ∧
      later.program.OpenAt id (builder.moduleOfType owner) doc.isExternal method.declarations

namespace Builder.AddsMethods

variable {builder later : Builder} {done : List (TypeId × MethodDoc)}

theorem kindOf_eq (h : builder.AddsMethods done later) (owner : TypeId) (modifiers : Modifiers) :
    later.kindOf owner modifiers = builder.kindOf owner modifiers := by
  unfold kindOf
  rw [h.types owner]
  cases builder.program.types[owner]? <;> rfl

theorem moduleOfType_eq (h : builder.AddsMethods done later) (owner : TypeId) :
    later.moduleOfType owner = builder.moduleOfType owner := by
  unfold moduleOfType
  rw [h.types owner, h.current]
  cases builder.program.types[owner]? <;> rfl

theorem addMethod (h : builder.AddsMethods done later) {owner : TypeId} {doc : MethodDoc}
    {spec : MethodSpec} (hspec : doc.spec = .ok spec) :
    builder.AddsMethods (done ++ [(owner, doc)]) (later.addMethod owner spec) where
  modules := (later.modules_addMethod owner spec).trans h.modules
  current := (later.current_addMethod owner spec).trans h.current
  typeCount := by rw [types_addMethod, Array.size_modify, h.typeCount]
  types id := by
    rw [types_addMethod, Array.getElem?_modify, h.types, h.size, MethodDoc.ownedBy_concat]
    by_cases howner : owner = id
    · rw [if_pos howner, if_pos howner, Option.map_map]
      simp [Function.comp_def]
    · rw [if_neg howner, if_neg howner, List.append_nil]
  size := by rw [size_addMethod, h.size, List.length_append, List.length_singleton]
  methods := by
    obtain ⟨hname, hkey, hexternal, hmodifiers, hreturns, hparams⟩ := MethodDoc.spec_eq_ok hspec
    intro id owner' doc' hitem
    rw [getElem?_addMethod, h.size]
    by_cases hid : id = done.length
    · rw [hid, List.getElem?_concat_length] at hitem
      cases hitem
      refine ⟨_, if_pos hid, ⟨rfl, hname, hkey, hmodifiers, hreturns, hparams,
        h.kindOf_eq owner _⟩, ?_⟩
      rw [hid, ← hexternal, ← h.size, ← h.moduleOfType_eq]
      exact later.openAt_addMethod owner spec
    · have hlt : id < done.length := by
        have hlt := (List.getElem?_eq_some_iff.mp hitem).1
        rw [List.length_append, List.length_singleton] at hlt
        exact Nat.lt_of_le_of_ne (Nat.le_of_lt_succ hlt) hid
      rw [List.getElem?_append_left hlt] at hitem
      obtain ⟨method, hmethod, hdeclared, hopen⟩ := h.methods id owner' doc' hitem
      exact ⟨method, (if_neg hid).trans hmethod, hdeclared,
        hopen.mono fun _ _ hkept _ => later.declaration_addMethod owner spec hkept⟩

end Builder.AddsMethods

/-! ## The tables before bodies are made -/

namespace ProjectDoc

/-- The program has the modules, types and methods of the document, each at its place, but no bodies
and no initializers. -/
structure Outlines (doc : ProjectDoc) (program : Program) : Prop where
  modules : program.modules.toList = doc.modules.map (·.name)
  typeCount : program.types.size = doc.places.length
  types : ∀ (id : TypeId) module_ type, doc.places[id]? = some (module_, type) →
    ∃ decl, program.types[id]? = some decl ∧ type.DeclaredAs doc module_ decl ∧
      decl.members = MethodDoc.ownedBy id doc.methods ∧ decl.initializers = []
  methodCount : program.methods.size = doc.methods.length
  methods : ∀ (id : MethodId) owner method, doc.methods[id]? = some (owner, method) →
    ∃ module_ type row, doc.places[owner]? = some (module_, type) ∧
      program.methods[id]? = some row ∧ method.DeclaredAs owner type.kind.methodKind row ∧
      program.OpenAt id module_ method.isExternal row.declarations

variable {doc : ProjectDoc}

theorem exists_place_of_methods {id : MethodId} {owner : TypeId} {method : MethodDoc}
    (h : doc.methods[id]? = some (owner, method)) :
    ∃ module_ type, doc.places[owner]? = some (module_, type) := by
  obtain ⟨⟨type, id'⟩, htype, hmethod⟩ := List.mem_flatMap.mp (List.mem_of_getElem? h)
  obtain ⟨method', -, heq⟩ := List.mem_map.mp hmethod
  cases heq
  obtain ⟨module_, hplace⟩ := doc.mem_types.mp htype
  exact ⟨module_, type, hplace⟩

theorem outlines_of_declareAll {builder later : Builder} (htyped : doc.Typed builder.program)
    (hinherited : ∀ item ∈ doc.types, doc.Inherited builder.program item.2 item.1)
    (h : (MethodDoc.declareAll [] doc.methods).run builder = .ok ((), later)) :
    doc.Outlines later.program := by
  have hadds : builder.AddsMethods doc.methods later := by
    refine MethodDoc.declareAll_invariant (fun done => builder.AddsMethods done)
      (fun done owner method spec builder' hdone hspec => hdone.addMethod hspec) h
      ⟨rfl, rfl, rfl, fun id => ?_, ?_, ?_⟩
    · cases builder.program.types[id]? <;> simp [MethodDoc.ownedBy]
    · rw [htyped.rest]
      rfl
    · simp
  have htype : ∀ (id : TypeId) module_ type, doc.places[id]? = some (module_, type) →
      ∃ decl, builder.program.types[id]? = some decl ∧ type.DeclaredAs doc module_ decl ∧
        decl.members = [] ∧ decl.initializers = [] := fun id module_ type hplace =>
    hinherited (type, id) (doc.mem_types.mpr ⟨module_, hplace⟩) module_ hplace
  refine ⟨?_, ?_, ?_, hadds.size, ?_⟩
  · rw [hadds.modules, htyped.rest]
    rfl
  · rw [hadds.typeCount, htyped.size_eq]
  · intro id module_ type hplace
    obtain ⟨decl, hdecl, ⟨hname, hin, hkind, hbase, hinterfaces⟩, hmembers, hinitializers⟩ :=
      htype id module_ type hplace
    refine ⟨{ decl with members := decl.members ++ MethodDoc.ownedBy id doc.methods }, ?_,
      ⟨hname, hin, hkind, hbase, hinterfaces⟩, ?_, hinitializers⟩
    · rw [hadds.types, hdecl]
      rfl
    · rw [hmembers]
      rfl
  · intro id owner method hmethod
    obtain ⟨module_, type, hplace⟩ := exists_place_of_methods hmethod
    obtain ⟨decl, hdecl, hdeclared, -, -⟩ := htype owner module_ type hplace
    obtain ⟨row, hrow, hdeclared', hopen⟩ := hadds.methods id owner method hmethod
    have hmodule : builder.moduleOfType owner = module_ := by
      rw [Builder.moduleOfType, hdecl]
      exact hdeclared.declaredIn
    rw [Builder.kindOf_of_type hdecl, hdeclared.kind] at hdeclared'
    exact ⟨module_, type, row, hplace, hrow, hdeclared', hmodule ▸ hopen⟩

end ProjectDoc

end AsyncLift
