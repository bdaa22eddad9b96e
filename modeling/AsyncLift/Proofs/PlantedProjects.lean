import AsyncLift.Proofs.LoadedProjects
import AsyncLift.Proofs.PlantedTrees
import AsyncLift.Proofs.RegisteredRoots

/-!
# The trees of loaded projects

`Program.Planted` says that each tree of a program is a body or an initializer that is registered as
such, and that no tree has more levels than a given number. Each step that makes a body or an
initializer plants one tree and registers it (`Planted.plant`), so a loaded project has no more
levels than its document (`ProjectDoc.planted_load`), and hence, if it was read from a text, no more
than brackets may be open (`ProjectDoc.planted_of_parse?`).
-/

namespace AsyncLift

open Loading

/-! ## Trees that are registered -/

namespace Program

variable {program later : Program} {nodes : NodeStore} {root : NodeId} {levels : Nat}

/-- The method has the declaration. -/
def HasDeclaration (program : Program) (method : MethodId) (id : DeclId) : Prop :=
  ∃ row : Method, program.methods[method]? = some row ∧ id ∈ row.declarations

/-- The node is noted as the body of a declaration that has it and is one of its method's, or it is
an initializer of a type; either way the module is noted in which it is written. -/
def Registered (program : Program) (root : NodeId) : Prop :=
  (∃ (id : DeclId) (declaration : Declaration), program.bodyOwner.find? root = some id ∧
      program.declarations[id]? = some declaration ∧ declaration.body = some root ∧
      program.rootModule.find? root = some declaration.declaredIn ∧
      program.HasDeclaration declaration.method id) ∨
    ∃ (id : TypeId) (type : TypeDecl), program.types[id]? = some type ∧
      root ∈ type.initializers ∧ program.rootModule.find? root = some type.declaredIn

theorem HasDeclaration.modify {method other : MethodId} {id : DeclId} {change : Method → Method}
    (h : program.HasDeclaration method id)
    (hchange : ∀ row : Method, id ∈ row.declarations → id ∈ (change row).declarations) :
    HasDeclaration { program with methods := program.methods.modify other change } method id := by
  obtain ⟨row, hrow, hid⟩ := h
  unfold HasDeclaration
  rw [Array.getElem?_modify, hrow]
  by_cases hother : other = method
  · rw [if_pos hother]
    exact ⟨change row, rfl, hchange row hid⟩
  · rw [if_neg hother]
    exact ⟨row, rfl, hid⟩

theorem Registered.isRoot (h : program.Registered root) : program.IsRoot root := by
  rcases h with ⟨id, declaration, -, hdeclaration, hbody, -, -⟩ | ⟨id, type, htype, hinit, -⟩
  · exact .inl ⟨declaration, Array.mem_of_getElem? hdeclaration, hbody⟩
  · exact .inr ⟨type, Array.mem_of_getElem? htype, hinit⟩

/-- The nodes are a forest, bodies and initializers are tops of trees, and from each node a walk of
the given number of levels leads to one of them. -/
structure Planted (program : Program) (levels : Nat) : Prop where
  forest : program.nodes.Forest
  roots : ∀ root, program.IsRoot root →
    root < program.nodes.size ∧ program.nodes.parent? root = none
  climbs : ∀ id < program.nodes.size,
    ∃ root, program.nodes.climb levels id = some root ∧ program.Registered root

namespace Planted

/-- One tree more, which is registered. -/
theorem plant (h : program.Planted levels)
    (hplants : program.nodes.Plants [root] levels later.nodes)
    (hroots : ∀ other, later.IsRoot other → program.IsRoot other ∨ other = root)
    (hkept : ∀ other ≠ root, program.Registered other → later.Registered other)
    (hroot : later.Registered root) : later.Planted levels := by
  obtain ⟨hge, hlt, htop⟩ := hplants.fresh root (List.mem_singleton_self root)
  refine ⟨hplants.forest, fun other hother => ?_, fun id hid => ?_⟩
  · rcases hroots other hother with hold | rfl
    · obtain ⟨hknown, hparent⟩ := h.roots other hold
      exact ⟨Nat.lt_of_lt_of_le hknown hplants.size_le,
        (hplants.parent?_eq other hknown).trans hparent⟩
    · exact ⟨hlt, htop⟩
  · by_cases hold : id < program.nodes.size
    · obtain ⟨other, hclimb, hother⟩ := h.climbs id hold
      refine ⟨other, ?_, hkept other ?_ hother⟩
      · rw [NodeStore.climb_eq_of_parent?_eq h.forest.linked hplants.parent?_eq hold]
        exact hclimb
      · rintro rfl
        exact Nat.not_lt.mpr hge (h.roots other hother.isRoot).1
    · obtain ⟨top, hmem, hclimb⟩ := hplants.climbs id (Nat.le_of_not_lt hold) hid
      rw [List.mem_singleton.mp hmem] at hclimb
      exact ⟨root, hclimb, hroot⟩

theorem addDeclaration (h : program.Planted levels) {declaration : Declaration} {method : Method}
    (hplants : program.nodes.Plants [root] levels nodes)
    (hbody : declaration.body = some root)
    (hmethod : program.methods[declaration.method]? = some method) :
    (Program.addDeclaration { program with nodes } declaration).Planted levels := by
  simp only [Program.addDeclaration, hbody, registerBody]
  refine h.plant hplants ?_ ?_ ?_
  · rintro other (⟨row, hrow, hother⟩ | hinit)
    · rcases Array.mem_push.mp hrow with hold | rfl
      · exact .inl (.inl ⟨row, hold, hother⟩)
      · exact .inr (Option.some.inj (hother.symm.trans hbody))
    · exact .inl (.inr hinit)
  · rintro other hne (⟨id, row, howner, hrow, hother, hmodule, hlisted⟩ |
      ⟨id, type, htype, hinit, hmodule⟩)
    · have hlt := (Array.getElem?_eq_some_iff.mp hrow).1
      refine .inl ⟨id, row, ?_, ?_, hother, ?_, ?_⟩
      · rw [Register.find?_insert, if_neg hne, howner]
      · rw [Array.getElem?_push, if_neg (Nat.ne_of_lt hlt), hrow]
      · rw [Register.find?_insert, if_neg hne, hmodule]
      · exact hlisted.modify fun _ => List.mem_append_left _
    · refine .inr ⟨id, type, htype, hinit, ?_⟩
      rw [Register.find?_insert, if_neg hne, hmodule]
  · refine .inl ⟨program.declarations.size, declaration, ?_, ?_, hbody, ?_, ?_⟩
    · rw [Register.find?_insert, if_pos rfl]
    · rw [Array.getElem?_push, if_pos rfl]
    · rw [Register.find?_insert, if_pos rfl]
    · refine ⟨{ method with declarations := method.declarations ++ [program.declarations.size] },
        ?_, List.mem_append_right _ (List.mem_singleton_self _)⟩
      rw [Array.getElem?_modify, if_pos rfl, hmethod]
      rfl

theorem attachBody (h : program.Planted levels) {id : DeclId} {declaration : Declaration}
    (hplants : program.nodes.Plants [root] levels nodes)
    (hdeclaration : program.declarations[id]? = some declaration)
    (hnone : declaration.body = none) (hlisted : program.HasDeclaration declaration.method id) :
    (Program.attachBody { program with nodes } id root).Planted levels := by
  simp only [Program.attachBody, hdeclaration, hnone, registerBody]
  refine h.plant hplants ?_ ?_ ?_
  · rintro other (⟨row, hrow, hother⟩ | hinit)
    · dsimp only at hrow
      obtain ⟨old, hold, rfl | rfl⟩ := exists_of_mem_modify hrow
      · exact .inl (.inl ⟨_, hold, hother⟩)
      · exact .inr (Option.some.inj hother).symm
    · exact .inl (.inr hinit)
  · rintro other hne (⟨id', row, howner, hrow, hother, hmodule, hrowListed⟩ |
      ⟨id', type, htype, hinit, hmodule⟩)
    · have hid : id ≠ id' := by
        rintro rfl
        cases hdeclaration.symm.trans hrow
        cases hnone.symm.trans hother
      refine .inl ⟨id', row, ?_, ?_, hother, ?_, hrowListed⟩
      · rw [Register.find?_insert, if_neg hne, howner]
      · rw [Array.getElem?_modify, if_neg hid, hrow]
      · rw [Register.find?_insert, if_neg hne, hmodule]
    · refine .inr ⟨id', type, htype, hinit, ?_⟩
      rw [Register.find?_insert, if_neg hne, hmodule]
  · refine .inl ⟨id, { declaration with body := some root }, ?_, ?_, rfl, ?_, hlisted⟩
    · rw [Register.find?_insert, if_pos rfl]
    · rw [Array.getElem?_modify, if_pos rfl, hdeclaration]
      rfl
    · rw [Register.find?_insert, if_pos rfl]

theorem addInitializer (h : program.Planted levels) {id : TypeId} {decl : TypeDecl}
    (hplants : program.nodes.Plants [root] levels nodes)
    (hdecl : program.types[id]? = some decl) :
    (Program.addInitializer { program with nodes } id root).Planted levels := by
  simp only [Program.addInitializer, hdecl]
  refine h.plant hplants ?_ ?_ ?_
  · rintro other (hbody | ⟨row, hrow, hother⟩)
    · exact .inl (.inl hbody)
    · dsimp only at hrow
      obtain ⟨old, hold, rfl | rfl⟩ := exists_of_mem_modify hrow
      · exact .inl (.inr ⟨_, hold, hother⟩)
      · rcases List.mem_append.mp hother with hbefore | hlast
        · exact .inl (.inr ⟨old, hold, hbefore⟩)
        · exact .inr (List.mem_singleton.mp hlast)
  · rintro other hne (⟨id', row, howner, hrow, hother, hmodule, hlisted⟩ |
      ⟨id', type, htype, hinit, hmodule⟩)
    · refine .inl ⟨id', row, howner, hrow, hother, ?_, hlisted⟩
      rw [Register.find?_insert, if_neg hne, hmodule]
    · have hmodule' : (program.rootModule.insert root decl.declaredIn).find? other =
          some type.declaredIn := by rw [Register.find?_insert, if_neg hne, hmodule]
      by_cases hid : id = id'
      · subst hid
        refine .inr ⟨id, { type with initializers := type.initializers ++ [root] }, ?_,
          List.mem_append_left _ hinit, hmodule'⟩
        rw [Array.getElem?_modify, if_pos rfl, htype]
        rfl
      · refine .inr ⟨id', type, ?_, hinit, hmodule'⟩
        rw [Array.getElem?_modify, if_neg hid, htype]
  · refine .inr ⟨id, { decl with initializers := decl.initializers ++ [root] }, ?_,
      List.mem_append_right _ (List.mem_singleton_self root), ?_⟩
    · rw [Array.getElem?_modify, if_pos rfl, hdecl]
      rfl
    · rw [Register.find?_insert, if_pos rfl]

end Planted

end Program

/-! ## Loading -/

/-- A block over lowered statements becomes another part of a method. -/
theorem Builder.planted_addPart {builder lowered : Builder} {levels : Nat} {slots : List Slot}
    {id : MethodId} {method : Method} (h : builder.program.Planted levels)
    (hadds : builder.AddsNodes lowered)
    (hplants : builder.program.nodes.Plants [lowered.program.nodes.size] levels
      (lowered.program.nodes.add (.block slots)))
    (hmethod : builder.program.methods[id]? = some method) :
    (lowered.addPart id slots).2.program.Planted levels ∧
      (lowered.addPart id slots).2.program.methods.size = builder.program.methods.size := by
  have hpart : (lowered.addPart id slots).2.program = Program.addDeclaration
      { builder.program with nodes := lowered.program.nodes.add (.block slots) }
      { method := id
        declaredIn := lowered.moduleOfMethod id
        body := some lowered.program.nodes.size } := by
    rw [hadds.tables]
    rfl
  rw [hpart]
  refine ⟨h.addDeclaration hplants rfl hmethod, ?_⟩
  simp [Program.addDeclaration, Program.registerBody]

namespace Loading

variable {builder later : Builder} {levels : Nat} {stmts : List StmtDoc} {id : MethodId}

theorem planted_of_part {method : Method} (h : builder.program.Planted levels)
    (hmethod : builder.program.methods[id]? = some method)
    (hlevels : StmtDoc.levelsOfList stmts < levels)
    (hrun : (do
      let slots ← StmtDoc.lowerList stmts
      update fun builder => (builder.addPart id slots).2).run builder = .ok ((), later)) :
    later.program.Planted levels ∧
      later.program.methods.size = builder.program.methods.size := by
  obtain ⟨slots, lowered, hlower, hupdate⟩ := run_bind_eq_ok.mp hrun
  obtain rfl := run_update_eq_ok.mp hupdate
  obtain ⟨hadds, -⟩ := StmtDoc.lowerList_spec stmts hlower
  have hplants := ((StmtDoc.lowerList_plants stmts h.forest hlower).add rfl).mono hlevels
  exact Builder.planted_addPart h hadds hplants hmethod

theorem planted_of_body {module_ : ModuleId} {isExternal : Bool}
    (h : builder.program.Planted levels) (hopen : builder.program.Undefined id module_ isExternal)
    (hlevels : StmtDoc.levelsOfList stmts < levels)
    (hrun : (do
      let slots ← StmtDoc.lowerList stmts
      update fun builder => (builder.setBody id slots).2).run builder = .ok ((), later)) :
    later.program.Planted levels ∧
      later.program.methods.size = builder.program.methods.size := by
  obtain ⟨slots, lowered, hlower, hupdate⟩ := run_bind_eq_ok.mp hrun
  obtain rfl := run_update_eq_ok.mp hupdate
  obtain ⟨hadds, -⟩ := StmtDoc.lowerList_spec stmts hlower
  obtain ⟨method, hmethod, hopen⟩ := hopen
  have hplants := ((StmtDoc.lowerList_plants stmts h.forest hlower).add rfl).mono hlevels
  have hrow : lowered.program.methods[id]? = some method := by
    rw [hadds.tables]
    exact hmethod
  cases isExternal with
  | true =>
    have hempty : method.declarations = [] := hopen
    have hset : (lowered.setBody id slots).2 = (lowered.addPart id slots).2 := by
      simp [Builder.setBody, hrow, hempty]
    rw [hset]
    exact Builder.planted_addPart h hadds hplants hmethod
  | false =>
    obtain ⟨first, hfirst, hdeclaration⟩ := hopen
    have hset : (lowered.setBody id slots).2.program =
        (lowered.addNode (.block slots)).2.program.attachBody first
          (lowered.addNode (.block slots)).1 := by
      simp [Builder.setBody, hrow, hfirst]
    have hlisted : builder.program.HasDeclaration id first :=
      ⟨method, hmethod, hfirst ▸ List.mem_singleton_self first⟩
    rw [hset, hadds.tables]
    refine ⟨h.attachBody hplants hdeclaration rfl hlisted, ?_⟩
    simp [Builder.addNode, Program.addNode, Program.attachBody, Program.registerBody, hdeclaration]

end Loading

theorem MethodDoc.planted_of_define (doc : MethodDoc) {id : MethodId} {module_ : ModuleId}
    {levels : Nat} {builder later : Builder} (h : builder.program.Planted levels)
    (hopen : builder.program.Undefined id module_ doc.isExternal)
    (hlevels : doc.LevelsAtMost levels) (hrun : (doc.define id).run builder = .ok ((), later)) :
    later.program.Planted levels := by
  obtain ⟨⟨⟩, middle, hbody, hparts⟩ := run_bind_eq_ok.mp hrun
  have ⟨method, hmethod, _⟩ := hopen
  have hknown := (Array.getElem?_eq_some_iff.mp hmethod).1
  have hfirst : middle.program.Planted levels ∧ id < middle.program.methods.size := by
    cases hdoc : doc.body with
    | none =>
      rw [hdoc] at hbody
      obtain ⟨-, rfl⟩ := run_pure_eq_ok.mp hbody
      exact ⟨h, hknown⟩
    | some body =>
      rw [hdoc] at hbody
      obtain ⟨hplanted, hsize⟩ := planted_of_body h hopen (hlevels.body body hdoc) hbody
      exact ⟨hplanted, hsize ▸ hknown⟩
  refine (forM_invariant (fun _ builder => builder.program.Planted levels ∧
    id < builder.program.methods.size) ?_ hparts hfirst).1
  rintro done part first last hpart ⟨hplanted, hlt⟩ hstep
  obtain ⟨hlater, hsize⟩ := planted_of_part hplanted (Array.getElem?_eq_getElem hlt)
    (hlevels.parts part hpart) hstep
  exact ⟨hlater, hsize ▸ hlt⟩

/-- An initializer of a type that is in the table. -/
theorem FieldDoc.planted_of_define (doc : FieldDoc) {owner : TypeId} {levels : Nat}
    {builder later : Builder} (h : builder.program.Planted levels)
    (howner : owner < builder.program.types.size) (hlevels : doc.LevelsAtMost levels)
    (hrun : (doc.define owner).run builder = .ok ((), later)) :
    later.program.Planted levels ∧ later.program.types.size = builder.program.types.size := by
  obtain ⟨init, lowered, hlower, hupdate⟩ := run_bind_eq_ok.mp hrun
  obtain rfl := run_update_eq_ok.mp hupdate
  obtain ⟨hadds, -⟩ := doc.init.lower_spec hlower
  have hplants : builder.program.nodes.Plants [lowered.program.nodes.size] (doc.init.levels + 1)
      (lowered.program.nodes.add (.initializer doc.name (some init))) :=
    (doc.init.lower_plants h.forest hlower).add rfl
  have hdecl := Array.getElem?_eq_getElem howner
  rw [hadds.tables]
  refine ⟨h.addInitializer (hplants.mono hlevels) hdecl, ?_⟩
  simp [Builder.addField, Builder.addNode, Program.addNode, Program.addInitializer, hdecl]

theorem MethodDoc.mem_ownedBy {type : TypeId} {methods : List (TypeId × MethodDoc)}
    {id : MethodId} : id ∈ ownedBy type methods ↔ ∃ method, methods[id]? = some (type, method) := by
  simp [ownedBy, List.mk_mem_zipIdx_iff_getElem?]

/-- A method is added without a body. -/
theorem Builder.isRoot_of_addMethod {builder : Builder} {owner : TypeId} {spec : MethodSpec}
    {root : NodeId} (h : (builder.addMethod owner spec).program.IsRoot root) :
    builder.program.IsRoot root := by
  rcases h with ⟨row, hrow, hbody⟩ | ⟨type, htype, hroot⟩
  · rw [declarations_addMethod] at hrow
    split at hrow
    · exact .inl ⟨row, hrow, hbody⟩
    · rcases Array.mem_push.mp hrow with hold | rfl
      · exact .inl ⟨row, hold, hbody⟩
      · cases hbody
  · rw [types_addMethod] at htype
    obtain ⟨old, hold, rfl | rfl⟩ := exists_of_mem_modify htype
    · exact .inr ⟨_, hold, hroot⟩
    · exact .inr ⟨old, hold, hroot⟩

namespace ProjectDoc

variable {doc : ProjectDoc} {builder later : Builder} {levels : Nat}

theorem method_levelsAtMost (h : doc.LevelsAtMost levels) {owner : TypeId} {method : MethodDoc}
    (hmethod : (owner, method) ∈ doc.methods) : method.LevelsAtMost levels := by
  obtain ⟨⟨type, id⟩, htype, hmem⟩ := List.mem_flatMap.mp hmethod
  obtain ⟨listed, hlisted, heq⟩ := List.mem_map.mp hmem
  cases heq
  obtain ⟨module_, hmodule, hin⟩ := List.mem_flatMap.mp (List.fst_mem_of_mem_zipIdx htype)
  exact (h module_ hmodule type hin).methods method hlisted

/-- Before any body is made there are neither nodes nor roots. -/
theorem planted_of_declareAll (htyped : doc.Typed builder.program)
    (hinherited : ∀ item ∈ doc.types, doc.Inherited builder.program item.2 item.1)
    (h : (MethodDoc.declareAll [] doc.methods).run builder = .ok ((), later)) :
    later.program.Planted levels := by
  obtain ⟨hsize, hroots⟩ : later.program.nodes.size = 0 ∧ ∀ root, ¬ later.program.IsRoot root := by
    refine MethodDoc.declareAll_invariant (fun _ builder => builder.program.nodes.size = 0 ∧
      ∀ root, ¬ builder.program.IsRoot root) ?_ h ⟨?_, ?_⟩
    · rintro done owner method spec first ⟨hsize, hroots⟩ -
      refine ⟨?_, fun root hroot => hroots root (Builder.isRoot_of_addMethod hroot)⟩
      unfold Builder.addMethod
      split <;> exact hsize
    · rw [htyped.rest]
      rfl
    · rintro root (⟨declaration, hdeclaration, -⟩ | ⟨type, htype, hroot⟩)
      · rw [htyped.rest] at hdeclaration
        exact absurd hdeclaration (Array.not_mem_empty _)
      · obtain ⟨id, hid⟩ := Array.mem_iff_getElem?.mp htype
        have hlt := (Array.getElem?_eq_some_iff.mp hid).1
        rw [htyped.size_eq] at hlt
        have hplace := List.getElem?_eq_getElem hlt
        obtain ⟨decl, hdecl, -, -, hinitializers⟩ :=
          hinherited _ (doc.mem_types.mpr ⟨_, hplace⟩) _ hplace
        cases hid.symm.trans hdecl
        rw [hinitializers] at hroot
        cases hroot
  have hnone : ∀ id, ¬ id < later.program.nodes.size := by
    intro id hid
    rw [hsize] at hid
    exact Nat.not_lt_zero id hid
  have hdepth : later.program.nodes.DepthAtMost 0 := fun id hid => absurd hid (hnone id)
  refine ⟨NodeStore.forest_of_depth hdepth ?_ ?_ ?_, ?_, ?_⟩
  · exact fun id hid => absurd hid (hnone id)
  · exact fun id hid => absurd hid (hnone id)
  · exact fun id hid => absurd hid (hnone id)
  · exact fun root hroot => absurd hroot (hroots root)
  · exact fun id hid => absurd hid (hnone id)

theorem planted_of_define (houtlines : doc.Outlines builder.program)
    (hlevels : doc.LevelsAtMost levels) (hplanted : builder.program.Planted levels)
    (h : (doc.methods.zipIdx.forM fun ((_, method), id) => method.define id).run builder =
      .ok ((), later)) : later.program.Planted levels := by
  refine (forM_each (fun builder => builder.program.Planted levels)
    (fun id builder later => builder.program.GrowsAt (.method id) later.program)
    (fun item builder => item.1 ∈ doc.methods ∧ ∃ module_, builder.program.LiesIn item.2 module_ ∧
      builder.program.Undefined item.2 module_ item.1.2.isExternal)
    (fun _ _ => True) (List.nodup_zipIdx_map_snd _) ?_ ?_ (fun _ _ _ _ _ _ h => h) h hplanted
    ?_).1
  · rintro ⟨⟨owner, method⟩, id⟩ first last hfirst ⟨hmethod, module_, hlies, hopen⟩ hstep
    obtain ⟨hgrows, -⟩ := method.define_spec hlies hopen hstep
    have hmethod := method_levelsAtMost hlevels hmethod
    exact ⟨method.planted_of_define hfirst hopen hmethod hstep, trivial, hgrows⟩
  · rintro item id first last hgrows hid ⟨hmethod, module_, hlies, hopen⟩
    have howner : TreeOwner.method id ≠ .method item.2 := fun heq => hid (by cases heq; rfl)
    exact ⟨hmethod, module_, hlies.of_heads hgrows.heads, hopen.grown hgrows howner⟩
  · rintro ⟨⟨owner, method⟩, id⟩ hitem
    have hplace := List.mk_mem_zipIdx_iff_getElem?.mp hitem
    obtain ⟨module_, type, row, hplace', hrow, hdeclared, hopen⟩ :=
      houtlines.methods id owner method hplace
    obtain ⟨decl, hdecl, hdeclared', -, -⟩ := houtlines.types owner module_ type hplace'
    exact ⟨List.mem_of_getElem? hplace, module_,
      ⟨row, decl, hrow, hdeclared.owner.symm ▸ hdecl, hdeclared'.declaredIn⟩, row, hrow, hopen⟩

theorem planted_of_defineFields (hlevels : doc.LevelsAtMost levels)
    (hsize : builder.program.types.size = doc.places.length)
    (hplanted : builder.program.Planted levels)
    (h : (doc.types.forM fun (type, id) => type.fields.forM fun field => field.define id).run
      builder = .ok ((), later)) : later.program.Planted levels := by
  refine (forM_invariant (fun _ builder => builder.program.Planted levels ∧
    builder.program.types.size = doc.places.length) ?_ h ⟨hplanted, hsize⟩).1
  rintro done ⟨type, id⟩ first last htype hfirst hstep
  obtain ⟨module_, hplace⟩ := doc.mem_types.mp htype
  have hid := (List.getElem?_eq_some_iff.mp hplace).1
  obtain ⟨written, hwritten, hin⟩ := List.mem_flatMap.mp (List.fst_mem_of_mem_zipIdx htype)
  refine forM_invariant (fun _ builder => builder.program.Planted levels ∧
    builder.program.types.size = doc.places.length) ?_ hstep hfirst
  rintro done field first last hfield ⟨hplanted, hsize⟩ hstep
  have hfield := (hlevels written hwritten type hin).fields field hfield
  obtain ⟨hlater, hsame⟩ := field.planted_of_define hplanted (hsize ▸ hid) hfield hstep
  exact ⟨hlater, hsame.trans hsize⟩

/-- The outline of a loaded program, and how it came by its bodies and its initializers. -/
theorem stages_of_load {program : Program} (h : doc.load = .ok program) :
    ∃ outlined defined last : Builder, doc.Outlines outlined.program ∧
      (∀ levels, outlined.program.Planted levels) ∧
      (doc.methods.zipIdx.forM fun ((_, method), id) => method.define id).run outlined =
        .ok ((), defined) ∧
      (doc.types.forM fun (type, id) => type.fields.forM fun field => field.define id).run
        defined = .ok ((), last) ∧
      last.program = program := by
  obtain ⟨last, hbuild, -, hlast⟩ := load_eq_ok.mp h
  obtain ⟨⟨⟩, declared, hdeclare, hbuild⟩ := run_bind_eq_ok.mp hbuild
  obtain ⟨⟨⟩, inherited, hinherit, hbuild⟩ := run_bind_eq_ok.mp hbuild
  obtain ⟨⟨⟩, outlined, hmethods, hbuild⟩ := run_bind_eq_ok.mp hbuild
  obtain ⟨⟨⟩, defined, hdefine, hfields⟩ := run_bind_eq_ok.mp hbuild
  obtain ⟨htyped, hinherited⟩ := inherited_of_inherit (doc.bare_of_declare hdeclare) hinherit
  exact ⟨outlined, defined, last, outlines_of_declareAll htyped hinherited hmethods,
    fun _ => planted_of_declareAll htyped hinherited hmethods, hdefine, hfields, hlast⟩

/-- When bodies and initializers are made the rest of the outline stays as it is. -/
theorem filled_of_stages {outlined defined last : Builder}
    (houtlines : doc.Outlines outlined.program)
    (hdefine : (doc.methods.zipIdx.forM fun ((_, method), id) => method.define id).run outlined =
      .ok ((), defined))
    (hfields : (doc.types.forM fun (type, id) =>
      type.fields.forM fun field => field.define id).run defined = .ok ((), last)) :
    last.program.heads = outlined.program.heads ∧
      (∀ item ∈ doc.methods.zipIdx, ∃ module_,
        last.program.DeclaresAll item.2 module_ item.1.2.bodies) ∧
      ∀ item ∈ doc.types, last.program.Initializes item.2 item.1.fields := by
  obtain ⟨⟨hheads, htypes⟩, hbodies⟩ := declaresAll_of_define houtlines hdefine
  have hnone : ∀ item ∈ doc.types, defined.program.Initializes item.2 [] := by
    rintro ⟨type, id⟩ hitem
    obtain ⟨module_, hplace⟩ := doc.mem_types.mp hitem
    obtain ⟨decl, hdecl, -, -, hinitializers⟩ := houtlines.types id module_ type hplace
    exact ⟨decl, (htypes id).trans hdecl, hinitializers ▸ .nil⟩
  obtain ⟨⟨hheads', hkept⟩, hinitializes⟩ := initializes_of_define hnone hfields
  refine ⟨hheads'.trans hheads, fun item hitem => ?_, hinitializes⟩
  obtain ⟨module_, -, -, hall⟩ := hbodies item hitem
  exact ⟨module_, hkept _ _ _ hall⟩

section

variable {outline program : Program} (h : doc.Outlines outline)
  (hheads : program.heads = outline.heads)

include h hheads

/-- Every method stands in the document. -/
theorem Outlines.exists_method_of_row {id : MethodId} {row : Method}
    (hrow : program.methods[id]? = some row) : ∃ item, doc.methods[id]? = some item := by
  have hlt : id < doc.methods.length := by
    have hcount := congrArg (·.methods.size) hheads
    simp only [Program.heads, Array.size_map] at hcount
    rw [← h.methodCount, ← hcount]
    exact (Array.getElem?_eq_some_iff.mp hrow).1
  exact ⟨_, List.getElem?_eq_getElem hlt⟩

/-- Every type stands in the document. -/
theorem Outlines.exists_place_of_row {id : TypeId} {decl : TypeDecl}
    (hdecl : program.types[id]? = some decl) : ∃ place, doc.places[id]? = some place := by
  have hlt : id < doc.places.length := by
    have hcount := congrArg (·.types.size) hheads
    simp only [Program.heads, Array.size_map] at hcount
    rw [← h.typeCount, ← hcount]
    exact (Array.getElem?_eq_some_iff.mp hdecl).1
  exact ⟨_, List.getElem?_eq_getElem hlt⟩

/-- A type of the document is there with its members. -/
theorem Outlines.exists_type_row {id : TypeId} {module_ : ModuleId} {type : TypeDoc}
    (hplace : doc.places[id]? = some (module_, type)) :
    ∃ decl, program.types[id]? = some decl ∧ decl.kind = type.kind ∧
      decl.members = MethodDoc.ownedBy id doc.methods := by
  obtain ⟨decl, hdecl, hdeclared, hmembers, -⟩ := h.types id module_ type hplace
  obtain ⟨decl', hdecl', hhead⟩ := Program.exists_type_of_heads hheads hdecl
  exact ⟨decl', hdecl', (hdeclared.of_head hhead).kind,
    (congrArg TypeDecl.members hhead).trans hmembers⟩

/-- A method of the document is there with its owner, and its kind is by that of the owner. -/
theorem Outlines.exists_method_row {id : MethodId} {owner : TypeId} {method : MethodDoc}
    (hmethod : doc.methods[id]? = some (owner, method)) :
    ∃ row module_ type, program.methods[id]? = some row ∧ row.owner = owner ∧
      doc.places[owner]? = some (module_, type) ∧
      row.kind = type.kind.methodKind row.modifiers := by
  obtain ⟨module_, type, row, hplace, hrow, hdeclared, -⟩ := h.methods id owner method hmethod
  obtain ⟨row', hrow', hhead⟩ := Program.exists_method_of_heads hheads hrow
  have hdeclared' := hdeclared.of_head hhead
  exact ⟨row', module_, type, hrow', hdeclared'.owner, hplace, hdeclared'.kind⟩

end

/-- A method of a loaded program has the bodies that the document gives it, and its owner has it
among its members. -/
theorem bodies_of_load {program : Program} (h : doc.load = .ok program) {id : MethodId}
    {row : Method} (hrow : program.methods[id]? = some row) :
    ∃ owner method module_, (owner, method) ∈ doc.methods ∧
      List.Forall₂ (program.DeclaresBody id module_) method.bodies row.declarations ∧
      ∃ decl, program.types[owner]? = some decl ∧ id ∈ decl.members := by
  obtain ⟨outlined, defined, last, houtlines, -, hdefine, hfields, rfl⟩ := stages_of_load h
  obtain ⟨hheads, hbodies, -⟩ := filled_of_stages houtlines hdefine hfields
  obtain ⟨⟨owner, method⟩, hplace⟩ := houtlines.exists_method_of_row hheads hrow
  obtain ⟨module_, row', hrow', hall⟩ := hbodies ((owner, method), id)
    (List.mk_mem_zipIdx_iff_getElem?.mpr hplace)
  cases hrow.symm.trans hrow'
  refine ⟨owner, method, module_, List.mem_of_getElem? hplace, hall, ?_⟩
  obtain ⟨module', type, -, htype, -⟩ := houtlines.methods id owner method hplace
  obtain ⟨decl, hdecl, -, hmembers⟩ := houtlines.exists_type_row hheads htype
  refine ⟨decl, hdecl, ?_⟩
  rw [hmembers]
  exact MethodDoc.mem_ownedBy.mpr ⟨_, hplace⟩

/-- A type of a loaded program has the initializers of its fields. -/
theorem initializers_of_load {program : Program} (h : doc.load = .ok program) {id : TypeId}
    {decl : TypeDecl} (hdecl : program.types[id]? = some decl) :
    ∃ module_ type, doc.places[id]? = some (module_, type) ∧
      List.Forall₂ (FieldDoc.StandsAt program) type.fields decl.initializers := by
  obtain ⟨outlined, defined, last, houtlines, -, hdefine, hfields, rfl⟩ := stages_of_load h
  obtain ⟨hheads, -, hinitializes⟩ := filled_of_stages houtlines hdefine hfields
  obtain ⟨⟨module_, type⟩, hplace⟩ := houtlines.exists_place_of_row hheads hdecl
  obtain ⟨decl', hdecl', hall⟩ := hinitializes _ (doc.mem_types.mpr ⟨_, hplace⟩)
  cases hdecl.symm.trans hdecl'
  exact ⟨_, _, hplace, hall⟩

/-- In a loaded program every tree is a registered body or initializer, and no tree has more levels
than the document. -/
theorem planted_load {program : Program} (hlevels : doc.LevelsAtMost levels)
    (h : doc.load = .ok program) : program.Planted levels := by
  obtain ⟨outlined, defined, last, houtlines, hplanted, hdefine, hfields, rfl⟩ := stages_of_load h
  obtain ⟨⟨hheads, -⟩, -⟩ := declaresAll_of_define houtlines hdefine
  have hsize : defined.program.types.size = doc.places.length := by
    have hheads := congrArg (·.types.size) hheads
    simp only [Program.heads, Array.size_map] at hheads
    rw [hheads, houtlines.typeCount]
  have hdefined := planted_of_define houtlines hlevels (hplanted levels) hdefine
  exact planted_of_defineFields hlevels hsize hdefined hfields

theorem planted_of_parse? {text : String} {program : Program} (hparse : parse? text = some doc)
    (h : doc.load = .ok program) : program.Planted Document.nestingLimit :=
  planted_load (levelsAtMost_parse? hparse) h

/-- A text is loaded if it reads as a project that is built to a valid program. -/
theorem exists_load_of_build {text : String} {builder : Builder}
    (hbuild : (parse? text).map (·.build.run {}) = some (.ok ((), builder)))
    (hvalid : builder.program.validate = .ok ()) :
    ∃ doc, parse? text = some doc ∧ doc.load = .ok builder.program := by
  obtain ⟨doc, hparse, hrun⟩ := Option.map_eq_some_iff.mp hbuild
  exact ⟨doc, hparse, load_eq_ok.mpr ⟨builder, hrun, hvalid, rfl⟩⟩

end ProjectDoc

end AsyncLift
