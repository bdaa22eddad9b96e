import AsyncLift.Proofs.MemberTables

/-!
# The rules of overriding

What a method overrides is said here in terms of classes and interfaces, without the searches:

* a method marked `override` overrides the first matching member of the nearest class above its own
  that has one (`OverridesBase`);
* a method implements the first matching member of an interface if some class lists the interface,
  or one that extends it, and has the method as its own, that is, the owner of the method is the
  nearest class from there upwards that has it or a match as a member (`Implements`).

In a program that was loaded, or built from types that were there, these are the override targets,
as long as chains of types are not longer than the walks (`overrideTargets_by_rules`). It does not
matter that one search goes through the interfaces of all the classes, and enters an interface only
once.
-/

namespace AsyncLift

namespace Program

variable {program : Program} {id found target member : MethodId} {method : Method}
  {type start base interface : TypeId} {levels classes : Nat} {p : TypeId → Prop}

/-! ## Matching members -/

/-- Another method that is not static, with the name and the parameter types of the method. -/
def Matches (program : Program) (id other : MethodId) : Prop :=
  other ≠ id ∧ ∃ method row, program.methods[id]? = some method ∧
    program.methods[other]? = some row ∧ row.isStatic = false ∧ row.name = method.name ∧
    row.paramTypes = method.paramTypes

/-- The member of the type that matches the method, with none before it that does. -/
def FirstMatch (program : Program) (id : MethodId) (type : TypeId) (member : MethodId) : Prop :=
  ∃ before after, program.membersOf type = before ++ member :: after ∧
    program.Matches id member ∧ ∀ earlier ∈ before, ¬ program.Matches id earlier

/-- The type has a member that matches the method. -/
def HasMatch (program : Program) (id : MethodId) (type : TypeId) : Prop :=
  ∃ member ∈ program.membersOf type, program.Matches id member

/-- The type has the method or one that matches it as a member. -/
def Provides (program : Program) (id : MethodId) (type : TypeId) : Prop :=
  ∃ member ∈ program.membersOf type, member = id ∨ program.Matches id member

theorem isMatch_eq_true (hmethod : program.methods[id]? = some method) :
    program.isMatch id method found = true ↔ program.Matches id found := by
  rw [isMatch_iff]
  constructor
  · rintro ⟨hne, row, hrow, hstatic, hname, hparams⟩
    exact ⟨hne, method, row, hmethod, hrow, hstatic, hname, hparams⟩
  · rintro ⟨hne, method', row, hmethod', hrow, hstatic, hname, hparams⟩
    cases hmethod.symm.trans hmethod'
    exact ⟨hne, row, hrow, hstatic, hname, hparams⟩

theorem matchingMember?_eq_some (hmethod : program.methods[id]? = some method) :
    program.matchingMember? id method type = some found ↔ program.FirstMatch id type found := by
  rw [matchingMember?_eq_find?, List.find?_eq_some_iff_append]
  constructor
  · rintro ⟨hmatch, before, after, hmembers, hbefore⟩
    refine ⟨before, after, hmembers, (isMatch_eq_true hmethod).mp hmatch, ?_⟩
    intro earlier hearlier hmatch
    have hnone := hbefore earlier hearlier
    rw [(isMatch_eq_true hmethod).mpr hmatch] at hnone
    cases hnone
  · rintro ⟨before, after, hmembers, hmatch, hbefore⟩
    refine ⟨(isMatch_eq_true hmethod).mpr hmatch, before, after, hmembers, ?_⟩
    intro earlier hearlier
    rw [Bool.not_eq_true', Bool.eq_false_iff]
    exact fun hmatch => hbefore earlier hearlier ((isMatch_eq_true hmethod).mp hmatch)

theorem matchingMember?_eq_none (hmethod : program.methods[id]? = some method) :
    program.matchingMember? id method type = none ↔ ¬ program.HasMatch id type := by
  rw [matchingMember?_eq_find?, List.find?_eq_none]
  constructor
  · rintro hnone ⟨member, hmember, hmatch⟩
    exact hnone member hmember ((isMatch_eq_true hmethod).mpr hmatch)
  · intro hnone member hmember hmatch
    exact hnone ⟨member, hmember, (isMatch_eq_true hmethod).mp hmatch⟩

theorem FirstMatch.hasMatch (h : program.FirstMatch id type found) : program.HasMatch id type := by
  obtain ⟨before, after, hmembers, hmatch, -⟩ := h
  refine ⟨found, ?_, hmatch⟩
  rw [hmembers]
  exact List.mem_append_right _ List.mem_cons_self

/-- A type provides a method if it owns it or has a match. -/
theorem provides_iff (hagree : program.MembersAgree)
    (hmethod : program.methods[id]? = some method) :
    program.Provides id type ↔ type = method.owner ∨ program.HasMatch id type := by
  rw [← hagree.mem_membersOf hmethod]
  constructor
  · rintro ⟨member, hmember, rfl | hmatch⟩
    · exact .inl hmember
    · exact .inr ⟨member, hmember, hmatch⟩
  · rintro (hmember | ⟨member, hmember, hmatch⟩)
    · exact ⟨id, hmember, .inl rfl⟩
    · exact ⟨member, hmember, .inr hmatch⟩

/-! ## The nearest class -/

/-- The type names the other one as its base class. -/
def Extends (program : Program) (type base : TypeId) : Prop := program.baseClassOf type = some base

/-- The first class with a property on the way up from a class, which is on the way itself. -/
def Nearest (program : Program) (p : TypeId → Prop) (start type : TypeId) : Prop :=
  Relation.ReflTransGen program.Extends start type ∧ p type ∧
    ∀ nearer, Relation.ReflTransGen program.Extends start nearer →
      Relation.TransGen program.Extends nearer type → ¬ p nearer

/-- The nearest class is the start if that has the property, and else the nearest one from its
base class. -/
theorem nearest_iff (hacyclic : ¬ Relation.TransGen program.Extends start start) :
    program.Nearest p start type ↔
      p start ∧ type = start ∨ ¬ p start ∧ ∃ base, program.Extends start base ∧
        program.Nearest p base type := by
  constructor
  · rintro ⟨hpath, hp, hnearer⟩
    rcases Relation.ReflTransGen.cases_head hpath with rfl | ⟨base, hbase, hrest⟩
    · exact .inl ⟨hp, rfl⟩
    · refine .inr ⟨hnearer start .refl (.head' hbase hrest), base, hbase, hrest, hp, ?_⟩
      intro nearer hfrom hto
      exact hnearer nearer (.head hbase hfrom) hto
  · rintro (⟨hp, rfl⟩ | ⟨hp, base, hbase, hpath, hend, hnearer⟩)
    · refine ⟨.refl, hp, fun nearer hfrom hto => ?_⟩
      exact absurd (Relation.TransGen.trans_right hfrom hto) hacyclic
    · refine ⟨.head hbase hpath, hend, fun nearer hfrom hto => ?_⟩
      rcases Relation.ReflTransGen.cases_head hfrom with rfl | ⟨base', hbase', hrest⟩
      · exact hp
      · -- A class has one base class, so the two ways up are the same.
        cases Option.some.inj (hbase.symm.trans hbase')
        exact hnearer nearer hrest hto

theorem inheritedMember?_eq_some (hmethod : program.methods[id]? = some method)
    {start : Option TypeId}
    (hends : ∀ first, start = some first → EndsWithin program.Extends classes first) :
    program.inheritedMember? id method classes start = some found ↔
      ∃ first base, start = some first ∧ program.Nearest (program.HasMatch id) first base ∧
        program.FirstMatch id base found := by
  induction classes generalizing start with
  | zero =>
    cases start with
    | none => simp [inheritedMember?]
    | some first => exact (hends first rfl).elim
  | succ classes ih =>
    cases start with
    | none => simp [inheritedMember?]
    | some first =>
      have hacyclic := (hends first rfl).not_transGen_self
      simp only [Option.some.injEq, exists_and_left, exists_eq_left', nearest_iff hacyclic]
      rw [inheritedMember?]
      cases hmember : program.matchingMember? id method first with
      | some member =>
        have hmatch := (matchingMember?_eq_some hmethod).mp hmember
        simp [hmatch.hasMatch, ← matchingMember?_eq_some hmethod, hmember]
      | none =>
        have hnone := (matchingMember?_eq_none hmethod).mp hmember
        simp only [hnone, false_and, not_false_eq_true, true_and, false_or]
        rw [ih (hends first rfl)]
        constructor
        · rintro ⟨next, base, hnext, hnearest, hfound⟩
          exact ⟨base, ⟨next, hnext, hnearest⟩, hfound⟩
        · rintro ⟨base, ⟨next, hnext, hnearest⟩, hfound⟩
          exact ⟨next, base, hnext, hnearest, hfound⟩

/-- From a class below the owner the method is reached through the base class, unless there is a
match. -/
theorem nearest_owner_iff (hagree : program.MembersAgree)
    (hmethod : program.methods[id]? = some method)
    (hacyclic : ¬ Relation.TransGen program.Extends type type) (hne : type ≠ method.owner) :
    program.Nearest (program.Provides id) type method.owner ↔
      ¬ program.HasMatch id type ∧ ∃ base, program.Extends type base ∧
        program.Nearest (program.Provides id) base method.owner := by
  rw [nearest_iff hacyclic, provides_iff hagree hmethod]
  simp [hne, hne.symm]

theorem nearest_owner_self (hagree : program.MembersAgree)
    (hmethod : program.methods[id]? = some method)
    (hacyclic : ¬ Relation.TransGen program.Extends method.owner method.owner) :
    program.Nearest (program.Provides id) method.owner method.owner :=
  (nearest_iff hacyclic).mpr (.inl ⟨(provides_iff hagree hmethod).mpr (.inl rfl), rfl⟩)

theorem reachesOwner_eq_true (hagree : program.MembersAgree)
    (hmethod : program.methods[id]? = some method) {start : Option TypeId}
    (hends : ∀ first, start = some first → EndsWithin program.Extends classes first) :
    program.reachesOwner id method classes start = true ↔
      ∃ first, start = some first ∧
        program.Nearest (program.Provides id) first method.owner := by
  induction classes generalizing start with
  | zero =>
    cases start with
    | none => simp [reachesOwner]
    | some first => exact (hends first rfl).elim
  | succ classes ih =>
    cases start with
    | none => simp [reachesOwner]
    | some first =>
      have hacyclic := (hends first rfl).not_transGen_self
      rw [reachesOwner, Bool.or_eq_true, beq_iff_eq, Bool.and_eq_true, Option.isNone_iff_eq_none,
        matchingMember?_eq_none hmethod, ih (hends first rfl)]
      simp only [Option.some.injEq, exists_eq_left']
      by_cases howner : first = method.owner
      · subst howner
        simp [nearest_owner_self hagree hmethod hacyclic]
      · rw [nearest_owner_iff hagree hmethod hacyclic howner]
        simp [howner, Extends]

/-! ## Interfaces -/

def IsClass (program : Program) (type : TypeId) : Prop :=
  ∃ decl, program.types[type]? = some decl ∧ decl.kind = .ofClass

/-- The type is an interface that names the other one as a parent. -/
def ExtendsInterface (program : Program) (type interface : TypeId) : Prop :=
  program.IsInterface type ∧ program.Lists type interface

/-- Interfaces list interfaces only, so chains from an interface are chains of interfaces. -/
theorem Layered.endsWithin_lists (h : program.Layered) (htype : program.IsInterface type)
    (hends : EndsWithin program.ExtendsInterface levels type) :
    EndsWithin program.Lists levels type := by
  induction levels generalizing type with
  | zero => exact hends
  | succ levels ih =>
    intro interface hlists
    exact ih (h.interfaces type interface hlists) (hends interface ⟨htype, hlists⟩)

theorem Layered.isInterface_of_reflTransGen (h : program.Layered)
    (htype : program.IsInterface type)
    (hpath : Relation.ReflTransGen program.Lists type interface) :
    program.IsInterface interface := by
  cases hpath with
  | refl => exact htype
  | tail _ hlists => exact h.interfaces _ interface hlists

theorem inheritsUnchanged_eq_true (hagree : program.MembersAgree)
    (hmethod : program.methods[id]? = some method)
    (hends : EndsWithin program.Extends (maxHierarchyDepth + 1) type) :
    program.inheritsUnchanged id method type = true ↔
      type ≠ method.owner ∧ program.IsClass type ∧ program.interfacesOf type ≠ [] ∧
        program.Nearest (program.Provides id) type method.owner := by
  unfold inheritsUnchanged
  cases hdecl : program.types[type]? with
  | none => simp [IsClass, hdecl]
  | some decl =>
    have hbase : program.baseClassOf type = decl.baseClass := by rw [baseClassOf, hdecl]; rfl
    have hinterfaces : program.interfacesOf type = decl.interfaces := by rw [interfacesOf, hdecl]
    have hclass : program.IsClass type ↔ decl.kind = .ofClass := by simp [IsClass, hdecl]
    simp only [Bool.and_eq_true, bne_iff_ne, beq_iff_eq, Bool.not_eq_true',
      List.isEmpty_eq_false_iff, Option.isNone_iff_eq_none, and_assoc, hclass, hinterfaces, ← hbase,
      matchingMember?_eq_none hmethod]
    have hreaches : program.reachesOwner id method maxHierarchyDepth (program.baseClassOf type) =
        true ↔ ∃ base, program.Extends type base ∧
          program.Nearest (program.Provides id) base method.owner :=
      reachesOwner_eq_true hagree hmethod hends
    refine and_congr_right fun hne => ?_
    rw [nearest_owner_iff hagree hmethod hends.not_transGen_self hne, hreaches]

/-- The interfaces that a method may implement members of are those of the classes that have it as
their own. -/
theorem mem_implementedInterfaces (hagree : program.MembersAgree)
    (hmethod : program.methods[id]? = some method) (hkind : method.kind ≠ .interfaceMember)
    (hends : ∀ type, EndsWithin program.Extends (maxHierarchyDepth + 1) type) :
    interface ∈ program.implementedInterfaces id method ↔
      ∃ derived, program.IsClass derived ∧ program.Lists derived interface ∧
        program.Nearest (program.Provides id) derived method.owner := by
  unfold implementedInterfaces
  simp only [List.mem_append, List.mem_flatMap, List.mem_filter,
    inheritsUnchanged_eq_true hagree hmethod (hends _)]
  constructor
  · rintro (hown | ⟨derived, ⟨-, -, hclass, -, hnearest⟩, hlists⟩)
    · exact ⟨method.owner, hagree.owner_isClass hmethod hkind, hown,
        nearest_owner_self hagree hmethod (hends method.owner).not_transGen_self⟩
    · exact ⟨derived, hclass, hlists, hnearest⟩
  · rintro ⟨derived, hclass, hlists, hnearest⟩
    by_cases howner : derived = method.owner
    · exact .inl (howner ▸ hlists)
    · refine .inr ⟨derived, ⟨?_, howner, hclass, List.ne_nil_of_mem hlists, hnearest⟩, hlists⟩
      obtain ⟨decl, hdecl, -⟩ := hclass
      exact List.mem_range.mpr (Array.getElem?_eq_some_iff.mp hdecl).1

/-! ## Targets are listed once -/

theorem nodup_foundAt {before : List MethodId} (h : before.Nodup) :
    (program.foundAt id method before type).Nodup := by
  unfold foundAt
  split
  · rename_i member _
    split
    · exact h
    · rename_i hnew
      rw [List.contains_iff_mem] at hnew
      rw [← List.concat_eq_append]
      exact h.concat hnew
  · exact h

theorem nodup_foldl {step : Collected → TypeId → Collected} {interfaces : List TypeId}
    (hstep : ∀ collected interface, collected.found.Nodup →
      (step collected interface).found.Nodup)
    {collected : Collected} (h : collected.found.Nodup) :
    (interfaces.foldl step collected).found.Nodup := by
  induction interfaces generalizing collected with
  | nil => exact h
  | cons interface interfaces ih => exact ih (hstep collected interface h)

theorem nodup_collectMembers {collected : Collected} (h : collected.found.Nodup) :
    (program.collectMembers id method levels collected type).found.Nodup := by
  induction levels generalizing collected type with
  | zero => exact h
  | succ levels ih =>
    by_cases hvisited : type ∈ collected.visited
    · rw [collectMembers, if_pos (List.contains_iff_mem.mpr hvisited)]
      exact h
    · rw [collectMembers_succ hvisited]
      exact nodup_foldl (fun _ _ => ih) (nodup_foundAt h)

theorem nodup_classMethodTargets : (program.classMethodTargets id method).Nodup := by
  refine nodup_foldl (fun _ _ => nodup_collectMembers) ?_
  dsimp only
  split
  · cases program.inheritedMember? id method maxHierarchyDepth
      (program.baseClassOf method.owner) with
    | none => exact List.nodup_nil
    | some found => exact List.nodup_singleton found
  · exact List.nodup_nil

theorem nodup_overrideTargets (program : Program) (id : MethodId) :
    (program.overrideTargets id).Nodup := by
  unfold overrideTargets
  split
  · exact List.nodup_nil
  · split
    · exact List.nodup_nil
    · split
      · exact List.nodup_nil
      · exact nodup_classMethodTargets
      · exact nodup_classMethodTargets

/-! ## Targets by the rules -/

/-- A program that a project gives, or calls that refer only to types made before them. -/
def Sourced (program : Program) : Prop :=
  (∃ doc : ProjectDoc, doc.load = .ok program) ∨
    ∃ calls, Builder.withMain.NamesMadeTypes calls ∧
      (Builder.withMain.run calls).finish = .ok program

theorem Sourced.membersAgree (h : program.Sourced) : program.MembersAgree := by
  rcases h with ⟨doc, hload⟩ | ⟨calls, hnames, hfinish⟩
  · exact ProjectDoc.membersAgree_load hload
  · obtain ⟨-, rfl⟩ := Builder.finish_eq_ok.mp hfinish
    exact Builder.membersAgree_run hnames

theorem Sourced.validate (h : program.Sourced) : program.validate = .ok () := by
  rcases h with ⟨doc, hload⟩ | ⟨calls, -, hfinish⟩
  · obtain ⟨builder, -, hvalid, rfl⟩ := ProjectDoc.load_eq_ok.mp hload
    exact hvalid
  · obtain ⟨hvalid, rfl⟩ := Builder.finish_eq_ok.mp hfinish
    exact hvalid

/-- The method is marked `override`, and the target is the first match in the nearest proper base
class of its owner that has a match. -/
def OverridesBase (program : Program) (id : MethodId) (method : Method) (target : MethodId) :
    Prop :=
  method.modifiers.isOverride = true ∧ ∃ first base, program.Extends method.owner first ∧
    program.Nearest (program.HasMatch id) first base ∧ program.FirstMatch id base target

/-- A class has the method as its own, from the nearest class that provides it, and lists an
interface; the target is the first match of this interface or of one that it extends. -/
def Implements (program : Program) (id : MethodId) (method : Method) (target : MethodId) : Prop :=
  ∃ derived listed interface, program.IsClass derived ∧ program.IsInterface interface ∧
    program.Lists derived listed ∧ Relation.ReflTransGen program.Lists listed interface ∧
    program.Nearest (program.Provides id) derived method.owner ∧
    program.FirstMatch id interface target

theorem mem_overridden (hmethod : program.methods[id]? = some method)
    (hends : EndsWithin program.Extends (maxHierarchyDepth + 1) method.owner) :
    target ∈ program.overridden id method ↔ program.OverridesBase id method target := by
  have hinherited : program.inheritedMember? id method maxHierarchyDepth
      (program.baseClassOf method.owner) = some target ↔
        ∃ first base, program.Extends method.owner first ∧
          program.Nearest (program.HasMatch id) first base ∧ program.FirstMatch id base target :=
    inheritedMember?_eq_some hmethod hends
  unfold overridden OverridesBase
  split
  · rename_i hmarked
    rw [Option.mem_toList, hinherited]
    simp only [hmarked, true_and]
  · rename_i hmarked
    simp [hmarked]

theorem exists_reaches_iff (hlayered : program.Layered) (hagree : program.MembersAgree)
    (hmethod : program.methods[id]? = some method) (hkind : method.kind ≠ .interfaceMember)
    (hends : ∀ type, EndsWithin program.Extends (maxHierarchyDepth + 1) type) :
    (∃ start ∈ program.implementedInterfaces id method, program.Reaches id method start target) ↔
      program.Implements id method target := by
  simp only [mem_implementedInterfaces hagree hmethod hkind hends, Reaches,
    matchingMember?_eq_some hmethod]
  constructor
  · rintro ⟨listed, ⟨derived, hclass, hlists, hnearest⟩, interface, hpath, hfirst⟩
    have hinterface := hlayered.isInterface_of_reflTransGen
      (hlayered.interfaces derived listed hlists) hpath
    exact ⟨derived, listed, interface, hclass, hinterface, hlists, hpath, hnearest, hfirst⟩
  · rintro ⟨derived, listed, interface, hclass, -, hlists, hpath, hnearest, hfirst⟩
    exact ⟨listed, ⟨derived, hclass, hlists, hnearest⟩, interface, hpath, hfirst⟩

/-- The override targets of a method are what the two rules give it, each listed once; static
methods and members of interfaces have none. -/
theorem overrideTargets_by_rules (hsourced : program.Sourced)
    (hbases : ChainsWithin program.Extends 256)
    (hinterfaces : ChainsWithin program.ExtendsInterface 256)
    (hmethod : program.methods[id]? = some method) :
    (program.overrideTargets id).Nodup ∧
      ∀ target, target ∈ program.overrideTargets id ↔
        method.isStatic = false ∧ method.kind ≠ .interfaceMember ∧
          (program.OverridesBase id method target ∨ program.Implements id method target) := by
  refine ⟨nodup_overrideTargets program id, fun target => ?_⟩
  have hagree := hsourced.membersAgree
  have hlayered := layered_of_validate hsourced.validate hagree.known.owned
  have hends := hbases.endsWithin
  have hclassTargets : ∀ hkind : method.kind ≠ .interfaceMember,
      target ∈ program.classMethodTargets id method ↔
        program.OverridesBase id method target ∨ program.Implements id method target := by
    intro hkind
    rw [mem_classMethodTargets, mem_overridden hmethod (hends _),
      exists_reaches_iff hlayered hagree hmethod hkind hends]
    intro start hstart
    obtain ⟨derived, -, hlists, -⟩ :=
      (mem_implementedInterfaces hagree hmethod hkind hends).mp hstart
    exact hlayered.endsWithin_lists (hlayered.interfaces derived start hlists)
      (hinterfaces.endsWithin start)
  rw [mem_overrideTargets]
  constructor
  · rintro ⟨method', hmethod', hstatic, -, hkind, htarget⟩
    cases hmethod.symm.trans hmethod'
    exact ⟨hstatic, hkind, (hclassTargets hkind).mp htarget⟩
  · rintro ⟨hstatic, hkind, htarget⟩
    obtain ⟨decl, hdecl, -⟩ := hagree.listed id method hmethod
    exact ⟨method, hmethod, hstatic, (Array.getElem?_eq_some_iff.mp hdecl).1, hkind,
      (hclassTargets hkind).mpr htarget⟩

/-- An interface that declares a member of its parent again is implemented by a class that has the
member from its base class; that one overrides a class above it and has a static method of the same
name. The last class hides the member. -/
def inheritedCalls : List Builder.Call :=
  [.addType .ofInterface "ISource", .addType .ofInterface "IFileSource", .listInterface 1 0,
    .addType .ofClass "Source", .addType .ofClass "FileSource", .setBaseClass 3 2,
    .addType .ofClass "CachedSource", .setBaseClass 4 3, .listInterface 4 1,
    .addType .ofClass "HidingSource", .setBaseClass 5 4, .listInterface 5 0,
    .addMethod 0 { name := "Load" }, .addMethod 1 { name := "Load" },
    .addMethod 2 { name := "Load", modifiers := { isVirtual := true } },
    .addMethod 3 { name := "Load", modifiers := { isStatic := true } },
    .addMethod 3 { name := "Load", modifiers := { isOverride := true } },
    .addMethod 5 { name := "Load" }]

def inheritedSource : Program := (Builder.withMain.run inheritedCalls).program

/-- The override takes both interfaces by way of the class below it. The hiding member takes one of
them again, and not the other, which only the class above it lists. -/
theorem overrideTargets_by_rules_inheritedSource :
    inheritedSource.Sourced ∧ ChainsWithin inheritedSource.Extends 256 ∧
      ChainsWithin inheritedSource.ExtendsInterface 256 ∧
      (∃ method, inheritedSource.methods[4]? = some method ∧ ∀ target,
        target ∈ [2, 1, 0] ↔ inheritedSource.OverridesBase 4 method target ∨
          inheritedSource.Implements 4 method target) ∧
      ∃ method, inheritedSource.methods[5]? = some method ∧ ∀ target,
        target = 0 ↔ inheritedSource.Implements 5 method target := by
  have hordered : ∀ type ∈ inheritedSource.typeIds, ∀ parent ∈ inheritedSource.supertypesOf type,
      parent < type := by
    decide +kernel
  have hvalid : inheritedSource.validate = .ok () :=
    validate_eq_ok.mpr ⟨by decide +kernel, by decide +kernel,
      checkTargets_eq_ok.mp (by decide +kernel), checkCycles_of_ordered hordered⟩
  have hsourced : inheritedSource.Sourced :=
    .inr ⟨inheritedCalls, by decide +kernel, Builder.finish_eq_ok.mpr ⟨hvalid, rfl⟩⟩
  have hchains : ChainsWithin inheritedSource.InheritsFrom 256 := by
    refine chainsWithin_of_lt fun type parent hinherits => ?_
    have hknown := lt_size_of_inheritsFrom hinherits
    have hfew : inheritedSource.types.size ≤ 256 := by decide +kernel
    exact ⟨hordered type (List.mem_range.mpr hknown) parent hinherits,
      (Nat.le_of_lt hknown).trans hfew⟩
  have hbases := hchains.mono fun _ _ hextends => inheritsFrom_of_baseClassOf hextends
  have hinterfaces : ChainsWithin inheritedSource.ExtendsInterface 256 :=
    hchains.mono fun _ _ hextends => hextends.2.inheritsFrom
  refine ⟨hsourced, hbases, hinterfaces, ⟨_, rfl, fun target => ?_⟩, _, rfl, fun target => ?_⟩
  · have htargets : inheritedSource.overrideTargets 4 = [2, 1, 0] := by decide +kernel
    rw [← htargets, (overrideTargets_by_rules hsourced hbases hinterfaces rfl).2 target]
    exact (and_iff_right rfl).trans (and_iff_right (by decide +kernel))
  · have htargets : inheritedSource.overrideTargets 5 = [0] := by decide +kernel
    rw [← List.mem_singleton, ← htargets,
      (overrideTargets_by_rules hsourced hbases hinterfaces rfl).2 target]
    refine (and_iff_right rfl).trans ((and_iff_right (by decide +kernel)).trans ?_)
    exact or_iff_right fun hoverrides => absurd hoverrides.1 (by decide +kernel)

end Program

end AsyncLift
