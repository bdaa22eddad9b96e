import AsyncLift.Proofs.Integrity
import AsyncLift.Proofs.MethodTable
import AsyncLift.Proofs.PlanClosure
import AsyncLift.Proofs.SupertypeCycles
import Mathlib.Data.List.Perm.Subperm

/-!
# Overriding has no cycles

A method overrides a member of a class above its own, or it implements a member of an interface; and
from a member of an interface one comes only to members of interfaces above. So overriding goes from
the owner of a method to one that lies above it (`Program.Above`), and in a valid program this has
no cycle (`Layered.not_transGen_overrides`).

That members belong to the type that lists them is not checked by validation. Builders see to it
(`Builder.membersKnown_run`), and conversions leave owners alone. Where a method names another owner
than the type that lists it, overriding may be cyclic (`transGen_overrides_misplacedLoad`).

`requests_keep_overriding_acyclic`: a valid program whose members are owned has no cycle, and none
comes up by requests. Hence the walk to the bases needs no bound (`addBases_eq_of_endsWithin`), and
nothing lies both above and below a method.
-/

namespace AsyncLift

/-- A relation without cycles that starts only from finitely many numbers has bounded chains. -/
theorem chainsWithin_of_acyclic {r : Nat → Nat → Prop} {size : Nat}
    (hacyclic : ∀ a, ¬ Relation.TransGen r a a) (hknown : ∀ a b, r a b → a < size) :
    ChainsWithin r size := by
  intro chain hchain
  have hpairs : chain.Pairwise (Relation.TransGen r) := by
    have htrans : chain.IsChain (Relation.TransGen r) := hchain.imp fun _ _ => .single
    exact htrans.pairwise
  have hdistinct : chain.dropLast.Nodup := by
    refine (hpairs.sublist (List.dropLast_sublist chain)).imp ?_
    rintro a b hab rfl
    exact hacyclic a hab
  have hbelow : ∀ chain : List Nat, chain.IsChain r → ∀ a ∈ chain.dropLast, a < size := by
    intro chain hchain
    induction chain with
    | nil => intro a ha; cases ha
    | cons first chain ih =>
      cases chain with
      | nil => intro a ha; cases ha
      | cons second chain =>
        obtain ⟨hstep, hrest⟩ := List.isChain_cons_cons.mp hchain
        intro a ha
        rcases List.mem_cons.mp ha with rfl | hlater
        · exact hknown _ _ hstep
        · exact ih hrest a hlater
  have hfew := (List.subperm_of_subset hdistinct fun a ha =>
    List.mem_range.mpr (hbelow chain hchain a ha)).length_le
  rw [List.length_dropLast, List.length_range] at hfew
  omega

theorem EndsWithin.acc {α : Type} {r : α → α → Prop} {levels : Nat} {a : α}
    (h : EndsWithin r levels a) : Acc (fun b a => r a b) a := by
  induction levels generalizing a with
  | zero => exact h.elim
  | succ levels ih => exact .intro a fun b hab => ih (h b hab)

namespace Program

variable {program later : Program} {id target found : MethodId} {method : Method}
  {type base interface : TypeId} {classes levels more : Nat}

/-! ## Owners -/

/-- The type that a method names as its owner. -/
def ownerOf? (program : Program) (id : MethodId) : Option TypeId :=
  program.methods[id]?.map (·.owner)

/-- No type lists a method that names another type as its owner. -/
def MembersOwned (program : Program) : Prop :=
  ∀ type, ∀ id ∈ program.membersOf type, ∀ owner, program.ownerOf? id = some owner → owner = type

theorem mem_membersOf_of_matchingMember?
    (h : program.matchingMember? id method type = some found) : found ∈ program.membersOf type := by
  rw [matchingMember?_eq_find?] at h
  exact List.mem_of_find?_eq_some h

theorem MembersOwned.ownerOf?_of_matchingMember? (h : program.MembersOwned)
    (hfound : program.matchingMember? id method type = some found) :
    program.ownerOf? found = some type := by
  obtain ⟨-, other, hother, -⟩ := isMatch_iff.mp (isMatch_of_matchingMember? hfound)
  have howner : program.ownerOf? found = some other.owner := by rw [ownerOf?, hother]; rfl
  rw [howner, h type found (mem_membersOf_of_matchingMember? hfound) other.owner howner]

/-! ## Types above a type -/

def IsInterface (program : Program) (type : TypeId) : Prop :=
  ∃ decl, program.types[type]? = some decl ∧ decl.kind = .ofInterface

theorem inheritsFrom_of_baseClassOf (h : program.baseClassOf type = some base) :
    program.InheritsFrom type base := by
  obtain ⟨decl, hdecl, hbase⟩ := Option.bind_eq_some_iff.mp h
  rw [InheritsFrom, supertypesOf, hdecl]
  exact List.mem_append_left _ (Option.mem_toList.mpr hbase)

theorem inheritsFrom_cases (h : program.InheritsFrom type base) :
    program.baseClassOf type = some base ∨ program.Lists type base := by
  unfold InheritsFrom supertypesOf at h
  cases hdecl : program.types[type]? with
  | none =>
    rw [hdecl] at h
    cases h
  | some decl =>
    rw [hdecl] at h
    rcases List.mem_append.mp h with hbase | hlisted
    · exact .inl (by rw [baseClassOf, hdecl]; exact Option.mem_toList.mp hbase)
    · exact .inr (by rw [Lists, interfacesOf, hdecl]; exact hlisted)

/-- What overriding goes by: classes inherit from classes only, types list interfaces only, no type
lies above itself, and members are owned by the type that lists them. -/
structure Layered (program : Program) : Prop where
  bases : ∀ type base, program.baseClassOf type = some base →
    ¬ program.IsInterface type ∧ ¬ program.IsInterface base
  interfaces : ∀ type interface, program.Lists type interface → program.IsInterface interface
  acyclic : ∀ type, ¬ Relation.TransGen program.InheritsFrom type type
  owned : program.MembersOwned

theorem layered_of_validate (h : program.validate = .ok ()) (howned : program.MembersOwned) :
    program.Layered := by
  obtain ⟨htypes, -, -, hcycles⟩ := validate_eq_ok.mp h
  have hchecked : ∀ type decl, program.types[type]? = some decl →
      program.checkType decl = .ok () := fun type decl hdecl =>
    htypes decl (Array.mem_toList_iff.mpr (Array.mem_of_getElem? hdecl))
  refine ⟨fun type base hbase => ?_, fun type interface hlists => ?_,
    not_transGen_inheritsFrom hcycles, howned⟩
  · obtain ⟨decl, hdecl, hbase⟩ := Option.bind_eq_some_iff.mp hbase
    obtain ⟨parent, hparent, hkind, hkind'⟩ := checkBaseClass_eq_ok.mp
      ((checkType_eq_ok.mp (hchecked type decl hdecl)).2.1 base hbase)
    constructor
    · rintro ⟨decl', hdecl', hinterface⟩
      cases hdecl.symm.trans hdecl'
      cases hkind.symm.trans hinterface
    · rintro ⟨parent', hparent', hinterface⟩
      cases hparent.symm.trans hparent'
      cases hkind'.symm.trans hinterface
  · unfold Lists interfacesOf at hlists
    split at hlists
    · rename_i decl hdecl
      exact checkInterface_eq_ok.mp
        ((checkType_eq_ok.mp (hchecked type decl hdecl)).2.2 interface hlists)
    · cases hlists

/-- A type lies above another one as a supertype, or as an interface above a class. -/
def Above (program : Program) (type above : TypeId) : Prop :=
  Relation.TransGen program.InheritsFrom type above ∨
    ¬ program.IsInterface type ∧ program.IsInterface above

namespace Layered

theorem isInterface_of_transGen (h : program.Layered)
    (hpath : Relation.TransGen program.InheritsFrom type base) (htype : program.IsInterface type) :
    program.IsInterface base := by
  have hstep : ∀ type base, program.InheritsFrom type base → program.IsInterface type →
      program.IsInterface base := by
    intro type base hinherits htype
    rcases inheritsFrom_cases hinherits with hbase | hlists
    · exact absurd htype (h.bases type base hbase).1
    · exact h.interfaces type base hlists
  induction hpath with
  | single hinherits => exact hstep _ _ hinherits htype
  | tail _ hinherits ih => exact hstep _ _ hinherits ih

theorem not_above_self (h : program.Layered) : ¬ program.Above type type := by
  rintro (hcycle | ⟨hclass, hinterface⟩)
  · exact h.acyclic type hcycle
  · exact hclass hinterface

theorem above_trans (h : program.Layered) {first second third : TypeId}
    (hlow : program.Above first second) (hhigh : program.Above second third) :
    program.Above first third := by
  rcases hlow with hpath | ⟨hclass, hinterface⟩
  · rcases hhigh with hpath' | ⟨hclass', hinterface'⟩
    · exact .inl (hpath.trans hpath')
    · exact .inr ⟨fun hfirst => hclass' (h.isInterface_of_transGen hpath hfirst), hinterface'⟩
  · rcases hhigh with hpath' | ⟨-, hinterface'⟩
    · exact .inr ⟨hclass, h.isInterface_of_transGen hpath' hinterface⟩
    · exact .inr ⟨hclass, hinterface'⟩

end Layered

/-! ## Overriding goes upwards -/

/-- The class is reached along base classes. -/
def Derives (program : Program) : TypeId → TypeId → Prop :=
  Relation.ReflTransGen fun type base => program.baseClassOf type = some base

theorem exists_derives_of_inheritedMember? {start : Option TypeId}
    (h : program.inheritedMember? id method classes start = some found) :
    ∃ first type, start = some first ∧ program.Derives first type ∧
      program.matchingMember? id method type = some found := by
  induction classes generalizing start with
  | zero => cases h
  | succ classes ih =>
    cases start with
    | none => cases h
    | some first =>
      rw [inheritedMember?] at h
      split at h
      · rename_i hfound
        cases h
        exact ⟨first, first, rfl, .refl, hfound⟩
      · obtain ⟨base, type, hbase, hpath, hfound⟩ := ih h
        exact ⟨first, type, rfl, .head hbase hpath, hfound⟩

theorem derives_of_reachesOwner {start : Option TypeId}
    (h : program.reachesOwner id method classes start = true) :
    ∃ first, start = some first ∧ program.Derives first method.owner := by
  induction classes generalizing start with
  | zero => cases h
  | succ classes ih =>
    cases start with
    | none => cases h
    | some first =>
      rw [reachesOwner, Bool.or_eq_true, Bool.and_eq_true] at h
      rcases h with howner | ⟨-, hbase⟩
      · exact ⟨first, rfl, beq_iff_eq.mp howner ▸ .refl⟩
      · obtain ⟨base, hbase, hpath⟩ := ih hbase
        exact ⟨first, rfl, .head hbase hpath⟩

theorem transGen_inheritsFrom_of_derives (hbase : program.baseClassOf type = some base)
    (hpath : program.Derives base interface) :
    Relation.TransGen program.InheritsFrom type interface := by
  induction hpath with
  | refl => exact .single (inheritsFrom_of_baseClassOf hbase)
  | tail _ hstep ih => exact ih.tail (inheritsFrom_of_baseClassOf hstep)

namespace Layered

/-- What a class derives from is a class. -/
theorem not_isInterface_of_derives (h : program.Layered)
    (hbase : program.baseClassOf type = some base) (hpath : program.Derives base interface) :
    ¬ program.IsInterface interface := by
  cases hpath with
  | refl => exact (h.bases type base hbase).2
  | tail _ hstep => exact (h.bases _ _ hstep).2

/-- The interfaces from which the search for implemented members starts lie above the owner. -/
theorem above_of_implemented (h : program.Layered)
    (hstart : type ∈ program.implementedInterfaces id method)
    (hpath : Relation.ReflTransGen program.Lists type interface) :
    program.Above method.owner interface := by
  have hbelow : ∀ lister, program.Lists lister type →
      Relation.TransGen program.Lists lister interface := fun lister hlists =>
    .head' hlists hpath
  rcases List.mem_append.mp hstart with hown | hinherited
  · refine .inl (Relation.TransGen.mono ?_ _ _ (hbelow method.owner hown))
    exact fun _ _ hlists => hlists.inheritsFrom
  · -- A class that inherits the method lists the interface, so the owner is a class.
    obtain ⟨derived, hderived, hlists⟩ := List.mem_flatMap.mp hinherited
    have hunchanged := (List.mem_filter.mp hderived).2
    unfold inheritsUnchanged at hunchanged
    split at hunchanged
    · cases hunchanged
    · rename_i decl hdecl
      obtain ⟨first, hfirst, howner⟩ :=
        derives_of_reachesOwner (Bool.and_eq_true_iff.mp hunchanged).2
      have hbase : program.baseClassOf derived = some first := by
        rw [baseClassOf, hdecl]
        exact hfirst
      refine .inr ⟨h.not_isInterface_of_derives hbase howner, ?_⟩
      obtain ⟨lister, -, hlast⟩ := Relation.TransGen.tail'_iff.mp (hbelow derived hlists)
      exact h.interfaces lister interface hlast

/-- The owner of a target lies above the owner of the method. -/
theorem above_of_overrides (h : program.Layered) (hoverrides : program.Overrides id target) :
    ∃ owner owner', program.ownerOf? id = some owner ∧ program.ownerOf? target = some owner' ∧
      program.Above owner owner' := by
  obtain ⟨method, hmethod, -, -, -, htarget⟩ := mem_overrideTargets.mp hoverrides
  have howner : program.ownerOf? id = some method.owner := by rw [ownerOf?, hmethod]; rfl
  rcases classMethodTargets_sound htarget with hoverridden | ⟨start, hstart, type, hpath, hmember⟩
  · unfold overridden at hoverridden
    split at hoverridden
    · obtain ⟨first, type, hfirst, hpath, hmember⟩ :=
        exists_derives_of_inheritedMember? (Option.mem_toList.mp hoverridden)
      exact ⟨method.owner, type, howner, h.owned.ownerOf?_of_matchingMember? hmember,
        .inl (transGen_inheritsFrom_of_derives hfirst hpath)⟩
    · cases hoverridden
  · exact ⟨method.owner, type, howner, h.owned.ownerOf?_of_matchingMember? hmember,
      h.above_of_implemented hstart hpath⟩

theorem above_of_transGen_overrides (h : program.Layered)
    (hpath : Relation.TransGen program.Overrides id target) :
    ∃ owner owner', program.ownerOf? id = some owner ∧ program.ownerOf? target = some owner' ∧
      program.Above owner owner' := by
  induction hpath with
  | single hoverrides => exact h.above_of_overrides hoverrides
  | tail _ hoverrides ih =>
    obtain ⟨first, second, hfirst, hsecond, hlow⟩ := ih
    obtain ⟨second', third, hsecond', hthird, hhigh⟩ := h.above_of_overrides hoverrides
    cases hsecond.symm.trans hsecond'
    exact ⟨first, third, hfirst, hthird, h.above_trans hlow hhigh⟩

theorem not_transGen_overrides (h : program.Layered) (id : MethodId) :
    ¬ Relation.TransGen program.Overrides id id := by
  intro hcycle
  obtain ⟨owner, owner', howner, howner', habove⟩ := h.above_of_transGen_overrides hcycle
  cases howner.symm.trans howner'
  exact h.not_above_self habove

/-- Types, members and owners are all that matters. -/
theorem of_tables (h : program.Layered) (htypes : later.types = program.types)
    (howners : ∀ id, later.ownerOf? id = program.ownerOf? id) : later.Layered := by
  have hinherits : later.InheritsFrom = program.InheritsFrom := by
    funext type base
    rw [InheritsFrom, InheritsFrom, supertypesOf_congr htypes]
  refine ⟨?_, ?_, ?_, ?_⟩
  · simpa only [baseClassOf, IsInterface, htypes] using h.bases
  · simpa only [Lists, interfacesOf, IsInterface, htypes] using h.interfaces
  · rw [hinherits]
    exact h.acyclic
  · have howned := h.owned
    simpa only [MembersOwned, membersOf, htypes, howners] using howned

end Layered

/-! ## The walk to the bases without its bound -/

/-- Where chains of bases end in time, more levels add nothing. -/
theorem addBases_eq_of_endsWithin (hends : EndsWithin program.HasBase levels id)
    (hle : levels ≤ more) (order : List MethodId) :
    program.addBases more order id = program.addBases levels order id := by
  induction levels generalizing more order id with
  | zero => exact hends.elim
  | succ levels ih =>
    obtain ⟨more, rfl⟩ : ∃ rest, more = rest + 1 := ⟨more - 1, by omega⟩
    rw [addBases_succ, addBases_succ]
    apply List.foldl_ext
    intro order base hbase
    rw [addBase, addBase, ih (hends base hbase) (by omega)]

theorem chainsWithin_hasBase (hacyclic : ∀ id, ¬ Relation.TransGen program.Overrides id id) :
    ChainsWithin program.HasBase program.methods.size :=
  (chainsWithin_of_acyclic hacyclic fun _ _ => lt_size_of_overrides).mono
    fun _ _ hbase => hbase.overrides

/-- A walk to the bases that goes on without a bound: it adds the bases of a method, each after what
the walk from it has added. -/
def IsBaseWalk (program : Program) (walk : List MethodId → MethodId → List MethodId) : Prop :=
  ∀ order id, walk order id = (program.immediateBases id).foldl
    (fun order base => if order.contains base then order else appendNew (walk order base) base)
    order

/-- Without cycles the walk needs no bound: with more levels than there are methods it is the
unbounded walk. -/
theorem isBaseWalk_addBases (hacyclic : ∀ id, ¬ Relation.TransGen program.Overrides id id) :
    program.IsBaseWalk (program.addBases (program.methods.size + 1)) ∧
      ∀ levels, program.methods.size < levels →
        program.addBases levels = program.addBases (program.methods.size + 1) := by
  have hchains := chainsWithin_hasBase hacyclic
  have hmore : ∀ levels, program.methods.size < levels →
      program.addBases levels = program.addBases (program.methods.size + 1) := by
    intro levels hlevels
    funext order id
    exact addBases_eq_of_endsWithin (hchains.endsWithin id) hlevels order
  have hnext := hmore (program.methods.size + 2) (by omega)
  exact ⟨fun order id => (congrFun (congrFun hnext order) id).symm, hmore⟩

/-- Overriding without cycles, and what follows from it for the walk to the bases and for plans. -/
structure OverridesUpwards (program : Program) : Prop where
  acyclic : ∀ id, ¬ Relation.TransGen program.Overrides id id
  /-- Going from methods to their bases comes to an end. -/
  terminates : WellFounded fun base id => program.HasBase id base
  /-- Any bound that is not less than the number of methods gives the walk without a bound. -/
  unbounded : ∃ walk, program.IsBaseWalk walk ∧
    ∀ levels, program.methods.size < levels → program.addBases levels = walk
  /-- Nothing lies above a method and implements it. -/
  apart : ∀ root id, Relation.TransGen program.Overrides root id →
    id ∉ program.implementingMembers root
  /-- The walk does not come back to where it started, so a plan has nothing to take out of it. -/
  root_apart : ∀ root, root ∉ program.basesOfRoot root ∧ root ∉ (program.plan root).ancestors

theorem overridesUpwards_of_acyclic (hacyclic : ∀ id, ¬ Relation.TransGen program.Overrides id id) :
    program.OverridesUpwards := by
  have hchains : ChainsWithin program.HasBase program.methods.size := chainsWithin_hasBase hacyclic
  refine ⟨hacyclic, ⟨fun id => (hchains.endsWithin id).acc⟩, ⟨_, isBaseWalk_addBases hacyclic⟩,
    fun root id hpath hbelow => ?_, fun root => ?_⟩
  · exact hacyclic root (hpath.trans (implementingMembers_sound hbelow).2)
  · have hroot := (plan_parts hacyclic root).1
    rw [(plan_ancestors_descendants hacyclic root).1]
    exact ⟨hroot, hroot⟩

end Program

/-! ## Built programs -/

namespace Program

variable {program later : Program}

/-- A change of types that keeps the members. -/
theorem membersOf_of_modify {place : TypeId} {change : TypeDecl → TypeDecl}
    (htypes : later.types = program.types.modify place change)
    (hchange : ∀ type, (change type).members = type.members) (type : TypeId) :
    later.membersOf type = program.membersOf type := by
  simp only [membersOf, htypes, Array.getElem?_modify]
  by_cases hplace : place = type
  · rw [if_pos hplace]
    cases program.types[type]? with
    | none => rfl
    | some decl => exact hchange decl
  · rw [if_neg hplace]

theorem membersOf_addMethod (program : Program) (method : Method) (type : TypeId) :
    (program.addMethod method).membersOf type = program.membersOf type ++
      if method.owner = type ∧ type < program.types.size then [program.methods.size] else [] := by
  simp only [membersOf, addMethod, Array.getElem?_modify]
  by_cases howner : method.owner = type
  · rw [if_pos howner]
    by_cases htype : type < program.types.size
    · rw [if_pos ⟨howner, htype⟩, Array.getElem?_eq_getElem htype]
      rfl
    · rw [if_neg fun h => htype h.2, Array.getElem?_eq_none (Nat.le_of_not_lt htype)]
      rfl
  · rw [if_neg howner, if_neg fun h => howner h.1, List.append_nil]

theorem ownerOf?_addMethod (program : Program) (method : Method) (id : MethodId) :
    (program.addMethod method).ownerOf? id =
      if id = program.methods.size then some method.owner else program.ownerOf? id := by
  simp only [ownerOf?, addMethod, Array.getElem?_push]
  split <;> rfl

theorem ownerOf?_of_heads (h : later.methods.map Method.head = program.methods.map Method.head)
    (id : MethodId) : later.ownerOf? id = program.ownerOf? id := by
  have hhead := congrArg (fun methods => methods[id]?.map Method.owner) h
  simp only [Array.getElem?_map, Option.map_map] at hhead
  exact hhead

/-- Types list as members known methods that name them as their owner. -/
def MembersKnown (program : Program) : Prop :=
  ∀ type, ∀ id ∈ program.membersOf type, program.ownerOf? id = some type

theorem MembersKnown.owned (h : program.MembersKnown) : program.MembersOwned := by
  intro type id hid owner howner
  exact Option.some.inj (howner.symm.trans (h type id hid))

end Program

namespace Builder

open Program

variable {current : ModuleId} {call : Call} {program later : Program}

/-- A step leaves members and methods alone, apart from the declarations of these, or it adds a
method. -/
theorem Step.members_cases (h : Step current call program later) :
    ((∀ type, later.membersOf type = program.membersOf type) ∧
      later.methods.map Method.head = program.methods.map Method.head) ∨
    ∃ method, method.owner ∈ call.namedTypes ∧
      method.kind = kindOf ⟨program, current⟩ method.owner method.modifiers ∧
      later = program.addMethod method := by
  have hdeclared : ∀ (program : Program) row,
      (∀ type, (program.addDeclaration row).membersOf type = program.membersOf type) ∧
        (program.addDeclaration row).methods.map Method.head =
          program.methods.map Method.head := by
    intro program row
    refine ⟨fun type => ?_, program.heads_addDeclaration row⟩
    rw [membersOf, types_addDeclaration, membersOf]
  cases h with
  | addModule name => exact .inl ⟨fun _ => rfl, rfl⟩
  | addType kind name =>
    -- The new type has no members yet.
    refine .inl ⟨fun type => ?_, rfl⟩
    simp only [membersOf, Program.addType, Array.getElem?_push]
    by_cases htype : type = program.types.size
    · rw [if_pos htype, Array.getElem?_eq_none (Nat.le_of_eq htype.symm)]
    · rw [if_neg htype]
  | inherit place hchange =>
    refine .inl ⟨membersOf_of_modify rfl fun type => ?_, rfl⟩
    obtain ⟨baseClass, interfaces, heq⟩ := hchange type
    rw [heq]
  | addMethod hnew howner hkind => exact .inr ⟨_, howner, hkind, rfl⟩
  | declare => exact .inl (hdeclared _ _)
  | addNode node => exact .inl ⟨fun _ => rfl, rfl⟩
  | addPart => exact .inl (hdeclared _ _)
  | attachBody place statements =>
    refine .inl ⟨fun type => ?_, ?_⟩
    · rw [membersOf, types_attachBody]
      rfl
    · rw [methods_attachBody]
      rfl
  | addInitializer type name init =>
    refine .inl ⟨membersOf_of_modify (types_addInitializer _ type _) fun _ => rfl, ?_⟩
    rw [methods_addInitializer]
    rfl

theorem membersKnown_step (h : program.MembersKnown) (hstep : Step current call program later) :
    later.MembersKnown := by
  intro type id hid
  obtain ⟨hmembers, hheads⟩ | ⟨method, -, -, rfl⟩ := hstep.members_cases
  · rw [ownerOf?_of_heads hheads]
    exact h type id (hmembers type ▸ hid)
  · rw [membersOf_addMethod] at hid
    rw [ownerOf?_addMethod]
    rcases List.mem_append.mp hid with hold | hnew
    · have howner := h type id hold
      have hne : id ≠ program.methods.size := by
        rintro rfl
        rw [ownerOf?, Array.getElem?_eq_none (Nat.le_refl _)] at howner
        cases howner
      rw [if_neg hne]
      exact howner
    · split at hnew
      · rename_i howner
        rw [if_pos (List.mem_singleton.mp hnew), howner.1]
      · cases hnew

/-- Builders put a method among the members of the type that they make its owner. -/
theorem membersKnown_run {builder : Builder} (h : builder.program.MembersKnown)
    (calls : List Call) : (builder.run calls).program.MembersKnown :=
  run_invariant MembersKnown (fun _ _ _ _ hstep h => membersKnown_step h hstep) h calls

theorem membersKnown_withMain : withMain.program.MembersKnown := by
  intro type id hid
  cases hid

end Builder

/-! ## Conversions -/

namespace Conversion

open Program

theorem owner_liftedMethods (options : Options) (methods : Array Method) (ids : List MethodId)
    (id : MethodId) :
    (liftedMethods options methods ids)[id]?.map (·.owner) = methods[id]?.map (·.owner) := by
  induction ids generalizing methods with
  | nil => rfl
  | cons first ids ih =>
    simp only [liftedMethods, List.foldl_cons] at ih ⊢
    rw [ih, Array.getElem?_modify]
    split
    · cases methods[id]? <;> rfl
    · rfl

theorem runWith_layered {program : Program} (h : program.Layered) (options : Options)
    (search : ReferenceSearch) (root : MethodId) :
    (runWith options search program root).2.Layered := by
  obtain ⟨ids, hids⟩ := exists_passAfter_of_runWith options search program root
  rw [hids, passAfter_program]
  exact h.of_tables rfl (owner_liftedMethods options program.methods ids)

end Conversion

namespace Request

open Program

/-- In a valid program whose members are owned by the types that list them overriding has no cycle,
and no requests bring one about. -/
theorem requests_keep_overriding_acyclic {program : Program} (hvalid : program.validate = .ok ())
    (howned : program.MembersOwned) (requests : List Request) :
    (programAfter program requests).OverridesUpwards := by
  have hlayered : (programAfter program requests).Layered :=
    List.foldlRecOn _ _ (layered_of_validate hvalid howned) fun program h request _ =>
      perform_invariant (fun _ _ _ => Conversion.runWith_layered h _ _ _) h request
  exact overridesUpwards_of_acyclic hlayered.not_transGen_overrides

theorem requests_keep_overriding_acyclic_overriddenTwice :
    overriddenTwice.validate = .ok () ∧ overriddenTwice.MembersOwned ∧
      (programAfter overriddenTwice [.convert {} 2]).OverridesUpwards ∧
      (overriddenTwice.plan 2).ancestors = [0, 1] := by
  have hvalid : overriddenTwice.validate = .ok () :=
    validate_eq_ok.mpr ⟨by decide +kernel, by decide +kernel,
      checkTargets_eq_ok.mp (by decide +kernel), checkCycles_of_ordered (by decide +kernel)⟩
  have howned : overriddenTwice.MembersOwned :=
    (Builder.membersKnown_run Builder.membersKnown_withMain _).owned
  exact ⟨hvalid, howned, requests_keep_overriding_acyclic hvalid howned _, by decide +kernel⟩

end Request

namespace Program

/-- Three classes, each above the next. The first one lists a method that names the last one as its
owner. -/
def misplacedLoad : Program :=
  let built := (Builder.withMain.run
    [.addType .ofClass "Source", .addType .ofClass "FileSource", .addType .ofClass "CachedSource",
      .setBaseClass 1 0, .setBaseClass 2 1,
      .addMethod 0 { name := "Load", modifiers := { isOverride := true } },
      .addMethod 1 { name := "Load", modifiers := { isOverride := true } }]).program
  { built with methods := built.methods.modify 0 fun method => { method with owner := 2 } }

/-- The two methods override each other, and the program is valid. -/
theorem transGen_overrides_misplacedLoad :
    misplacedLoad.validate = .ok () ∧
      Relation.TransGen misplacedLoad.Overrides 0 0 := by
  have hvalid : misplacedLoad.validate = .ok () :=
    validate_eq_ok.mpr ⟨by decide +kernel, by decide +kernel,
      checkTargets_eq_ok.mp (by decide +kernel), checkCycles_of_ordered (by decide +kernel)⟩
  have hup : misplacedLoad.Overrides 0 1 := by
    unfold Program.Overrides
    decide +kernel
  have hdown : misplacedLoad.Overrides 1 0 := by
    unfold Program.Overrides
    decide +kernel
  exact ⟨hvalid, .tail (.single hup) hdown⟩

end Program

end AsyncLift
