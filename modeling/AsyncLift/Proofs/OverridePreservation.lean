import AsyncLift.Proofs.MethodTable
import AsyncLift.Proofs.PlanClosure

/-!
# Overriding survives a conversion

A conversion gives the planned methods a new name. A planned method then matches those of its former
matches that are planned too, and it matches nothing else if the new name was free (`Thinned`). So
every search that its override targets come from passes more types than before, and it stops where
it stopped if it stopped at a planned method: a type that had no match has none now, and the first
match of a type stays the first if it is planned.

`runWith_keeps_overriding`: a planned method that overrides or implements a planned method does so
after the conversion.
-/

namespace AsyncLift

namespace Program

variable {program later : Program} {kept : List MethodId} {id target found : MethodId}
  {method lifted : Method} {type : TypeId}

/-! ## Planned methods have one signature -/

/-- What members must have in common to match. -/
def signature? (program : Program) (id : MethodId) : Option (String × List TypeExpr) :=
  program.methods[id]?.map fun method => (method.name, method.paramTypes)

theorem signature?_eq_some {name : String} {paramTypes : List TypeExpr} :
    program.signature? id = some (name, paramTypes) ↔
      ∃ method, program.methods[id]? = some method ∧ method.name = name ∧
        method.paramTypes = paramTypes := by
  simp [signature?]

theorem Overrides.signature?_eq (h : program.Overrides id target) :
    program.signature? target = program.signature? id := by
  obtain ⟨method, hmethod, -, -, -, htarget⟩ := mem_overrideTargets.mp h
  obtain ⟨-, other, hother, -, hname, hparams⟩ :=
    isMatch_iff.mp (isMatch_of_mem_classMethodTargets htarget)
  simp [signature?, hmethod, hother, hname, hparams]

theorem signature?_eq_of_transGen (h : Relation.TransGen program.Overrides id target) :
    program.signature? target = program.signature? id := by
  induction h with
  | single hoverrides => exact hoverrides.signature?_eq
  | tail _ hoverrides ih => exact hoverrides.signature?_eq.trans ih

theorem signature?_of_mem_plan {root : MethodId} (h : id ∈ (program.plan root).order) :
    program.signature? id = program.signature? root := by
  rcases overrides_of_mem_plan h with rfl | habove | hbelow
  · rfl
  · exact signature?_eq_of_transGen habove
  · exact (signature?_eq_of_transGen hbelow).symm

/-! ## Searches with fewer matches -/

/-- In the later program the method has become another, which matches what it matched before and is
kept. -/
structure Thinned (kept : List MethodId) (program later : Program) (id : MethodId)
    (method lifted : Method) : Prop where
  types : later.types = program.types
  owner : lifted.owner = method.owner
  isOverride : lifted.modifiers.isOverride = method.modifiers.isOverride
  isMatch : ∀ candidate, later.isMatch id lifted candidate = true ↔
    candidate ∈ kept ∧ program.isMatch id method candidate = true

namespace Thinned

theorem membersOf (h : Thinned kept program later id method lifted) (type : TypeId) :
    later.membersOf type = program.membersOf type := by
  simp only [Program.membersOf, h.types]

theorem baseClassOf (h : Thinned kept program later id method lifted) (type : TypeId) :
    later.baseClassOf type = program.baseClassOf type := by
  simp only [Program.baseClassOf, h.types]

theorem interfacesOf (h : Thinned kept program later id method lifted) (type : TypeId) :
    later.interfacesOf type = program.interfacesOf type := by
  simp only [Program.interfacesOf, h.types]

theorem matchingMember?_of_none (h : Thinned kept program later id method lifted)
    (hnone : program.matchingMember? id method type = none) :
    later.matchingMember? id lifted type = none := by
  rw [matchingMember?_eq_find?, List.find?_eq_none] at hnone ⊢
  intro candidate hcandidate hmatch
  rw [h.membersOf] at hcandidate
  exact hnone candidate hcandidate ((h.isMatch candidate).mp hmatch).2

/-- The first match stays the first if it is kept. -/
theorem matchingMember?_of_kept (h : Thinned kept program later id method lifted)
    (hfound : program.matchingMember? id method type = some found) (hkept : found ∈ kept) :
    later.matchingMember? id lifted type = some found := by
  rw [matchingMember?_eq_find?, List.find?_eq_some_iff_append] at hfound ⊢
  obtain ⟨hmatch, before, after, hmembers, hbefore⟩ := hfound
  refine ⟨(h.isMatch found).mpr ⟨hkept, hmatch⟩, before, after, ?_, ?_⟩
  · rw [h.membersOf, hmembers]
  · intro candidate hcandidate
    have hformer : program.isMatch id method candidate = false := by
      simpa using hbefore candidate hcandidate
    rw [Bool.not_eq_true', Bool.eq_false_iff]
    intro hlater
    rw [((h.isMatch candidate).mp hlater).2] at hformer
    cases hformer

theorem inheritedMember? (h : Thinned kept program later id method lifted) {classes : Nat}
    {start : Option TypeId} (hfound : program.inheritedMember? id method classes start = some found)
    (hkept : found ∈ kept) : later.inheritedMember? id lifted classes start = some found := by
  induction classes generalizing start with
  | zero => cases hfound
  | succ classes ih =>
    cases start with
    | none => cases hfound
    | some type =>
      rw [Program.inheritedMember?] at hfound ⊢
      cases hmember : program.matchingMember? id method type with
      | some member =>
        rw [hmember] at hfound
        cases hfound
        rw [h.matchingMember?_of_kept hmember hkept]
      | none =>
        rw [hmember] at hfound
        rw [h.matchingMember?_of_none hmember, h.baseClassOf]
        exact ih hfound

theorem reachesOwner (h : Thinned kept program later id method lifted) {classes : Nat}
    {start : Option TypeId} (hreaches : program.reachesOwner id method classes start = true) :
    later.reachesOwner id lifted classes start = true := by
  induction classes generalizing start with
  | zero => cases hreaches
  | succ classes ih =>
    cases start with
    | none => cases hreaches
    | some type =>
      simp only [Program.reachesOwner, Bool.or_eq_true, Bool.and_eq_true,
        Option.isNone_iff_eq_none, h.owner, h.baseClassOf] at hreaches ⊢
      rcases hreaches with howner | ⟨hnone, hrest⟩
      · exact .inl howner
      · exact .inr ⟨h.matchingMember?_of_none hnone, ih hrest⟩

theorem inheritsUnchanged (h : Thinned kept program later id method lifted)
    (hinherits : program.inheritsUnchanged id method type = true) :
    later.inheritsUnchanged id lifted type = true := by
  unfold Program.inheritsUnchanged at hinherits ⊢
  rw [h.types]
  cases hdecl : program.types[type]? with
  | none =>
    rw [hdecl] at hinherits
    cases hinherits
  | some decl =>
    simp only [hdecl, Bool.and_eq_true, Option.isNone_iff_eq_none, h.owner] at hinherits ⊢
    obtain ⟨⟨hclass, hnone⟩, hreaches⟩ := hinherits
    exact ⟨⟨hclass, h.matchingMember?_of_none hnone⟩, h.reachesOwner hreaches⟩

theorem implementedInterfaces (h : Thinned kept program later id method lifted)
    (htype : type ∈ program.implementedInterfaces id method) :
    type ∈ later.implementedInterfaces id lifted := by
  have hids : later.typeIds = program.typeIds := by simp only [Program.typeIds, h.types]
  unfold Program.implementedInterfaces at htype ⊢
  rw [List.mem_append, List.mem_flatMap] at htype ⊢
  rcases htype with hown | ⟨derived, hderived, hlists⟩
  · rw [h.owner, h.interfacesOf]
    exact .inl hown
  · obtain ⟨hmem, hinherits⟩ := List.mem_filter.mp hderived
    refine .inr ⟨derived, List.mem_filter.mpr ⟨?_, h.inheritsUnchanged hinherits⟩, ?_⟩
    · rw [hids]
      exact hmem
    · rw [h.interfacesOf]
      exact hlists

theorem lists (h : Thinned kept program later id method lifted) : later.Lists = program.Lists := by
  funext type interface
  simp only [Program.Lists, h.interfacesOf]

theorem reaches (h : Thinned kept program later id method lifted)
    (hreaches : program.Reaches id method type found) (hkept : found ∈ kept) :
    later.Reaches id lifted type found := by
  obtain ⟨interface, hpath, hmember⟩ := hreaches
  refine ⟨interface, ?_, h.matchingMember?_of_kept hmember hkept⟩
  rw [h.lists]
  exact hpath

theorem classMethodTargets (h : Thinned kept program later id method lifted)
    (hends : ∀ type, EndsWithin program.Lists (maxHierarchyDepth + 1) type)
    (htarget : target ∈ program.classMethodTargets id method) (hkept : target ∈ kept) :
    target ∈ later.classMethodTargets id lifted := by
  rw [mem_classMethodTargets fun start _ => h.lists ▸ hends start]
  rcases classMethodTargets_sound htarget with hoverridden | ⟨start, hstart, hreaches⟩
  · left
    unfold overridden at hoverridden ⊢
    rw [h.isOverride, h.owner, h.baseClassOf]
    split
    · rename_i hmarked
      rw [if_pos hmarked, Option.mem_toList] at hoverridden
      rw [Option.mem_toList]
      exact h.inheritedMember? hoverridden hkept
    · rename_i hmarked
      rw [if_neg hmarked] at hoverridden
      cases hoverridden
  · exact .inr ⟨start, h.implementedInterfaces hstart, h.reaches hreaches hkept⟩

end Thinned

end Program

namespace Conversion

open Program

variable {options : Options} {search : ReferenceSearch} {program later : Program}
  {kept : List MethodId} {root id : MethodId} {method rootMethod : Method} {name : String}

theorem lift_owner (method : Method) (options : Options) :
    (method.lift options).owner = method.owner := rfl

theorem lift_paramTypes (method : Method) (options : Options) :
    (method.lift options).paramTypes = method.paramTypes := rfl

theorem lift_isStatic (method : Method) (options : Options) :
    (method.lift options).isStatic = method.isStatic := by
  rw [lift_eq]
  rfl

theorem lift_isOverride (method : Method) (options : Options) :
    (method.lift options).modifiers.isOverride = method.modifiers.isOverride := by
  rw [lift_eq]

/-- Where methods of one name are lifted to a name that was free, the lifted methods match each
other as before, and nothing else. -/
theorem thinned_of_lifted (htypes : later.types = program.types)
    (hmethods : ∀ id : MethodId, later.methods[id]? =
      if id ∈ kept then program.methods[id]?.map (·.lift options) else program.methods[id]?)
    (hnames : ∀ id ∈ kept, ∀ method, program.methods[id]? = some method → method.name = name)
    (hfree : ∀ method ∈ program.methods, method.name ≠ options.asyncName name)
    (hkept : id ∈ kept) (hmethod : program.methods[id]? = some method) :
    Thinned kept program later id method (method.lift options) := by
  refine ⟨htypes, lift_owner .., lift_isOverride .., ?_⟩
  have hname : method.name = name := hnames id hkept method hmethod
  have hlifted : (method.lift options).name = options.asyncName name := by
    rw [← hname]
    rfl
  intro candidate
  rw [isMatch_iff, isMatch_iff, hlifted, lift_paramTypes, hmethods]
  by_cases hcandidate : candidate ∈ kept
  · rw [if_pos hcandidate]
    cases hother : program.methods[candidate]? with
    | none => simp
    | some other =>
      have hothername : other.name = name := hnames candidate hcandidate other hother
      have hotherlifted : (other.lift options).name = options.asyncName name := by
        rw [← hothername]
        rfl
      simp [hcandidate, hname, hothername, hotherlifted, lift_isStatic, lift_paramTypes]
  · rw [if_neg hcandidate]
    constructor
    · rintro ⟨-, other, hother, -, htaken, -⟩
      exact absurd htaken (hfree other (Array.mem_of_getElem? hother))
    · rintro ⟨hmem, -⟩
      exact absurd hmem hcandidate

/-- Where no chain of inheritance has more than 256 steps and the root's new name is free, a
conversion that succeeds keeps the planned methods as targets of planned methods. These have one
signature, the root's, before and after. -/
theorem runWith_keeps_overriding {report : Report} {final : Program}
    (hchains : ChainsWithin program.InheritsFrom 256)
    (hroot : program.methods[root]? = some rootMethod)
    (hfree : ∀ method ∈ program.methods, method.name ≠ options.asyncName rootMethod.name)
    (hrun : runWith options search program root = (.ok report, final)) :
    (∀ id ∈ (program.plan root).order, ∀ target ∈ (program.plan root).order,
      program.Overrides id target → final.Overrides id target) ∧
    ∀ id ∈ (program.plan root).order,
      program.signature? id = some (rootMethod.name, rootMethod.paramTypes) ∧
        final.signature? id =
          some (options.asyncName rootMethod.name, rootMethod.paramTypes) := by
  obtain ⟨-, -, rfl⟩ := passAfter_of_runWith_ok hrun
  have hends : ∀ type, EndsWithin program.Lists (maxHierarchyDepth + 1) type :=
    (hchains.mono fun _ _ hlists => hlists.inheritsFrom).endsWithin
  have hsignature : ∀ id ∈ (program.plan root).order,
      program.signature? id = some (rootMethod.name, rootMethod.paramTypes) := by
    intro id hid
    rw [signature?_of_mem_plan hid]
    exact signature?_eq_some.mpr ⟨rootMethod, hroot, rfl, rfl⟩
  have hmethods := getElem?_passAfter options search program root (program.nodup_plan_order root)
  have htypes :
      (passAfter options search program root (program.plan root).order).program.types =
        program.types := by
    rw [passAfter_program]
  constructor
  · intro id hid target htarget hoverrides
    obtain ⟨method, hmethod, hstatic, howner, hkind, hmem⟩ := mem_overrideTargets.mp hoverrides
    have hnames : ∀ id ∈ (program.plan root).order, ∀ method,
        program.methods[id]? = some method → method.name = rootMethod.name := by
      intro id hid method hmethod
      obtain ⟨other, hother, hname, -⟩ := signature?_eq_some.mp (hsignature id hid)
      rw [hmethod] at hother
      cases hother
      exact hname
    have hthinned := thinned_of_lifted htypes hmethods hnames hfree hid hmethod
    refine mem_overrideTargets.mpr ⟨method.lift options, ?_, ?_, ?_, hkind, ?_⟩
    · rw [hmethods, if_pos hid, hmethod]
      rfl
    · rw [lift_isStatic]
      exact hstatic
    · rw [htypes]
      exact howner
    · exact hthinned.classMethodTargets hends hmem htarget
  · intro id hid
    refine ⟨hsignature id hid, signature?_eq_some.mpr ?_⟩
    obtain ⟨method, hmethod, hname, hparams⟩ := signature?_eq_some.mp (hsignature id hid)
    refine ⟨method.lift options, ?_, ?_, hparams⟩
    · rw [hmethods, if_pos hid, hmethod]
      rfl
    · rw [← hname]
      rfl

/-- A method that implements the interface member only because a class below it lists the interface,
and a method of the same name that is not planned with it. -/
def inheritedLoad : Program :=
  (Builder.withMain.run
    [.addType .ofInterface "ISource", .addType .ofClass "Source", .addType .ofClass "FileSource",
      .addType .ofClass "CachedSource", .setBaseClass 2 1, .listInterface 2 0, .setBaseClass 3 1,
      .addMethod 0 { name := "Load" }, .addMethod 1 { name := "Load" },
      .addMethod 3 { name := "Load" }]).program

theorem runWith_keeps_overriding_inheritedLoad :
    ∃ report final, run {} inheritedLoad 1 = (.ok report, final) ∧
      (inheritedLoad.plan 1).order = [0, 1] ∧ inheritedLoad.Overrides 1 0 ∧
      final.Overrides 1 0 ∧ final.signature? 0 = some ("LoadAsync", []) := by
  have hchains : ChainsWithin inheritedLoad.InheritsFrom 256 := by
    apply chainsWithin_of_lt
    intro type parent hinherits
    have hknown : type < 4 := lt_size_of_inheritsFrom hinherits
    have hfalls : ∀ type < 4, ∀ parent ∈ inheritedLoad.supertypesOf type, parent < type := by
      decide +kernel
    exact ⟨hfalls type hknown parent hinherits, by omega⟩
  have horder : (inheritedLoad.plan 1).order = [0, 1] := by decide +kernel
  have hoverrides : inheritedLoad.Overrides 1 0 := by unfold Program.Overrides; decide +kernel
  have hrun : run {} inheritedLoad 1 = _ :=
    runWith_of_declared (by decide +kernel) (by decide +kernel)
  obtain ⟨hkept, hnames⟩ := runWith_keeps_overriding hchains rfl (by decide +kernel) hrun
  rw [horder] at hkept hnames
  exact ⟨_, _, hrun, horder, hoverrides, hkept 1 (by simp) 0 (by simp) hoverrides,
    (hnames 0 (by simp)).2⟩

end Conversion

end AsyncLift
