import AsyncLift.Proofs.PlantedProjects
import AsyncLift.Proofs.SettledReferences
import AsyncLift.Proofs.WalkLimits

/-!
# When the two search scopes agree

In the narrow scope a conversion looks for references in one module only, that of its root's first
declaration. `run_scopes_agree`: if all references to planned methods lie in this module to begin
with, a conversion within it does what a conversion within the whole program does.

New references to planned methods may come up outside the module during the pass, since the scan of
a body points calls at counterparts wherever the body lies. These are settled when they come up, and
what is settled the search may find or not (`retargetSites_filter`). A reference that is not settled
is an old one, and it lies in the module that it lay in.
-/

namespace AsyncLift

namespace Pass

variable {pass : Pass} {options : Options}

theorem visited_subset_retargetSite (pass : Pass) (site : CallSite) :
    pass.visited ⊆ (pass.retargetSite site).visited := by
  have hvisit : pass.visited ⊆ (pass.visit site.node).visited := List.subset_cons_self _ _
  unfold retargetSite
  split
  · exact List.Subset.refl _
  · dsimp only
    split
    · exact hvisit
    · exact hvisit
    · unfold retarget
      split
      · exact hvisit
      · exact List.Subset.trans hvisit (List.subset_cons_self _ _)

/-- Sites that are settled already can be left out. -/
theorem retargetSites_filter {sites : List CallSite} {keep : CallSite → Bool}
    (hdropped : ∀ site ∈ sites, keep site = false → site.node ∈ pass.visited) :
    (sites.filter keep).foldl retargetSite pass = sites.foldl retargetSite pass := by
  induction sites generalizing pass with
  | nil => rfl
  | cons site sites ih =>
    have hlater : ∀ later ∈ sites, keep later = false →
        later.node ∈ (pass.retargetSite site).visited := fun later hmem hkeep =>
      visited_subset_retargetSite pass site
        (hdropped later (List.mem_cons_of_mem _ hmem) hkeep)
    rw [List.foldl_cons, ← ih hlater]
    cases hkeep : keep site with
    | true => rw [List.filter_cons_of_pos hkeep, List.foldl_cons]
    | false =>
      have hvisited := hdropped site List.mem_cons_self hkeep
      have hidle : pass.retargetSite site = pass := by
        rw [retargetSite, if_pos (List.contains_iff_mem.mpr hvisited)]
      rw [List.filter_cons_of_neg (by simp [hkeep]), hidle]

end Pass

namespace Program

variable {program : Program} {method : MethodId} {module_ : ModuleId}

/-- The narrow search finds those sites of the wide one that lie in its module. -/
theorem callSites_declaringModule (anchor : Option ModuleId) :
    program.callSites (.inProgram .declaringModule (some module_)) method =
      (program.callSites (.inProgram .solution anchor) method).filter
        fun site => program.moduleOf? site.node == some module_ := by
  simp only [callSites, ReferenceSearch.inProgram, List.filter_filterMap, List.filterMap_filter]
  refine List.filterMap_congr fun node _ => ?_
  cases hsite : program.callSite? method node with
  | none => simp
  | some site =>
    cases (program.nodes.get? node).any (·.target? == some method) with
    | false => simp
    | true =>
      obtain ⟨rfl, -⟩ := Conversion.callSite?_eq_some hsite
      simp [Option.filter]

/-- Every reference to one of the methods lies in the module. -/
def ReferencesLieIn (program : Program) (methods : List MethodId) (module? : Option ModuleId) :
    Prop :=
  ∀ node reference method, program.nodes.get? node = some reference →
    reference.target? = some method → method ∈ methods → program.moduleOf? node = module?

end Program

namespace Conversion

open Pass

variable {program : Program} {options : Options} {planned : List MethodId} {pass : Pass}
  {root id : MethodId} {module_ : ModuleId} {levels : Nat}

/-- While a planned method is converted, the references to it that lie elsewhere are settled. -/
theorem convertMethod_declaringModule (hlinked : program.nodes.Linked)
    (hdepth : program.nodes.DepthAtMost levels) (hlevels : 2 * levels ≤ maxParentHops)
    (hwithin : program.ReferencesLieIn planned (some module_)) (h : Expanding program.nodes pass)
    (hmodules : pass.program.rootModule = program.rootModule) (hid : id ∈ planned)
    (anchor : Option ModuleId) (declarations : List DeclId) :
    convertMethod options (.inProgram .declaringModule (some module_)) planned pass id
        declarations =
      convertMethod options (.inProgram .solution anchor) planned pass id declarations := by
  have hlifted := h.lift options id
  have hmodules' : (pass.lift options id).program.rootModule = program.rootModule := by
    rw [lift_program]
    exact hmodules
  have hsettled : ∀ site ∈ (pass.lift options id).program.callSites (.inProgram .solution anchor)
      id, ((pass.lift options id).program.moduleOf? site.node == some module_) = false →
        site.node ∈ (pass.lift options id).visited := by
    intro site hsite helsewhere
    by_contra hnew
    obtain ⟨node, hfound, hsome⟩ := List.mem_filterMap.mp hsite
    obtain ⟨rfl, -⟩ := callSite?_eq_some hsome
    obtain ⟨⟨reference, hnode, htarget⟩, -⟩ := mem_inProgram.mp hfound
    -- What is not settled is an old reference, and no node has changed its module.
    obtain ⟨hknown, hold⟩ := hlifted.traces.get?_of_not_visited hnew hnode
    have hmodule := hlifted.moduleOf?_eq hlinked hmodules' hdepth hlevels hknown
    rw [hwithin site.node reference id hold htarget hid] at hmodule
    rw [hmodule, beq_self_eq_true] at helsewhere
    cases helsewhere
  have hsites := retargetSites_filter hsettled
  rw [← Program.callSites_declaringModule] at hsites
  exact congrArg (declarations.foldl fun pass declaration =>
    pass.retargetBody options planned declaration) hsites

/-- The narrow search leads to the same pass as the wide one, whatever part of the plan is done. -/
theorem passAfter_declaringModule (hlinked : program.nodes.Linked)
    (hdepth : program.nodes.DepthAtMost levels) (hlevels : 2 * levels ≤ maxParentHops)
    (hwithin : program.ReferencesLieIn (program.plan root).order (some module_))
    (anchor : Option ModuleId) {ids : List MethodId} (hids : ids ⊆ (program.plan root).order) :
    passAfter options (.inProgram .declaringModule (some module_)) program root ids =
      passAfter options (.inProgram .solution anchor) program root ids := by
  induction ids using List.reverseRecOn with
  | nil => rfl
  | append_singleton ids id ih =>
    have hid : id ∈ (program.plan root).order :=
      hids (List.mem_append_right _ (List.mem_singleton_self id))
    have hbefore := ih fun other hother => hids (List.mem_append_left _ hother)
    have hexpanding := passAfter_expanding options (.inProgram .solution anchor) hlinked root ids
    have hmodules : (passAfter options (.inProgram .solution anchor) program root
        ids).program.rootModule = program.rootModule := by
      rw [passAfter_program]
    have hnarrow : passAfter options (.inProgram .declaringModule (some module_)) program root
        (ids ++ [id]) = _ := passOver_concat ids id
    have hwide : passAfter options (.inProgram .solution anchor) program root (ids ++ [id]) = _ :=
      passOver_concat ids id
    rw [hnarrow, hwide, ← passAfter, ← passAfter, hbefore]
    exact convertMethod_declaringModule hlinked hdepth hlevels hwithin hexpanding hmodules hid
      anchor _

/-- Options that differ in their scope alone are used alike in a pass. -/
theorem passAfter_scope (options : Options) (search : ReferenceSearch) (program : Program)
    (root : MethodId) (ids : List MethodId) (scope : SearchScope) :
    passAfter { options with scope } search program root ids =
      passAfter options search program root ids := rfl

/-- Conversions that go through the same passes have the same outcome. -/
theorem runWith_congr {options' : Options} {search search' : ReferenceSearch}
    (h : ∀ ids ⊆ (program.plan root).order,
      passAfter options search program root ids = passAfter options' search' program root ids) :
    runWith options search program root = runWith options' search' program root := by
  cases hroot : program.isDeclared root with
  | false => simp [runWith, hroot]
  | true =>
    rcases declared_or_first_undeclared program (program.plan root).order with hall | hfirst
    · rw [runWith_of_declared hroot hall, runWith_of_declared hroot hall,
        h _ (List.Subset.refl _)]
    · obtain ⟨before, id, after, horder, hbefore, hid⟩ := hfirst
      have hpart : before ⊆ (program.plan root).order := by
        rw [horder]
        exact List.subset_append_left _ _
      rw [runWith_of_undeclared hroot horder hbefore hid,
        runWith_of_undeclared hroot horder hbefore hid, h before hpart]

end Conversion

/-- The first declaration of a method that has one in a document is known. -/
theorem ProjectDoc.exists_declaringModule_of_load {doc : ProjectDoc} {program : Program}
    {root : MethodId} (h : doc.load = .ok program) (hroot : program.isDeclared root = true) :
    ∃ module_, program.declaringModule? root = some module_ := by
  obtain ⟨row, hrow⟩ := Conversion.exists_method_of_isDeclared hroot
  obtain ⟨owner, method, module_, -, hall, -⟩ := bodies_of_load h hrow
  have hne := Conversion.declarationsOf_ne_nil hroot
  rw [Conversion.declarationsOf, hrow] at hne
  cases hdeclarations : row.declarations with
  | nil => exact absurd hdeclarations hne
  | cons first rest =>
    rw [hdeclarations] at hall
    obtain ⟨body, bodies, ⟨declaration, hfirst, -⟩, -, -⟩ := List.forall₂_cons_right_iff.mp hall
    refine ⟨declaration.declaredIn, ?_⟩
    simp [Program.declaringModule?, hrow, hdeclarations, hfirst]

namespace Conversion

/-- If every reference to a planned method lies in the module of the root's first declaration, a
conversion gives the same program and the same report or error in both scopes. -/
theorem run_scopes_agree (text : String) (doc : ProjectDoc) (program : Program)
    (hparse : ProjectDoc.parse? text = some doc) (hload : doc.load = .ok program)
    (options : Options) (root : MethodId)
    (hwithin : program.ReferencesLieIn (program.plan root).order (program.declaringModule? root)) :
    run { options with scope := .declaringModule } program root =
      run { options with scope := .solution } program root := by
  have hplanted := ProjectDoc.planted_of_parse? hparse hload
  simp only [run, ReferenceSearch.anchoredAt]
  cases hroot : program.isDeclared root with
  | false => simp [runWith, hroot]
  | true =>
    obtain ⟨module_, hmodule⟩ := ProjectDoc.exists_declaringModule_of_load hload hroot
    rw [hmodule] at hwithin ⊢
    refine runWith_congr fun ids hids => ?_
    rw [passAfter_scope, passAfter_scope]
    exact passAfter_declaringModule hplanted.forest.linked hplanted.depthAtMost (by decide) hwithin
      (some module_) hids

/-- A method and its override in another module, both planned, and in the body of the first a call
whose callee has the second for its counterpart. -/
def counterpartAbroadText : String :=
  "[[[\"core\",[[\"A\",\"class\",null,[],[[\"LoadAsync\",\"Task\",[],[\"virtual\"],null,false," ++
    "[\x7b\"expr\":\x7b\"call\":[\"B.Load\"]\x7d\x7d]]]]]]," ++
    "[\"app\",[[\"B\",\"class\",\"A\",[],[[\"LoadAsync\",\"Task\",[],[\"override\"]],[\"Load\"]," ++
    "[\"Run\",\"void\",[],[],null,false," ++
    "[\x7b\"expr\":\x7b\"call\":[\"B.LoadAsync\"]\x7d\x7d]]]]]]]]"

def counterpartAbroad : Builder := ({} : Builder).run [
  .startModule "core", .addType .ofClass "A", .startModule "app", .addType .ofClass "B",
  .setBaseClass 1 0,
  .addMethod 0
    { name := "LoadAsync"
      returnType := .named "Task" []
      modifiers := { isVirtual := true } },
  .addMethod 1
    { name := "LoadAsync"
      returnType := .named "Task" []
      modifiers := { isOverride := true } },
  .addMethod 1 { name := "Load" }, .addMethod 1 { name := "Run" },
  .call none 2 [], .exprStatement (some 0), .setBody 0 [some 1],
  .call none 1 [], .exprStatement (some 3), .setBody 3 [some 4]]

/-- The scan of the first method's body makes a call of the second in the other module, before the
second method's turn; only the wide search finds it then. -/
theorem run_scopes_agree_counterpartAbroad :
    ∃ doc, ProjectDoc.parse? counterpartAbroadText = some doc ∧
      doc.load = .ok counterpartAbroad.program ∧
      counterpartAbroad.program.ReferencesLieIn (counterpartAbroad.program.plan 1).order
        (counterpartAbroad.program.declaringModule? 1) ∧
      run { scope := .declaringModule } counterpartAbroad.program 1 =
        run { scope := .solution } counterpartAbroad.program 1 ∧
      ((run { scope := .solution } counterpartAbroad.program 1).2.nodes.get? 6).bind (·.target?) =
        some 1 ∧
      (run { scope := .solution } counterpartAbroad.program 1).2.moduleOf? 6 = some 0 ∧
      counterpartAbroad.program.declaringModule? 1 = some 1 := by
  have hvalid : counterpartAbroad.program.validate = .ok () :=
    Program.validate_eq_ok.mpr ⟨by decide +kernel, by decide +kernel,
      Program.checkTargets_eq_ok.mp (by decide +kernel),
      Program.checkCycles_of_ordered (by decide +kernel)⟩
  obtain ⟨doc, hparse, hload⟩ := ProjectDoc.exists_load_of_build
    (by decide +kernel : (ProjectDoc.parse? counterpartAbroadText).map (·.build.run {}) =
      some (.ok ((), counterpartAbroad))) hvalid
  have hwithin : counterpartAbroad.program.ReferencesLieIn (counterpartAbroad.program.plan 1).order
      (counterpartAbroad.program.declaringModule? 1) := by
    have hall : ∀ node ∈ counterpartAbroad.program.nodes.ids, ∀ method ∈
        (counterpartAbroad.program.plan 1).order,
          (counterpartAbroad.program.nodes.get? node).bind (·.target?) = some method →
            counterpartAbroad.program.moduleOf? node =
              counterpartAbroad.program.declaringModule? 1 := by
      decide +kernel
    intro node reference method hnode htarget hplanned
    refine hall node (NodeStore.mem_ids.mpr (NodeStore.lt_size_of_get? hnode)) method hplanned ?_
    rw [hnode]
    exact htarget
  exact ⟨doc, hparse, hload, hwithin, run_scopes_agree _ doc _ hparse hload {} 1 hwithin,
    by decide +kernel, by decide +kernel, by decide +kernel⟩

end Conversion

end AsyncLift
