import AsyncLift.Proofs.AwaitPlacement
import AsyncLift.Proofs.Descendants
import AsyncLift.Proofs.PlantedProjects

/-!
# Walks that never reach their limits

A walk downwards stops after `maxBodyDepth` levels and a walk upwards after `maxParentHops` hops,
and neither says so. In a program that was loaded this never happens, whatever is converted in it:
its trees have no more levels than brackets may be open in a document, and a call is put below an
`await` at most once in all (`NodeStore.Regrown`), so that no tree ever gets more than twice as many
levels and one (`Program.GrownFrom.planted`).

`Program.WithinLimits` says what this is good for. `requests_stay_within_limits`: it holds of a
loaded program after any requests, and at the moments in between when bodies are scanned for calls.
-/

namespace AsyncLift

namespace NodeStore

variable {old store : NodeStore} {id root : NodeId} {levels : Nat}

/-- A walk needs twice the hops from an old node, and one more from below an `await`. -/
theorem Regrown.climb_of_fresh (h : old.Regrown store) (hlinked : old.Linked)
    (hclimb : ∀ id < old.size, ∃ root, old.climb levels id = some root)
    (hid : id < store.size) :
    ∃ slot < old.size, store.climb (2 * levels + 1) id = old.climb levels slot := by
  have hold : ∀ slot < old.size, store.climb (2 * levels) slot = old.climb levels slot := by
    intro slot hslot
    obtain ⟨root, hroot⟩ := hclimb slot hslot
    rw [hroot, h.expands.climb_of_earlier hlinked hslot hroot (Nat.le_succ _)]
  by_cases hknown : id < old.size
  · obtain ⟨root, hroot⟩ := hclimb id hknown
    refine ⟨id, hknown, ?_⟩
    rw [hroot]
    exact climb_mono (Nat.le_succ _) ((hold id hknown).trans hroot)
  · obtain ⟨-, slot, hslot, hawait⟩ := h.fresh id (Nat.le_of_not_lt hknown) hid
    have hparent : store.parent? id = some slot := by
      apply h.linked.adopted slot id
      rw [childrenOf_of_get? hawait]
      exact List.mem_singleton_self id
    refine ⟨slot, hslot, ?_⟩
    rw [climb_succ hparent]
    exact hold slot hslot

end NodeStore

namespace Program

variable {program later : Program} {levels : Nat}

/-! ## Programs that grow by conversions -/

/-- The later program has come from the first one by changing signatures and replacing calls, each
moved below an `await` at most once. -/
structure GrownFrom (program later : Program) : Prop where
  tables : later = { program with methods := later.methods, nodes := later.nodes }
  declarations : ∀ method id, program.HasDeclaration method id → later.HasDeclaration method id
  nodes : program.nodes.Regrown later.nodes
  forest : later.nodes.Forest

namespace GrownFrom

theorem refl (h : program.nodes.Forest) : program.GrownFrom program where
  tables := rfl
  declarations _ _ h := h
  nodes := .refl h.linked
  forest := h

theorem lift (h : program.GrownFrom later) (options : Options) (method : MethodId) :
    program.GrownFrom { later with methods := later.methods.modify method (·.lift options) } where
  tables := by rw [h.tables]
  declarations other declaration hlisted :=
    (h.declarations other declaration hlisted).modify fun _ => id
  nodes := h.nodes
  forest := h.forest

theorem step (hlinked : program.nodes.Linked) {admits : Pass.Warrant} {pass pass' : Pass}
    (hstep : Pass.Step admits pass pass') (h : program.GrownFrom pass.program) :
    program.GrownFrom pass'.program := by
  refine ⟨?_, ?_, ?_, ?_⟩
  · rw [hstep.program_eq, h.tables]
  · rw [hstep.program_eq]
    exact h.declarations
  · cases hstep with
    | kept | skipped => exact h.nodes
    | renamed _ hnode _ _ _ _ hnodes => exact h.nodes.inPlace hnode rfl hnodes rfl rfl
    | wrapped _ hnode _ _ _ _ _ hnodes hbare =>
      have hknown := h.nodes.lt_size_of_bare hnode (not_await_of_bare hbare)
      exact h.nodes.moved hlinked hnode rfl hnodes rfl rfl hknown
  · cases hstep with
    | kept | skipped => exact h.forest
    | renamed _ hnode _ _ _ _ hnodes => exact h.forest.inPlace hnode hnodes rfl
    | wrapped _ hnode _ _ _ _ _ hnodes => exact h.forest.moved hnode hnodes rfl

theorem registered (h : program.GrownFrom later) {root : NodeId} (hroot : program.Registered root) :
    later.Registered root := by
  rcases hroot with ⟨id, declaration, howner, hrow, hbody, hmodule, hlisted⟩ | hinit
  · have hlisted := h.declarations _ _ hlisted
    rw [h.tables] at hlisted ⊢
    exact .inl ⟨id, declaration, howner, hrow, hbody, hmodule, hlisted⟩
  · rw [h.tables]
    exact .inr hinit

/-- Every tree has the root that it had, at most twice as far away and one hop more. -/
theorem planted (h : program.GrownFrom later) (hplanted : program.Planted levels) :
    later.Planted (2 * levels + 1) := by
  have hlinked := hplanted.forest.linked
  refine ⟨h.forest, fun root hroot => ?_, fun id hid => ?_⟩
  · have hroot' : program.IsRoot root := by
      rw [h.tables] at hroot
      exact hroot
    obtain ⟨hknown, htop⟩ := hplanted.roots root hroot'
    exact ⟨Nat.lt_of_lt_of_le hknown h.nodes.size_le, h.nodes.expands.root root hknown htop⟩
  · have hclimb : ∀ slot < program.nodes.size,
        ∃ root, program.nodes.climb levels slot = some root := fun slot hslot => by
      obtain ⟨root, hroot, -⟩ := hplanted.climbs slot hslot
      exact ⟨root, hroot⟩
    obtain ⟨slot, hslot, hsame⟩ := h.nodes.climb_of_fresh hlinked hclimb hid
    obtain ⟨root, hroot, hregistered⟩ := hplanted.climbs slot hslot
    exact ⟨root, hsame.trans hroot, h.registered hregistered⟩

end GrownFrom

/-! ## What limits that are out of reach give -/

/-- No walk of the program ends at its limit. -/
structure WithinLimits (program : Program) : Prop where
  wellFormed : program.WellFormed
  /-- Below a body stand the nodes that have it as their root, each listed once. -/
  descendants : ∀ declaration ∈ program.declarations, ∀ body ∈ declaration.body,
    (program.nodes.descendants body).Nodup ∧
      ∀ id, id ∈ program.nodes.descendants body ↔
        id ≠ body ∧ program.nodes.rootOf id = some body
  /-- The calls of a body are all scanned, each once. -/
  invocations : ∀ declaration ∈ program.declarations, ∀ body ∈ declaration.body,
    (program.invocations body).Nodup ∧
      ∀ id, id ∈ program.invocations body ↔
        (program.nodes.get? id).any (·.isCall) = true ∧ id ≠ body ∧
          program.nodes.rootOf id = some body
  /-- Every node has a root, and this is a body or an initializer that is registered. -/
  roots : ∀ id < program.nodes.size,
    ∃ root, program.nodes.rootOf id = some root ∧ program.Registered root
  /-- More hops find no other root. -/
  climb : ∀ id < program.nodes.size, ∀ hops, maxParentHops ≤ hops →
    program.nodes.climb hops id = program.nodes.rootOf id
  /-- More hops find no other enclosing function. -/
  functionFrom? : ∀ id < program.nodes.size, ∀ hops, maxParentHops ≤ hops →
    program.functionFrom? hops id = program.functionFrom? maxParentHops id

namespace Planted

theorem depthAtMost (h : program.Planted levels) : program.nodes.DepthAtMost levels := by
  intro id hid
  obtain ⟨root, hroot, -⟩ := h.climbs id hid
  rw [hroot]
  rfl

theorem wellFormed (h : program.Planted levels) : program.WellFormed where
  forest := h.forest
  bodies declaration hdeclaration body hbody :=
    (h.roots body (.inl ⟨declaration, hdeclaration, hbody⟩)).2
  initializers type htype root hroot := (h.roots root (.inr ⟨type, htype, hroot⟩)).2

theorem withinLimits (h : program.Planted levels) (hlevels : levels ≤ maxBodyDepth) :
    program.WithinLimits := by
  have hhops : levels ≤ maxParentHops := by
    simp only [maxBodyDepth, maxParentHops] at hlevels ⊢
    omega
  have hlisted : ∀ declaration ∈ program.declarations, ∀ body ∈ declaration.body, ∀ id,
      id ∈ program.nodes.descendants body ↔
        id ≠ body ∧ program.nodes.rootOf id = some body := by
    intro declaration hdeclaration body hbody id
    exact NodeStore.mem_descendants_iff_rootOf h.forest h.depthAtMost hlevels
      (h.wellFormed.bodies declaration hdeclaration body hbody)
  refine ⟨h.wellFormed, ?_, ?_, ?_, ?_, ?_⟩
  · intro declaration hdeclaration body hbody
    exact ⟨NodeStore.nodup_descendants h.forest body,
      hlisted declaration hdeclaration body hbody⟩
  · intro declaration hdeclaration body hbody
    refine ⟨(NodeStore.nodup_descendants h.forest body).filter _, fun id => ?_⟩
    rw [invocations, List.mem_filter, hlisted declaration hdeclaration body hbody, and_comm]
  · intro id hid
    obtain ⟨root, hroot, hregistered⟩ := h.climbs id hid
    exact ⟨root, NodeStore.climb_mono hhops hroot, hregistered⟩
  · intro id hid hops hle
    obtain ⟨root, hroot, -⟩ := h.climbs id hid
    rw [NodeStore.climb_mono (Nat.le_trans hhops hle) hroot]
    exact (NodeStore.climb_mono hhops hroot).symm
  · intro id hid hops hle
    obtain ⟨root, hroot, -⟩ := h.climbs id hid
    rw [functionFrom?_eq_searchUp, functionFrom?_eq_searchUp,
      NodeStore.searchUp_of_climb hroot (Nat.le_trans hhops hle),
      NodeStore.searchUp_of_climb hroot hhops]

end Planted

end Program

/-! ## Requests -/

namespace Conversion

open Pass

variable {program start : Program} {options : Options} {search : ReferenceSearch}
  {root method : MethodId} {before : List MethodId}

/-- The pass of a conversion when the references to a method are settled and some of its
declarations have been scanned. -/
def atScan (options : Options) (search : ReferenceSearch) (program : Program) (root : MethodId)
    (before : List MethodId) (method : MethodId) (scanned : List DeclId) : Pass :=
  let turn := atTurn options search program root before method
  scanned.foldl
    (fun pass declaration => pass.retargetBody options (program.plan root).order declaration)
    ((turn.program.callSites search method).foldl Pass.retargetSite turn)

/-- When all of its declarations have been scanned, the method is converted. -/
theorem atScan_declarationsOf : atScan options search program root before method
      (declarationsOf (passAfter options search program root before).program method) =
    passAfter options search program root (before ++ [method]) := by
  exact (passOver_concat before method).symm

theorem passAfter_grownFrom (hlinked : program.nodes.Linked) (h : program.GrownFrom start)
    (options : Options) (search : ReferenceSearch) (root : MethodId) (ids : List MethodId) :
    program.GrownFrom (passAfter options search start root ids).program := by
  let Inv : Pass → Prop := fun pass => program.GrownFrom pass.program
  have hlift : ∀ pass id, Inv pass → Inv (pass.lift options id) := by
    intro pass id hpass
    simp only [Inv, Pass.lift_program]
    exact hpass.lift options id
  have hstep : ∀ pass pass', Step anything pass pass' → Inv pass → Inv pass' :=
    fun _ _ step hpass => hpass.step hlinked step
  have houtset : Inv (outset start root) := h
  exact passOver_invariant hlift hstep houtset ids

theorem atScan_grownFrom (hlinked : program.nodes.Linked) (h : program.GrownFrom start)
    (options : Options) (search : ReferenceSearch) (root : MethodId) (before : List MethodId)
    (method : MethodId) (scanned : List DeclId) :
    program.GrownFrom (atScan options search start root before method scanned).program := by
  have hturn : program.GrownFrom (atTurn options search start root before method).program := by
    rw [atTurn, lift_program]
    exact (passAfter_grownFrom hlinked h options search root before).lift options method
  have hsteps : Steps anything (atTurn options search start root before method)
      (atScan options search start root before method scanned) :=
    (retargetSites_callSites_steps fun _ _ _ _ => trivial).trans
      (retargetBodies_steps_anything options _ _ scanned)
  let Inv : Pass → Prop := fun pass => program.GrownFrom pass.program
  have hstep : ∀ pass pass', Step anything pass pass' → Inv pass → Inv pass' :=
    fun _ _ step hpass => hpass.step hlinked step
  exact hsteps.invariant hstep hturn

end Conversion

namespace Request

variable {program : Program}

theorem programAfter_grownFrom (hforest : program.nodes.Forest) (requests : List Request) :
    program.GrownFrom (programAfter program requests) := by
  have hrun : ∀ start, program.GrownFrom start → ∀ request : Request,
      program.GrownFrom (request.perform start).2 := by
    intro start hstart
    refine perform_invariant (fun options search root => ?_) hstart
    obtain ⟨ids, hids⟩ := Conversion.exists_passAfter_of_runWith options search start root
    rw [hids]
    exact Conversion.passAfter_grownFrom hforest.linked hstart options search root ids
  exact List.foldlRecOn _ _ (.refl hforest) fun start hstart request _ => hrun start hstart request

/-- In a program that was loaded no walk ends at its limit, after any requests and whenever a body
is scanned during the next one. -/
theorem requests_stay_within_limits (text : String) (doc : ProjectDoc) (program : Program)
    (hparse : ProjectDoc.parse? text = some doc) (hload : doc.load = .ok program)
    (requests : List Request) :
    (programAfter program requests).WithinLimits ∧
      ∀ options search root before method scanned,
        (Conversion.atScan options search (programAfter program requests) root before method
          scanned).program.WithinLimits := by
  have hplanted := ProjectDoc.planted_of_parse? hparse hload
  have hlimits : ∀ later, program.GrownFrom later → later.WithinLimits := fun later hlater =>
    (hlater.planted hplanted).withinLimits (by decide)
  have hgrown := programAfter_grownFrom hplanted.forest requests
  refine ⟨hlimits _ hgrown, fun options search root before method scanned => hlimits _ ?_⟩
  exact Conversion.atScan_grownFrom hplanted.forest.linked hgrown options search root before method
    scanned

/-- A call in an argument of a call of the same method, and a lambda in an initializer. -/
def loadsInHandlerText : String :=
  "[[[\"app\",[[\"C\",\"class\",null,[],[[\"Load\",\"int\",[],[],\"load\"]," ++
    "[\"Run\",\"void\",[],[],\"run\",false," ++
    "[\x7b\"expr\":\x7b\"call\":[\"load\",null,null,[\x7b\"call\":[\"load\"]\x7d]]\x7d\x7d]]]," ++
    "[[\"handler\",\x7b\"lambda\":\x7b\"body\":" ++
    "[\x7b\"expr\":\x7b\"call\":[\"run\"]\x7d\x7d]\x7d\x7d]]]]]]]"

def loadsInHandlerBuilder : Builder := ({} : Builder).run [
  .startModule "app", .addType .ofClass "C",
  .addMethod 0 { name := "Load", returnType := .named "int" [], key := some "load" },
  .addMethod 0 { name := "Run", key := some "run" },
  .call none 0 [], .call none 0 [some 0], .exprStatement (some 1), .setBody 1 [some 2],
  .call none 1 [], .exprStatement (some 4), .lambda false [] [some 5],
  .addField 0 "handler" (some 7)]

/-- The caller is converted first, and then its callee under another suffix, which moves both nested
calls below an `await` of their own. -/
theorem requests_stay_within_limits_loadsInHandler :
    ∃ doc, ProjectDoc.parse? loadsInHandlerText = some doc ∧
      doc.load = .ok loadsInHandlerBuilder.program ∧
      loadsInHandlerBuilder.program.nodes.size = 9 ∧
      (programAfter loadsInHandlerBuilder.program
        [.execute { counterpart := .off } 1, .convert { suffix := "Later" } 0]).nodes.size = 11 ∧
      (programAfter loadsInHandlerBuilder.program
        [.execute { counterpart := .off } 1, .convert { suffix := "Later" } 0]).WithinLimits := by
  have hvalid : loadsInHandlerBuilder.program.validate = .ok () :=
    Program.validate_eq_ok.mpr ⟨by decide +kernel, by decide +kernel,
      Program.checkTargets_eq_ok.mp (by decide +kernel),
      Program.checkCycles_of_ordered (by decide +kernel)⟩
  obtain ⟨doc, hparse, hload⟩ := ProjectDoc.exists_load_of_build
    (by decide +kernel : (ProjectDoc.parse? loadsInHandlerText).map (·.build.run {}) =
      some (.ok ((), loadsInHandlerBuilder))) hvalid
  refine ⟨doc, hparse, hload, by decide +kernel, by decide +kernel, ?_⟩
  exact (requests_stay_within_limits _ doc _ hparse hload _).1

end Request

end AsyncLift
