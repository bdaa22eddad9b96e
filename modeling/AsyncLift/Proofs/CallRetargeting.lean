import AsyncLift.Proofs.Descendants
import AsyncLift.Proofs.Integrity
import AsyncLift.Proofs.RegisteredRoots

/-!
# Retargeting one call

Retargeting a call renames it in its place, or moves it below an `await` that takes the place. In
either case nothing else moves (`Program.retargetCall_moves_nobody`): every old node lies in the
function, the tree and the module that it lay in, the call that comes out lies in the tree and the
module where the call lay that went in, and to retarget it once more changes nothing.

It lies in the same function too, with one exception. A walk to the enclosing function asks whose
body the topmost node is, but only of nodes above the one that it starts from. A call that is itself
registered as a body therefore has no enclosing function, and below an `await` that takes its place
it has one (`Program.AwaitsBody`). Building registers blocks only (`Program.BodiesAreBlocks`), so
that this takes a body that was overwritten by a call
(`Program.retargetCall_enters_overwrittenBody`).
-/

namespace AsyncLift

namespace NodeStore

variable {store : NodeStore} {id : NodeId} {node : Node}

/-- To put a node where it stands changes nothing. -/
theorem set_of_get? (h : store.get? id = some node) : store.set id node = store := by
  obtain ⟨entry, hentry, rfl⟩ := Option.map_eq_some_iff.mp h
  suffices hentries : store.entries.modify id (fun other => { other with node := entry.node }) =
      store.entries by
    rw [set, hentries]
  refine Array.ext_getElem? fun other => ?_
  rw [Array.getElem?_modify]
  split
  · rename_i hid
    rw [← hid, hentry]
    rfl
  · rfl

end NodeStore

namespace Program

variable {program result : Program} {node : NodeId} {target : MethodId} {awaiting : Bool}
  {placement : Placement} {method : Method} {receiver : Slot} {name : String}
  {old : Option MethodId} {args : List Slot} {levels : Nat}

/-- What is registered as the body of a declaration is a block. -/
def BodiesAreBlocks (program : Program) : Prop :=
  ∀ body id, program.bodyOwner.find? body = some id →
    ∃ statements, program.nodes.get? body = some (.block statements)

theorem RootsRegistered.bodiesAreBlocks (h : program.RootsRegistered) :
    program.BodiesAreBlocks := by
  intro body id howner
  obtain ⟨module_, hbody⟩ := (h.owners body id).mp howner
  exact h.blocks id body module_ hbody

/-- An `await` is asked for above a call that stands alone and is registered as the body of a
declaration. -/
def AwaitsBody (program : Program) (node : NodeId) (awaiting : Bool) (declaration : DeclId) :
    Prop :=
  awaiting = true ∧ program.nodes.parent? node = none ∧
    program.bodyOwner.find? node = some declaration

theorem BodiesAreBlocks.not_awaitsBody (h : program.BodiesAreBlocks)
    (hnode : program.nodes.get? node = some (.call receiver name old args)) (awaiting : Bool)
    (declaration : DeclId) : ¬ program.AwaitsBody node awaiting declaration := by
  rintro ⟨-, -, howner⟩
  obtain ⟨statements, hblock⟩ := h node declaration howner
  cases hnode.symm.trans hblock

/-! ## Calls that are settled already -/

/-- A call that has the target and its name, and the `await` that is asked for, stays as it is. -/
theorem retargetCall_of_settled (hmethod : program.methods[target]? = some method)
    (hnode : program.nodes.get? node = some (.call receiver method.name (some target) args))
    (hawaited : (awaiting && !program.isUnderAwait node) = false) :
    program.retargetCall node target awaiting = some (⟨node, awaiting⟩, program) := by
  simp only [retargetCall, hmethod, hnode, hawaited, NodeStore.set_of_get? hnode]
  rfl

theorem isUnderAwait_of_await {place : NodeId} {operand : Slot}
    (hparent : program.nodes.parent? node = some place)
    (hawait : program.nodes.get? place = some (.await operand)) :
    program.isUnderAwait node = true := by
  simp [isUnderAwait, hparent, hawait]

/-- A call that is replaced in its place is under an `await` if it was under one. -/
theorem isUnderAwait_inPlace {name' : String} {old' : Option MethodId}
    (hnode : program.nodes.get? node = some (.call receiver name old args))
    (hnodes : program.nodes.InPlace node (.call receiver name' old' args) result.nodes) :
    result.isUnderAwait node = program.isUnderAwait node := by
  rw [isUnderAwait, isUnderAwait, hnodes.parent?_eq]
  cases program.nodes.parent? node with
  | none => rfl
  | some parent =>
    dsimp only [bind, Option.bind_some]
    rw [hnodes.get?_eq]
    by_cases hparent : parent = node
    · rw [if_pos hparent, hparent, hnode]
    · rw [if_neg hparent]

/-! ## One call retargeted -/

section Retargeted

variable (hlinked : program.nodes.Linked)
  (h : program.retargetCall node target awaiting = some (placement, result))
include hlinked h

/-- The walks upwards go through the result as they went through the program. -/
theorem stretches_retargetCall : program.Stretches result := by
  obtain ⟨method, receiver, name, old, args, -, hnode, hresult, -, hplaced⟩ := retargetCall_cases h
  have hknown := NodeStore.lt_size_of_get? hnode
  have hbefore : program.boundary? node = none := boundary?_of_call hnode rfl
  have hsame : ∀ id, result.nodes.get? id = program.nodes.get? id →
      result.boundary? id = program.boundary? id := by
    intro id hget
    rw [boundary?, boundary?, hget]
  refine ⟨?_, by rw [hresult], fun id hid => ?_, fun id hle hlt => ?_⟩
  · obtain ⟨-, -, hnodes⟩ | ⟨-, -, hnodes⟩ := hplaced
    · exact (NodeStore.Expands.refl _).inPlace hnodes
    · exact (NodeStore.Expands.refl _).moved hlinked hlinked (Nat.le_refl _) rfl hnode hnodes rfl
  · by_cases hcall : id = node
    · -- Neither the call nor the `await` in its place is a boundary.
      subst hcall
      rw [hbefore, boundary?]
      obtain ⟨-, -, hnodes⟩ | ⟨-, -, hnodes⟩ := hplaced
      · rw [hnodes.get?_eq, if_pos rfl]
      · rw [hnodes.get?_eq, if_pos rfl]
    · refine hsame id ?_
      obtain ⟨-, -, hnodes⟩ | ⟨-, -, hnodes⟩ := hplaced
      · rw [hnodes.get?_eq, if_neg hcall]
      · rw [hnodes.get?_eq, if_neg hcall, if_neg (Nat.ne_of_lt hid)]
  · obtain ⟨-, -, hnodes⟩ | ⟨-, -, hnodes⟩ := hplaced
    · exact absurd (hnodes.size_eq ▸ hlt) (Nat.not_lt.mpr hle)
    · rw [hnodes.size_eq] at hlt
      obtain rfl : id = program.nodes.size := Nat.le_antisymm (Nat.le_of_lt_succ hlt) hle
      have hmoved : result.nodes.get? program.nodes.size =
          some (.call receiver method.name (some target) args) := by
        rw [hnodes.get?_eq, if_neg (Nat.ne_of_gt hknown), if_pos rfl]
      exact boundary?_of_call hmoved rfl

/-- The call stands in its new place under the name of the target, and retargeting it again changes
nothing. -/
theorem retargetCall_again (hmethod : program.methods[target]? = some method)
    (hnode : program.nodes.get? node = some (.call receiver name old args)) :
    result.nodes.get? placement.call = some (.call receiver method.name (some target) args) ∧
      result.retargetCall placement.call target awaiting = some (placement, result) := by
  obtain ⟨method', receiver', name', old', args', hmethod', hnode', hresult, hawaited, hplaced⟩ :=
    retargetCall_cases h
  cases hmethod.symm.trans hmethod'
  cases hnode.symm.trans hnode'
  have hmethods : result.methods[target]? = some method := by rw [hresult, hmethod]
  have hsettled : result.nodes.get? placement.call =
        some (.call receiver method.name (some target) args) ∧
      (awaiting && !result.isUnderAwait placement.call) = false := by
    obtain ⟨hplace, hkeep, hnodes⟩ | ⟨hplace, -, hnodes⟩ := hplaced
    · rw [hplace, isUnderAwait_inPlace hnode hnodes]
      exact ⟨(hnodes.get?_eq node).trans (if_pos rfl), hkeep⟩
    · have hfresh := hlinked.parent?_moved_fresh hnode hnodes rfl
      have hawait := (hnodes.get?_eq node).trans (if_pos rfl)
      have hne : program.nodes.size ≠ node := Nat.ne_of_gt (NodeStore.lt_size_of_get? hnode)
      rw [hplace, isUnderAwait_of_await hfresh hawait, Bool.not_true, Bool.and_false]
      exact ⟨(hnodes.get?_eq _).trans ((if_neg hne).trans (if_pos rfl)), rfl⟩
  refine ⟨hsettled.1, ?_⟩
  rw [retargetCall_of_settled hmethods hsettled.1 hsettled.2, ← hawaited]

/-- A walk from the moved call is a walk from the `await` above it, and this one asks whose body the
place is if there is nothing above the place. -/
theorem enclosingFunction?_moved (hplace : result.nodes.parent? placement.call = some node)
    (hdepth : program.nodes.DepthAtMost levels) (hlevels : 2 * levels ≤ maxParentHops) :
    result.enclosingFunction? placement.call =
      match program.nodes.parent? node with
      | some _ => program.enclosingFunction? node
      | none => (program.bodyOwner.find? node).map .method := by
  have hstretches := stretches_retargetCall hlinked h
  obtain ⟨method, receiver, name, old, args, -, hnode, -⟩ := retargetCall_cases h
  have hknown := NodeStore.lt_size_of_get? hnode
  obtain ⟨root, hroot⟩ := Option.isSome_iff_exists.mp (hdepth node hknown)
  have hnone : program.boundary? node = none := boundary?_of_call hnode rfl
  obtain ⟨rest, hrest⟩ : ∃ rest, maxParentHops = rest + 1 := ⟨9999, rfl⟩
  rw [enclosingFunction?_of_parent hplace,
    hstretches.functionFrom?_eq hlinked hknown hroot (by omega) hlevels]
  cases hparent : program.nodes.parent? node with
  | none =>
    rw [hrest, functionFrom?_eq_searchUp, NodeStore.searchUp, hnone, hparent]
  | some parent => exact functionFrom?_of_parent hnone hparent hroot (by omega)

/-- The call comes to lie in the tree in which it lay. -/
theorem rootOf_retargetCall (hdepth : program.nodes.DepthAtMost levels)
    (hlevels : 2 * levels ≤ maxParentHops) :
    result.nodes.rootOf placement.call = program.nodes.rootOf node := by
  have hexpands := (stretches_retargetCall hlinked h).expands
  obtain ⟨method, receiver, name, old, args, -, hnode, -, -, hplaced⟩ := retargetCall_cases h
  have hknown := NodeStore.lt_size_of_get? hnode
  obtain ⟨hplace, -, -⟩ | ⟨hplace, -, hnodes⟩ := hplaced
  · rw [hplace]
    exact hexpands.rootOf_eq hlinked hdepth hlevels hknown
  · have hfresh := hlinked.parent?_moved_fresh hnode hnodes rfl
    obtain ⟨root, hroot⟩ := Option.isSome_iff_exists.mp (hdepth node hknown)
    obtain ⟨rest, hrest⟩ : ∃ rest, maxParentHops = rest + 1 := ⟨9999, rfl⟩
    rw [hplace, NodeStore.rootOf, NodeStore.rootOf, NodeStore.climb_mono (by omega) hroot, hrest,
      NodeStore.climb_succ hfresh]
    exact hexpands.climb_of_earlier hlinked hknown hroot (hrest ▸ hlevels)

/-- The call comes to lie in the function in which it lay, unless it is registered as a body and an
`await` takes its place. -/
theorem enclosingFunction?_retargetCall (hdepth : program.nodes.DepthAtMost levels)
    (hlevels : 2 * levels ≤ maxParentHops) :
    (∀ declaration, program.AwaitsBody node awaiting declaration →
      program.enclosingFunction? node = none ∧
        result.enclosingFunction? placement.call = some (.method declaration)) ∧
    ((∀ declaration, ¬ program.AwaitsBody node awaiting declaration) →
      result.enclosingFunction? placement.call = program.enclosingFunction? node) := by
  obtain ⟨method, receiver, name, old, args, -, hnode, -, -, hplaced⟩ := retargetCall_cases h
  obtain ⟨hplace, hkeep, -⟩ | ⟨hplace, hmoves, hnodes⟩ := hplaced
  · -- A call that stands alone is under no `await`, so that it stays only if none is asked for.
    have hstays : ∀ declaration, ¬ program.AwaitsBody node awaiting declaration := by
      rintro declaration ⟨rfl, hparent, -⟩
      simp [isUnderAwait, hparent] at hkeep
    refine ⟨fun declaration hbody => absurd hbody (hstays declaration), fun _ => ?_⟩
    rw [hplace]
    exact (stretches_retargetCall hlinked h).enclosingFunction?_eq hlinked hdepth hlevels
      (NodeStore.lt_size_of_get? hnode)
  · have hfresh : result.nodes.parent? placement.call = some node := by
      rw [hplace]
      exact hlinked.parent?_moved_fresh hnode hnodes rfl
    have hawaiting : awaiting = true := (Bool.and_eq_true_iff.mp hmoves).1
    rw [enclosingFunction?_moved hlinked h hfresh hdepth hlevels]
    refine ⟨?_, fun hnobody => ?_⟩
    · rintro declaration ⟨-, hparent, howner⟩
      rw [hparent, howner]
      exact ⟨enclosingFunction?_of_root hparent, rfl⟩
    · cases hparent : program.nodes.parent? node with
      | some parent => rfl
      | none =>
        have hnone : program.bodyOwner.find? node = none :=
          Option.eq_none_iff_forall_ne_some.mpr fun declaration howner =>
            hnobody declaration ⟨hawaiting, hparent, howner⟩
        rw [enclosingFunction?_of_root hparent, hnone]
        rfl

end Retargeted

/-- Retargeting a call to a known method gives a result. Every old node has the enclosing function,
the root, the module and the body that it had; the call has the root and the module of its old
place, and retargeting it once more gives the same place and changes nothing. It has the enclosing
function of its old place unless it is registered as the body of a declaration and an `await` takes
its place: it had no enclosing function then and has the method of the declaration. No call is
registered so where the registered bodies are blocks. -/
theorem retargetCall_moves_nobody (hprogram : program.WellFormed)
    (hdepth : program.nodes.DepthAtMost 5000)
    (hnode : program.nodes.get? node = some (.call receiver name old args))
    (hmethod : program.methods[target]? = some method) (awaiting : Bool) :
    ∃ placement result, program.retargetCall node target awaiting = some (placement, result) ∧
      (∀ id < program.nodes.size,
        result.enclosingFunction? id = program.enclosingFunction? id ∧
        result.nodes.rootOf id = program.nodes.rootOf id ∧
        result.moduleOf? id = program.moduleOf? id ∧
        result.bodyOwner.find? id = program.bodyOwner.find? id) ∧
      result.nodes.get? placement.call = some (.call receiver method.name (some target) args) ∧
      result.nodes.rootOf placement.call = program.nodes.rootOf node ∧
      result.moduleOf? placement.call = program.moduleOf? node ∧
      ((∀ declaration, ¬ program.AwaitsBody node awaiting declaration) →
        result.enclosingFunction? placement.call = program.enclosingFunction? node) ∧
      (∀ declaration, program.AwaitsBody node awaiting declaration →
        program.enclosingFunction? node = none ∧
          result.enclosingFunction? placement.call = some (.method declaration)) ∧
      (program.BodiesAreBlocks →
        result.enclosingFunction? placement.call = program.enclosingFunction? node) ∧
      result.retargetCall placement.call target awaiting = some (placement, result) := by
  have hlinked := hprogram.forest.linked
  have hlevels : 2 * 5000 ≤ maxParentHops := Nat.le_refl _
  obtain ⟨placement, result, h⟩ := retargetCall_isSome hmethod hnode awaiting
  obtain ⟨-, -, -, -, -, -, -, hresult, -⟩ := retargetCall_cases h
  have hstretches := stretches_retargetCall hlinked h
  obtain ⟨hcall, hagain⟩ := retargetCall_again hlinked h hmethod hnode
  have hroot := rootOf_retargetCall hlinked h hdepth hlevels
  obtain ⟨hbody, hplain⟩ := enclosingFunction?_retargetCall hlinked h hdepth hlevels
  have hmodule : ∀ id place, result.nodes.rootOf place = program.nodes.rootOf id →
      result.moduleOf? place = program.moduleOf? id := by
    intro id place hroots
    rw [moduleOf?, moduleOf?, hroots, hresult]
  refine ⟨placement, result, h, fun id hid => ?_, hcall, hroot,
    hmodule node placement.call hroot, hplain, hbody,
    fun hblocks => hplain (hblocks.not_awaitsBody hnode awaiting), hagain⟩
  have hroots := hstretches.expands.rootOf_eq hlinked hdepth hlevels hid
  exact ⟨hstretches.enclosingFunction?_eq hlinked hdepth hlevels hid, hroots,
    hmodule id id hroots, by rw [hstretches.bodyOwner]⟩

/-- The outer one of two nested calls moves below an `await`. The inner call has one more node above
it and lies in the same method. -/
theorem retargetCall_moves_nobody_nestedLoads :
    Request.nestedLoads.WellFormed ∧ Request.nestedLoads.BodiesAreBlocks ∧
      ∃ result, Request.nestedLoads.retargetCall 1 0 true = some (⟨7, true⟩, result) ∧
        Request.nestedLoads.nodes.above? 3 0 = some 6 ∧ result.nodes.above? 4 0 = some 6 ∧
        result.enclosingFunction? 0 = some (.method 1) ∧
        result.enclosingFunction? 7 = some (.method 1) ∧
        result.nodes.rootOf 7 = some 6 ∧ result.moduleOf? 7 = some 0 ∧
        result.retargetCall 7 0 true = some (⟨7, true⟩, result) := by
  have hprogram := Request.intact_nestedLoads.wellFormed
  have hbodies : Request.nestedLoads.BodiesAreBlocks :=
    (Builder.rootsRegistered_run Builder.rootsRegistered_withMain _).bodiesAreBlocks
  have hdepth : Request.nestedLoads.nodes.DepthAtMost 5000 := by
    unfold NodeStore.DepthAtMost
    decide +kernel
  have hnode : Request.nestedLoads.nodes.get? 1 = some (.call none "Load" (some 0) [some 0]) := by
    decide +kernel
  obtain ⟨method, hmethod⟩ : ∃ method, Request.nestedLoads.methods[0]? = some method := ⟨_, rfl⟩
  obtain ⟨placement, result, h, hsame, -, hroot, hmodule, -, -, henclosing, hagain⟩ :=
    retargetCall_moves_nobody hprogram hdepth hnode hmethod true
  have hplace : (Request.nestedLoads.retargetCall 1 0 true).map (·.1) = some ⟨7, true⟩ := by
    decide +kernel
  have habove : (Request.nestedLoads.retargetCall 1 0 true).bind (·.2.nodes.above? 4 0) =
      some 6 := by
    decide +kernel
  rw [h] at hplace habove
  cases hplace
  refine ⟨hprogram, hbodies, result, h, by decide +kernel, habove, ?_, ?_, ?_, ?_, hagain⟩
  · exact (hsame 0 (by decide +kernel)).1.trans (by decide +kernel)
  · exact (henclosing hbodies).trans (by decide +kernel)
  · exact hroot.trans (by decide +kernel)
  · exact hmodule.trans (by decide +kernel)

/-- A method whose body was overwritten by a call. -/
def overwrittenBody : Program :=
  let program := (Builder.withMain.run
    [.addType .ofClass "Store", .addMethod 0 { name := "Load" }, .addMethod 0 { name := "Run" },
      .setBody 1 []]).program
  { program with nodes := program.nodes.set 0 (.call none "Load" (some 0) []) }

/-- The call in place of the body has no enclosing function, and below an `await` it lies in the
method. -/
theorem retargetCall_enters_overwrittenBody :
    overwrittenBody.WellFormed ∧ overwrittenBody.nodes.DepthAtMost 5000 ∧
      overwrittenBody.validate = .ok () ∧
      overwrittenBody.nodes.get? 0 = some (.call none "Load" (some 0) []) ∧
      overwrittenBody.enclosingFunction? 0 = none ∧
      ∃ result, overwrittenBody.retargetCall 0 0 true = some (⟨1, true⟩, result) ∧
        result.enclosingFunction? 1 = some (.method 1) := by
  have hdepth : overwrittenBody.nodes.DepthAtMost 5000 := by
    unfold NodeStore.DepthAtMost
    decide +kernel
  have hprogram : overwrittenBody.WellFormed :=
    ⟨NodeStore.forest_of_depth hdepth (by decide +kernel) (by decide +kernel) (by decide +kernel),
      by decide +kernel, by decide +kernel⟩
  have hvalid : overwrittenBody.validate = .ok () :=
    validate_eq_ok.mpr ⟨by decide +kernel, by decide +kernel,
      checkTargets_eq_ok.mp (by decide +kernel), checkCycles_of_ordered (by decide +kernel)⟩
  obtain ⟨⟨placement, result⟩, hresult⟩ :
      ∃ outcome, overwrittenBody.retargetCall 0 0 true = some outcome := ⟨_, rfl⟩
  have hplace : (overwrittenBody.retargetCall 0 0 true).map (·.1) = some ⟨1, true⟩ := by
    decide +kernel
  have hentered : (overwrittenBody.retargetCall 0 0 true).bind (·.2.enclosingFunction? 1) =
      some (.method 1) := by
    decide +kernel
  rw [hresult] at hplace hentered
  cases hplace
  exact ⟨hprogram, hdepth, hvalid, by decide +kernel, by decide +kernel, result, hresult, hentered⟩

end Program

end AsyncLift
