import AsyncLift.Proofs.Forest
import AsyncLift.Proofs.StoreEdits

/-!
# Walks upwards during a conversion

A conversion puts an `await` above a call, so that walks upwards from below the call take one more
hop. `NodeStore.Expands` says that this is all: every old link is there still, or it leads through
one fresh node.

Both walks of a program, to the root of a tree and to the enclosing function, are instances of
`NodeStore.searchUp`. What such a walk finds in the later store it finds in the earlier one
(`Expands.searchUp_of_later`); conversely twice the hops are enough (`Expands.searchUp_eq`). Hence
in trees of at most half as many levels as `maxParentHops`, the enclosing function and the module of
a node never change (`Program.Stretches.enclosingFunction?_eq`, `Expanding.moduleOf?_eq`).
-/

namespace AsyncLift

namespace NodeStore

variable {α : Type} {verdict verdict' : NodeId → Option (Option α)} {atRoot : NodeId → Option α}
  {store old new result : NodeStore} {hops more : Nat} {id root : NodeId} {answer : α}
  {node node' : Node}

/-- Goes from a node towards its root, up to the first node that has a verdict. -/
def searchUp (store : NodeStore) (verdict : NodeId → Option (Option α))
    (atRoot : NodeId → Option α) : (hops : Nat) → NodeId → Option α
  | 0, _ => none
  | hops + 1, id =>
    match verdict id with
    | some answer => answer
    | none =>
      match store.parent? id with
      | none => atRoot id
      | some parent => store.searchUp verdict atRoot hops parent

theorem searchUp_of_parent {parent : NodeId} (hverdict : verdict id = none)
    (hparent : store.parent? id = some parent) :
    store.searchUp verdict atRoot (hops + 1) id = store.searchUp verdict atRoot hops parent := by
  rw [searchUp, hverdict, hparent]

theorem searchUp_mono (hle : hops ≤ more)
    (h : store.searchUp verdict atRoot hops id = some answer) :
    store.searchUp verdict atRoot more id = some answer := by
  induction hops generalizing id more with
  | zero => cases h
  | succ hops ih =>
    obtain ⟨more, rfl⟩ : ∃ rest, more = rest + 1 := ⟨more - 1, by omega⟩
    rw [searchUp] at h ⊢
    split at h
    · exact h
    · split at h
      · exact h
      · exact ih (Nat.le_of_succ_le_succ hle) h

theorem climb_eq_searchUp (store : NodeStore) (hops : Nat) (id : NodeId) :
    store.climb hops id = store.searchUp (fun _ => none) some hops id := by
  induction hops generalizing id with
  | zero => rfl
  | succ hops ih =>
    rw [climb, searchUp]
    cases store.parent? id with
    | none => rfl
    | some parent => exact ih parent

theorem climb_mono (hle : hops ≤ more) (h : store.climb hops id = some root) :
    store.climb more id = some root := by
  rw [climb_eq_searchUp] at h ⊢
  exact searchUp_mono hle h

/-! ## Stores that expand another one -/

/-- The links of the old store are there, some of them through one fresh node. -/
structure Expands (old new : NodeStore) : Prop where
  root : ∀ id < old.size, old.parent? id = none → new.parent? id = none
  parent : ∀ id parent, old.parent? id = some parent → new.parent? id = some parent ∨
    ∃ moved, old.size ≤ moved ∧ new.parent? id = some moved ∧ new.parent? moved = some parent

namespace Expands

theorem refl (store : NodeStore) : store.Expands store where
  root _ _ h := h
  parent _ _ h := .inl h

theorem inPlace (h : old.Expands store) (hresult : store.InPlace id node result) :
    old.Expands result := by
  refine ⟨fun other hother hroot => ?_, fun other parent hparent => ?_⟩
  · rw [hresult.parent?_eq]
    exact h.root other hother hroot
  · simp only [hresult.parent?_eq]
    exact h.parent other parent hparent

/-- A call that has the children it has in the old store moves: only these get a new parent, the
fresh node, which has the old parent above it. -/
theorem moved (h : old.Expands store) (hlinked : old.Linked) (hlinked' : store.Linked)
    (hsize : old.size ≤ store.size) (hsame : store.childrenOf id = old.childrenOf id)
    (hnode : store.get? id = some node) (hresult : store.Moved id node' result)
    (hchildren : node'.children = node.children) : old.Expands result := by
  have hother : ∀ other < store.size, other ∉ old.childrenOf id →
      result.parent? other = store.parent? other := fun other hlt hchild =>
    Linked.parent?_moved_other hnode hresult hchildren hlt (hsame ▸ hchild)
  refine ⟨fun other hlt hroot => ?_, fun other parent hparent => ?_⟩
  · rw [hother other (Nat.lt_of_lt_of_le hlt hsize)]
    · exact h.root other hlt hroot
    · intro hchild
      rw [hlinked.adopted id other hchild] at hroot
      cases hroot
  · by_cases hchild : other ∈ old.childrenOf id
    · cases (hlinked.adopted id other hchild).symm.trans hparent
      exact .inr ⟨store.size, hsize,
        hlinked'.parent?_moved_child hnode hresult hchildren (hsame ▸ hchild),
        hlinked'.parent?_moved_fresh hnode hresult hchildren⟩
    · rw [hother other (Nat.lt_of_lt_of_le (lt_size_of_parent? hparent) hsize) hchild]
      rcases h.parent other parent hparent with hdirect | ⟨place, hfresh, hplace, habove⟩
      · exact .inl hdirect
      · refine .inr ⟨place, hfresh, hplace, ?_⟩
        rw [hother place (lt_size_of_parent? habove)]
        · exact habove
        · exact fun hmem => Nat.not_lt.mpr hfresh (hlinked.child_known hmem)

/-- A walk in the later store passes through the nodes of the earlier one, and perhaps through fresh
nodes between them, which settle nothing. -/
theorem searchUp_of_later (h : old.Expands new) (hlinked : old.Linked)
    (hverdict : ∀ id < old.size, verdict' id = verdict id)
    (hfresh : ∀ id, old.size ≤ id → id < new.size → verdict' id = none) (hid : id < old.size)
    (hfound : new.searchUp verdict' atRoot hops id = some answer) :
    old.searchUp verdict atRoot hops id = some answer := by
  induction hops using Nat.strongRecOn generalizing id with
  | ind hops ih =>
    cases hops with
    | zero => cases hfound
    | succ hops =>
      rw [searchUp, hverdict id hid] at hfound
      rw [searchUp]
      cases hv : verdict id with
      | some settled =>
        rw [hv] at hfound
        exact hfound
      | none =>
        rw [hv] at hfound
        cases hparent : old.parent? id with
        | none =>
          rw [h.root id hid hparent] at hfound
          exact hfound
        | some parent =>
          have hknown := hlinked.parent_known id parent hparent
          rcases h.parent id parent hparent with hdirect | ⟨moved, hge, hmoved, habove⟩
          · rw [hdirect] at hfound
            exact ih hops (Nat.lt_succ_self hops) hknown hfound
          · -- Two hops of the later walk make one of the earlier, hence the strong induction.
            rw [hmoved] at hfound
            cases hops with
            | zero => cases hfound
            | succ hops =>
              have hnone := hfresh moved hge (lt_size_of_parent? habove)
              have hrest : new.searchUp verdict' atRoot hops parent = some answer :=
                (searchUp_of_parent hnone habove).symm.trans hfound
              exact searchUp_mono (Nat.le_succ hops) (ih hops (by omega) hknown hrest)

/-- Where the root is near, twice the hops find in the later store what is found in the earlier
one. -/
theorem searchUp_eq (h : old.Expands new) (hlinked : old.Linked)
    (hverdict : ∀ id < old.size, verdict' id = verdict id)
    (hfresh : ∀ id, old.size ≤ id → id < new.size → verdict' id = none) (hid : id < old.size)
    (hroot : old.climb hops id = some root) (hle : 2 * hops ≤ more + 1) :
    new.searchUp verdict' atRoot more id = old.searchUp verdict atRoot hops id := by
  induction hops generalizing id more with
  | zero => cases hroot
  | succ hops ih =>
    obtain ⟨more, rfl⟩ : ∃ rest, more = rest + 1 := ⟨more - 1, by omega⟩
    rw [searchUp, searchUp, hverdict id hid]
    cases verdict id with
    | some settled => rfl
    | none =>
      cases hparent : old.parent? id with
      | none => rw [h.root id hid hparent]
      | some parent =>
        have hknown := hlinked.parent_known id parent hparent
        rw [climb_succ hparent] at hroot
        rcases h.parent id parent hparent with hdirect | ⟨moved, hge, hmoved, habove⟩
        · rw [hdirect]
          exact ih hknown hroot (by omega)
        · obtain ⟨more, rfl⟩ : ∃ rest, more = rest + 1 := by
            cases hops with
            | zero => cases hroot
            | succ hops => exact ⟨more - 1, by omega⟩
          rw [hmoved]
          have hnone := hfresh moved hge (lt_size_of_parent? habove)
          exact (searchUp_of_parent hnone habove).trans (ih hknown hroot (by omega))

/-- Where the root is near, twice the hops lead to it. -/
theorem climb_of_earlier (h : old.Expands new) (hlinked : old.Linked) (hid : id < old.size)
    (hroot : old.climb hops id = some root) (hle : 2 * hops ≤ more + 1) :
    new.climb more id = some root := by
  rw [← hroot, climb_eq_searchUp, climb_eq_searchUp]
  exact h.searchUp_eq hlinked (fun _ _ => rfl) (fun _ _ _ => rfl) hid hroot hle

/-- In trees of bounded depth the root of an old node does not change. -/
theorem rootOf_eq {levels : Nat} (h : old.Expands new) (hlinked : old.Linked)
    (hdepth : old.DepthAtMost levels) (hlevels : 2 * levels ≤ maxParentHops)
    (hid : id < old.size) : new.rootOf id = old.rootOf id := by
  obtain ⟨root, hroot⟩ := Option.isSome_iff_exists.mp (hdepth id hid)
  rw [rootOf, rootOf, h.climb_of_earlier hlinked hid hroot (Nat.le_succ_of_le hlevels),
    climb_mono (by omega) hroot]

end Expands

/-- More hops than the root is away make no difference. -/
theorem searchUp_of_climb (hroot : store.climb hops id = some root) (hle : hops ≤ more) :
    store.searchUp verdict atRoot more id = store.searchUp verdict atRoot hops id := by
  induction hops generalizing id more with
  | zero => cases hroot
  | succ hops ih =>
    obtain ⟨more, rfl⟩ : ∃ rest, more = rest + 1 := ⟨more - 1, by omega⟩
    rw [searchUp, searchUp]
    cases verdict id with
    | some settled => rfl
    | none =>
      cases hparent : store.parent? id with
      | none => rfl
      | some parent =>
        rw [climb_succ hparent] at hroot
        exact ih hroot (by omega)

end NodeStore

/-! ## The walks of a program -/

namespace Program

variable {program : Program} {id : NodeId} {node : Node}

/-- What a node settles for the search of the enclosing function: a local function is found, and an
initializer or an unknown node ends the search. -/
def boundary? (program : Program) (id : NodeId) : Option (Option EnclosingFunction) :=
  match program.nodes.get? id with
  | none => some none
  | some (.localFunction ..) => some (some (.localFunction id))
  | some (.initializer ..) => some none
  | some _ => none

theorem boundary?_of_call (hnode : program.nodes.get? id = some node)
    (hcall : node.isCall = true) : program.boundary? id = none := by
  rw [boundary?, hnode]
  cases node <;> first | rfl | cases hcall

theorem functionFrom?_eq_searchUp (program : Program) (hops : Nat) (id : NodeId) :
    program.functionFrom? hops id = program.nodes.searchUp program.boundary?
      (fun root => (program.bodyOwner.find? root).map .method) hops id := by
  induction hops generalizing id with
  | zero => rfl
  | succ hops ih =>
    rw [functionFrom?, NodeStore.searchUp, boundary?]
    cases program.nodes.get? id with
    | none => rfl
    | some node =>
      cases node <;> first
        | rfl
        | cases program.nodes.parent? id with
          | none => rfl
          | some parent => exact ih parent

theorem enclosingFunction?_of_root (h : program.nodes.parent? id = none) :
    program.enclosingFunction? id = none := by
  rw [enclosingFunction?, h]
  rfl

theorem enclosingFunction?_of_parent {parent : NodeId}
    (h : program.nodes.parent? id = some parent) :
    program.enclosingFunction? id = program.functionFrom? maxParentHops parent := by
  rw [enclosingFunction?, h]
  rfl

/-- From a node that is no boundary and has a parent, the search finds what encloses the node: both
walks go on from the parent, and either has more hops than it needs. -/
theorem functionFrom?_of_parent {parent root : NodeId} {levels : Nat}
    (hnone : program.boundary? id = none) (hparent : program.nodes.parent? id = some parent)
    (hroot : program.nodes.climb levels id = some root) (hlevels : levels ≤ maxParentHops) :
    program.functionFrom? maxParentHops id = program.enclosingFunction? id := by
  obtain ⟨rest, hrest⟩ : ∃ rest, maxParentHops = rest + 1 := ⟨9999, rfl⟩
  obtain ⟨hops, rfl⟩ : ∃ hops, levels = hops + 1 := by
    cases levels with
    | zero => cases hroot
    | succ hops => exact ⟨hops, rfl⟩
  rw [NodeStore.climb_succ hparent] at hroot
  have hwalk : ∀ more, hops ≤ more →
      program.functionFrom? more parent = program.functionFrom? hops parent := by
    intro more hle
    rw [functionFrom?_eq_searchUp, functionFrom?_eq_searchUp,
      NodeStore.searchUp_of_climb hroot hle]
  rw [enclosingFunction?_of_parent hparent, hwalk maxParentHops (by omega), hrest,
    functionFrom?_eq_searchUp, NodeStore.searchUp_of_parent hnone hparent,
    ← functionFrom?_eq_searchUp, hwalk rest (by omega)]

/-- The links of a program are there in a later one, perhaps through fresh nodes, and the search of
an enclosing function comes to nothing new. -/
structure Stretches (program later : Program) : Prop where
  expands : program.nodes.Expands later.nodes
  bodyOwner : later.bodyOwner = program.bodyOwner
  boundary : ∀ id < program.nodes.size, later.boundary? id = program.boundary? id
  fresh : ∀ id, program.nodes.size ≤ id → id < later.nodes.size → later.boundary? id = none

namespace Stretches

variable {later : Program} {enclosing : EnclosingFunction} {hops more levels : Nat} {root : NodeId}

/-- The function that encloses an old node enclosed it before. -/
theorem enclosingFunction?_of_later (h : program.Stretches later) (hlinked : program.nodes.Linked)
    (hid : id < program.nodes.size) (hfound : later.enclosingFunction? id = some enclosing) :
    program.enclosingFunction? id = some enclosing := by
  have hwalk : ∀ hops parent, parent < program.nodes.size →
      later.functionFrom? hops parent = some enclosing →
        program.functionFrom? hops parent = some enclosing := by
    intro hops parent hparent hlater
    rw [functionFrom?_eq_searchUp, h.bodyOwner] at hlater
    rw [functionFrom?_eq_searchUp]
    exact h.expands.searchUp_of_later hlinked h.boundary h.fresh hparent hlater
  cases hparent : program.nodes.parent? id with
  | none =>
    rw [enclosingFunction?_of_root (h.expands.root id hid hparent)] at hfound
    cases hfound
  | some parent =>
    have hknown := hlinked.parent_known id parent hparent
    rw [enclosingFunction?_of_parent hparent]
    rcases h.expands.parent id parent hparent with hdirect | ⟨moved, hge, hmoved, habove⟩
    · rw [enclosingFunction?_of_parent hdirect] at hfound
      exact hwalk _ parent hknown hfound
    · -- The walk starts one node further down and has one hop less from the old parent on.
      have hnone := h.fresh moved hge (NodeStore.lt_size_of_parent? habove)
      obtain ⟨rest, hrest⟩ : ∃ rest, maxParentHops = rest + 1 := ⟨9999, rfl⟩
      rw [enclosingFunction?_of_parent hmoved, hrest, functionFrom?_eq_searchUp,
        NodeStore.searchUp_of_parent hnone habove, ← functionFrom?_eq_searchUp] at hfound
      have hfewer := hwalk rest parent hknown hfound
      rw [functionFrom?_eq_searchUp] at hfewer ⊢
      exact NodeStore.searchUp_mono (by omega) hfewer

/-- Where the root is near, twice the hops find the function that is found in the earlier
program. -/
theorem functionFrom?_eq (h : program.Stretches later) (hlinked : program.nodes.Linked)
    (hid : id < program.nodes.size) (hroot : program.nodes.climb hops id = some root)
    (hhops : hops ≤ maxParentHops) (hmore : 2 * hops ≤ more) :
    later.functionFrom? more id = program.functionFrom? maxParentHops id := by
  rw [functionFrom?_eq_searchUp, functionFrom?_eq_searchUp, h.bodyOwner,
    NodeStore.searchUp_of_climb hroot hhops]
  exact h.expands.searchUp_eq hlinked h.boundary h.fresh hid hroot (Nat.le_succ_of_le hmore)

/-- In trees of bounded depth the enclosing function of an old node does not change. -/
theorem enclosingFunction?_eq (h : program.Stretches later) (hlinked : program.nodes.Linked)
    (hdepth : program.nodes.DepthAtMost levels) (hlevels : 2 * levels ≤ maxParentHops)
    (hid : id < program.nodes.size) :
    later.enclosingFunction? id = program.enclosingFunction? id := by
  obtain ⟨root, hroot⟩ := Option.isSome_iff_exists.mp (hdepth id hid)
  cases hparent : program.nodes.parent? id with
  | none =>
    rw [enclosingFunction?_of_root hparent,
      enclosingFunction?_of_root (h.expands.root id hid hparent)]
  | some parent =>
    have hknown := hlinked.parent_known id parent hparent
    obtain ⟨hops, rfl⟩ : ∃ hops, levels = hops + 1 := by
      cases levels with
      | zero => cases hroot
      | succ hops => exact ⟨hops, rfl⟩
    rw [NodeStore.climb_succ hparent] at hroot
    have hwalk : ∀ more, 2 * hops ≤ more →
        later.functionFrom? more parent = program.functionFrom? maxParentHops parent :=
      fun more hmore => h.functionFrom?_eq hlinked hknown hroot (by omega) hmore
    rw [enclosingFunction?_of_parent hparent]
    rcases h.expands.parent id parent hparent with hdirect | ⟨moved, hge, hmoved, habove⟩
    · rw [enclosingFunction?_of_parent hdirect]
      exact hwalk _ (by omega)
    · have hnone := h.fresh moved hge (NodeStore.lt_size_of_parent? habove)
      obtain ⟨rest, hrest⟩ : ∃ rest, maxParentHops = rest + 1 := ⟨9999, rfl⟩
      rw [enclosingFunction?_of_parent hmoved, ← hwalk rest (by omega), hrest,
        functionFrom?_eq_searchUp, functionFrom?_eq_searchUp,
        NodeStore.searchUp_of_parent hnone habove]

end Stretches

end Program

namespace Pass

/-- A pass whose nodes expand an old store and are linked. -/
structure Expanding (old : NodeStore) (pass : Pass) : Prop where
  traces : Traces old pass
  linked : pass.program.nodes.Linked
  expands : old.Expands pass.program.nodes

namespace Expanding

variable {old : NodeStore} {pass pass' : Pass} {admits : Warrant} {program : Program}
  {id : NodeId} {levels : Nat}

/-- At any point of a pass one may take its nodes for the old ones. -/
theorem restart (h : Expanding old pass) : Expanding pass.program.nodes pass where
  traces := h.traces.restart
  linked := h.linked
  expands := .refl _

theorem step (hlinked : old.Linked) (hstep : Step admits pass pass') (h : Expanding old pass) :
    Expanding old pass' := by
  refine ⟨h.traces.step hstep, ?_, ?_⟩
  · cases hstep with
    | kept | skipped => exact h.linked
    | renamed _ hnode _ _ _ _ hnodes => exact h.linked.inPlace hnode hnodes rfl
    | wrapped _ hnode _ _ _ _ _ hnodes => exact h.linked.moved hnode hnodes rfl
  · cases hstep with
    | kept | skipped => exact h.expands
    | renamed _ _ _ _ _ _ hnodes => exact h.expands.inPlace hnodes
    | wrapped hnew hnode _ _ _ _ _ hnodes =>
      have hold := (h.traces.get?_of_not_visited hnew hnode).2
      refine h.expands.moved hlinked h.linked h.traces.size_le ?_ hnode hnodes rfl
      rw [NodeStore.childrenOf_of_get? hnode, NodeStore.childrenOf_of_get? hold]

theorem steps (hlinked : old.Linked) (hsteps : Steps admits pass pass') (h : Expanding old pass) :
    Expanding old pass' :=
  hsteps.invariant (fun _ _ step h => h.step hlinked step) h

theorem lift (h : Expanding old pass) (options : Options) (id : MethodId) :
    Expanding old (pass.lift options id) := by
  refine ⟨h.traces.lift options id, ?_, ?_⟩ <;> rw [lift_nodes]
  · exact h.linked
  · exact h.expands

/-- Only calls change, and neither a call nor an `await` is a boundary. -/
theorem boundary?_eq (h : Expanding program.nodes pass) (hid : id < program.nodes.size) :
    pass.program.boundary? id = program.boundary? id := by
  rcases h.traces.same_or_call id with hsame | ⟨hold, node, hnew, hnode⟩
  · rw [Program.boundary?, Program.boundary?, hsame]
  · obtain ⟨call, hcall⟩ := NodeStore.exists_get? hid
    rw [hcall] at hold
    rw [Program.boundary?_of_call hcall hold]
    rcases hnode with hisCall | ⟨operand, rfl⟩
    · exact Program.boundary?_of_call hnew hisCall
    · rw [Program.boundary?, hnew]

theorem boundary?_fresh (h : Expanding old pass) (hle : old.size ≤ id)
    (hlt : id < pass.program.nodes.size) : pass.program.boundary? id = none := by
  obtain ⟨entry, hentry, rfl⟩ := h.traces.fresh id hle hlt
  obtain ⟨receiver, name, args, hcall⟩ := h.traces.get?_entry hentry
  exact Program.boundary?_of_call hcall rfl

/-- Expanding a program leaves the search of an enclosing function as it was. -/
theorem stretches (h : Expanding program.nodes pass)
    (howner : pass.program.bodyOwner = program.bodyOwner) : program.Stretches pass.program where
  expands := h.expands
  bodyOwner := howner
  boundary _ hid := h.boundary?_eq hid
  fresh _ hle hlt := h.boundary?_fresh hle hlt

theorem moduleOf?_eq (h : Expanding program.nodes pass) (hlinked : program.nodes.Linked)
    (hmodules : pass.program.rootModule = program.rootModule)
    (hdepth : program.nodes.DepthAtMost levels) (hlevels : 2 * levels ≤ maxParentHops)
    (hid : id < program.nodes.size) : pass.program.moduleOf? id = program.moduleOf? id := by
  rw [Program.moduleOf?, Program.moduleOf?, h.expands.rootOf_eq hlinked hdepth hlevels hid,
    hmodules]

end Expanding

end Pass

namespace Conversion

open Pass

theorem passOver_expanding {options : Options} {search : ReferenceSearch} {planned : List MethodId}
    {old : NodeStore} {pass : Pass} (hlinked : old.Linked) (h : Expanding old pass)
    (ids : List MethodId) : Expanding old (passOver options search planned pass ids) :=
  passOver_invariant (fun _ id h => h.lift options id) (fun _ _ step h => h.step hlinked step) h ids

theorem passAfter_expanding (options : Options) (search : ReferenceSearch) {program : Program}
    (hlinked : program.nodes.Linked) (root : MethodId) (ids : List MethodId) :
    Expanding program.nodes (passAfter options search program root ids) :=
  passOver_expanding hlinked ⟨Traces.start program _, hlinked, .refl _⟩ ids

end Conversion

end AsyncLift
