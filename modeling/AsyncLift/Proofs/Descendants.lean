import AsyncLift.Proofs.Walks
import Mathlib.Data.List.Nodup
import Mathlib.Logic.Function.Iterate

/-!
# What lies below a node

`NodeStore.descendants` keeps a list of nodes still to visit. It lists what the plain recursion
`NodeStore.preorder` lists (`descendants_eq`), and in a forest this is each node from which some
number of hops leads up to the start, once (`mem_preorder`, `nodup_preorder`).

Below the top of a tree these are the nodes that have it as their root, provided that the tree is
not deeper than the walk goes (`mem_descendants_iff_rootOf`).

None of this is needed for the walk to end: in any store, also in one where nodes list themselves,
it is done after as many rounds as it lists nodes (`iterate_round`, `descendants_lists_preorder`).
-/

namespace AsyncLift.NodeStore

variable {store : NodeStore} {id other parent top root : NodeId} {hops more levels : Nat}

/-! ## Going up a number of hops -/

/-- The node that is so many parents up. -/
def above? (store : NodeStore) : (hops : Nat) → NodeId → Option NodeId
  | 0, id => some id
  | hops + 1, id => (store.above? hops id).bind store.parent?

theorem above?_succ_of_parent (h : store.parent? id = some parent) (hops : Nat) :
    store.above? (hops + 1) id = store.above? hops parent := by
  induction hops with
  | zero => exact h
  | succ hops ih => rw [above?, ih, above?]

theorem above?_add (h : store.above? hops id = some other) (more : Nat) :
    store.above? (hops + more) id = store.above? more other := by
  induction more with
  | zero => exact h
  | succ more ih => rw [← Nat.add_assoc, above?, ih, above?]

theorem above?_of_root (h : store.parent? id = none) (hops : Nat) :
    store.above? (hops + 1) id = none := by
  induction hops with
  | zero => exact h
  | succ hops ih =>
    rw [above?, ih]
    rfl

theorem transGen_of_above? (h : store.above? (hops + 1) id = some top) :
    Relation.TransGen (fun child parent => store.parent? child = some parent) id top := by
  induction hops generalizing top with
  | zero => exact .single h
  | succ hops ih =>
    obtain ⟨middle, hmiddle, hparent⟩ := Option.bind_eq_some_iff.mp h
    exact (ih hmiddle).tail hparent

/-- A node is one number of hops away from each node above it. -/
theorem Forest.hops_unique (hforest : store.Forest) (h : store.above? hops id = some top)
    (h' : store.above? more id = some top) : hops = more := by
  have hlt : ∀ {few many : Nat}, store.above? few id = some top →
      store.above? many id = some top → ¬ few < many := by
    intro few many hfew hmany hlt
    obtain ⟨rest, rfl⟩ : ∃ rest, many = few + (rest + 1) := ⟨many - few - 1, by omega⟩
    rw [above?_add hfew] at hmany
    exact hforest.acyclic top (transGen_of_above? hmany)
  have hle := hlt h h'
  have hge := hlt h' h
  omega

theorem climb_eq_some_iff : store.climb levels id = some root ↔
    ∃ hops < levels, store.above? hops id = some root ∧ store.parent? root = none := by
  induction levels generalizing id with
  | zero => simp [climb]
  | succ levels ih =>
    rw [climb]
    cases hparent : store.parent? id with
    | none =>
      constructor
      · intro h
        cases h
        exact ⟨0, Nat.succ_pos levels, rfl, hparent⟩
      · rintro ⟨hops, -, habove, -⟩
        cases hops with
        | zero => exact habove
        | succ hops => cases (above?_of_root hparent hops).symm.trans habove
    | some parent =>
      rw [ih]
      constructor
      · rintro ⟨hops, hlt, habove, hroot⟩
        refine ⟨hops + 1, Nat.succ_lt_succ hlt, ?_, hroot⟩
        rw [above?_succ_of_parent hparent]
        exact habove
      · rintro ⟨hops, hlt, habove, hroot⟩
        cases hops with
        | zero =>
          cases habove
          cases hroot.symm.trans hparent
        | succ hops =>
          rw [above?_succ_of_parent hparent] at habove
          exact ⟨hops, Nat.lt_of_succ_lt_succ hlt, habove, hroot⟩

/-! ## Going down -/

/-- The walk visits what is listed below each node to do, one after another. -/
theorem walk_eq (store : NodeStore) (visited : List NodeId) (todo : List (NodeId × Nat)) :
    store.walk visited todo =
      (todo.flatMap fun place => store.preorder place.2 place.1).reverse ++ visited := by
  fun_induction store.walk visited todo with
  | case1 visited => rfl
  | case2 visited id todo ih =>
    rw [ih]
    simp [preorder]
  | case3 visited id todo levels ih =>
    rw [ih]
    simp [preorder, List.flatMap_map]

theorem descendants_eq (store : NodeStore) (root : NodeId) :
    store.descendants root =
      (store.childrenOf root).flatMap (store.preorder (maxBodyDepth - 1)) := by
  rw [descendants, walk_eq, List.append_nil, List.reverse_reverse, List.flatMap_map]

/-- One round of the walk: the first node to do is visited, and its children are to be done next. -/
def round (store : NodeStore) :
    List NodeId × List (NodeId × Nat) → List NodeId × List (NodeId × Nat)
  | (visited, []) => (visited, [])
  | (visited, (id, 0) :: todo) => (id :: visited, todo)
  | (visited, (id, levels + 1) :: todo) =>
    (id :: visited, (store.childrenOf id).map (·, levels) ++ todo)

/-- After one round for each node that it visits, the walk has nothing left to do. -/
theorem iterate_round (store : NodeStore) (visited : List NodeId) (todo : List (NodeId × Nat)) :
    store.round^[(todo.flatMap fun place => store.preorder place.2 place.1).length]
      (visited, todo) = (store.walk visited todo, []) := by
  fun_induction store.walk visited todo with
  | case1 visited => rfl
  | case2 visited id todo ih =>
    rw [List.flatMap_cons, List.length_append, preorder, List.length_singleton, Nat.add_comm,
      Function.iterate_succ_apply]
    exact ih
  | case3 visited id todo levels ih =>
    -- The node is one round, and its children are listed before what was to do already.
    rw [List.flatMap_append, List.flatMap_map, List.length_append] at ih
    rw [List.flatMap_cons, List.length_append, preorder, List.length_cons, Nat.add_right_comm,
      Function.iterate_succ_apply]
    exact ih

theorem mem_preorder (hforest : store.Forest) :
    other ∈ store.preorder levels id ↔ ∃ hops ≤ levels, store.above? hops other = some id := by
  induction levels generalizing id with
  | zero =>
    rw [preorder, List.mem_singleton]
    constructor
    · rintro rfl
      exact ⟨0, Nat.le_refl 0, rfl⟩
    · rintro ⟨hops, hle, habove⟩
      obtain rfl := Nat.le_zero.mp hle
      exact Option.some.inj habove
  | succ levels ih =>
    rw [preorder, List.mem_cons, List.mem_flatMap]
    constructor
    · rintro (rfl | ⟨child, hchild, hother⟩)
      · exact ⟨0, Nat.zero_le _, rfl⟩
      · obtain ⟨hops, hle, habove⟩ := ih.mp hother
        refine ⟨hops + 1, Nat.succ_le_succ hle, ?_⟩
        rw [above?, habove]
        exact (hforest.links id child).mp hchild
    · rintro ⟨hops, hle, habove⟩
      cases hops with
      | zero => exact .inl (Option.some.inj habove)
      | succ hops =>
        obtain ⟨child, hchild, hparent⟩ := Option.bind_eq_some_iff.mp habove
        exact .inr ⟨child, (hforest.links id child).mpr hparent,
          ih.mpr ⟨hops, Nat.le_of_succ_le_succ hle, hchild⟩⟩

/-- Trees below different children have no node in common. -/
theorem Forest.nodup_flatMap (hforest : store.Forest)
    (hnodup : ∀ child ∈ store.childrenOf id, (store.preorder levels child).Nodup) :
    ((store.childrenOf id).flatMap (store.preorder levels)).Nodup := by
  refine List.nodup_flatMap.mpr ⟨hnodup, ?_⟩
  refine (hforest.once id).imp_of_mem fun {child child'} hchild hchild' hne => ?_
  intro other hother hother'
  obtain ⟨hops, -, habove⟩ := (mem_preorder hforest).mp hother
  obtain ⟨more, -, habove'⟩ := (mem_preorder hforest).mp hother'
  have hparent : store.above? (hops + 1) other = some id := by
    rw [above?, habove]
    exact (hforest.links id child).mp hchild
  have hparent' : store.above? (more + 1) other = some id := by
    rw [above?, habove']
    exact (hforest.links id child').mp hchild'
  obtain rfl : hops = more := Nat.succ.inj (hforest.hops_unique hparent hparent')
  exact hne (Option.some.inj (habove.symm.trans habove'))

theorem nodup_preorder (hforest : store.Forest) (levels : Nat) (id : NodeId) :
    (store.preorder levels id).Nodup := by
  induction levels generalizing id with
  | zero => exact List.nodup_singleton id
  | succ levels ih =>
    refine List.nodup_cons.mpr ⟨fun hself => ?_, hforest.nodup_flatMap fun child _ => ih child⟩
    obtain ⟨child, hchild, hself⟩ := List.mem_flatMap.mp hself
    obtain ⟨hops, -, habove⟩ := (mem_preorder hforest).mp hself
    have hcycle : store.above? (hops + 1) id = some id := by
      rw [above?, habove]
      exact (hforest.links id child).mp hchild
    exact hforest.acyclic id (transGen_of_above? hcycle)

theorem nodup_descendants (hforest : store.Forest) (root : NodeId) :
    (store.descendants root).Nodup := by
  rw [descendants_eq]
  exact hforest.nodup_flatMap fun child _ => nodup_preorder hforest _ child

/-- What is listed below a node is what lies at most `maxBodyDepth` hops below it. -/
theorem mem_descendants (hforest : store.Forest) :
    other ∈ store.descendants root ↔
      ∃ hops < maxBodyDepth, store.above? (hops + 1) other = some root := by
  rw [descendants_eq, List.mem_flatMap]
  constructor
  · rintro ⟨child, hchild, hother⟩
    obtain ⟨hops, hle, habove⟩ := (mem_preorder hforest).mp hother
    refine ⟨hops, by simp only [maxBodyDepth] at hle ⊢; omega, ?_⟩
    rw [above?, habove]
    exact (hforest.links root child).mp hchild
  · rintro ⟨hops, hlt, habove⟩
    obtain ⟨child, hchild, hparent⟩ := Option.bind_eq_some_iff.mp habove
    refine ⟨child, (hforest.links root child).mpr hparent, (mem_preorder hforest).mpr ?_⟩
    exact ⟨hops, Nat.le_sub_one_of_lt hlt, hchild⟩

/-- A tree that is not deeper than the walk goes is listed as a whole. -/
theorem mem_descendants_iff_rootOf (hforest : store.Forest) (hdepth : store.DepthAtMost levels)
    (hlevels : levels ≤ maxBodyDepth) (hroot : store.parent? root = none) :
    other ∈ store.descendants root ↔ other ≠ root ∧ store.rootOf other = some root := by
  rw [mem_descendants hforest]
  constructor
  · rintro ⟨hops, hlt, habove⟩
    constructor
    · rintro rfl
      exact hforest.acyclic other (transGen_of_above? habove)
    · refine climb_eq_some_iff.mpr ⟨hops + 1, ?_, habove, hroot⟩
      simp only [maxBodyDepth, maxParentHops] at hlt ⊢
      omega
  · rintro ⟨hne, hrootOf⟩
    have hknown : other < store.size := by
      by_contra hunknown
      have hparent := parent?_eq_none (Nat.le_of_not_lt hunknown)
      rw [rootOf, maxParentHops, climb, hparent] at hrootOf
      exact hne (Option.some.inj hrootOf)
    obtain ⟨root', hclimb⟩ := Option.isSome_iff_exists.mp (hdepth other hknown)
    have hsame : store.rootOf other = some root' := by
      apply climb_mono _ hclimb
      simp only [maxBodyDepth, maxParentHops] at hlevels ⊢
      omega
    cases hrootOf.symm.trans hsame
    obtain ⟨hops, hlt, habove, -⟩ := climb_eq_some_iff.mp hclimb
    cases hops with
    | zero => exact absurd (Option.some.inj habove) hne
    | succ hops => exact ⟨hops, by omega, habove⟩

/-! ## The walk as a whole -/

/-- In any store the walk below a node ends, and it lists the preorder of the levels that it may
enter, without the node itself. In a forest it lists each node once, and these are the nodes from
which 1 to `maxBodyDepth` hops lead to where it started. -/
theorem descendants_lists_preorder (store : NodeStore) (root : NodeId) :
    store.round^[(store.descendants root).length]
        ([], (store.childrenOf root).map (·, maxBodyDepth - 1)) =
      ((store.descendants root).reverse, []) ∧
    root :: store.descendants root = store.preorder maxBodyDepth root ∧
    (store.Forest → (store.descendants root).Nodup ∧
      ∀ id, id ∈ store.descendants root ↔
        ∃ hops, 1 ≤ hops ∧ hops ≤ maxBodyDepth ∧ store.above? hops id = some root) := by
  refine ⟨?_, ?_, fun hforest => ⟨nodup_descendants hforest root, fun id => ?_⟩⟩
  · have hrounds := store.iterate_round [] ((store.childrenOf root).map (·, maxBodyDepth - 1))
    rw [List.flatMap_map, ← descendants_eq] at hrounds
    rw [hrounds, descendants, List.reverse_reverse]
  · rw [descendants_eq]
    rfl
  · rw [mem_descendants hforest]
    constructor
    · rintro ⟨hops, hlt, habove⟩
      exact ⟨hops + 1, Nat.succ_pos hops, hlt, habove⟩
    · rintro ⟨hops, hpos, hle, habove⟩
      obtain ⟨fewer, rfl⟩ := Nat.exists_eq_add_one.mpr hpos
      exact ⟨fewer, hle, habove⟩

/-- A call in an argument of a call, and a call that is returned. -/
def twoStatements : NodeStore :=
  [.call none "a" none [], .call none "b" none [some 0], .exprStatement (some 1),
    .call none "c" none [], .ret (some 3), .block [some 2, some 4]].foldl NodeStore.add {}

/-- A node that lists itself is entered on every level. -/
theorem preorder_of_self (h : store.childrenOf id = [id]) (levels : Nat) :
    store.preorder levels id = List.replicate (levels + 1) id := by
  induction levels with
  | zero => rfl
  | succ levels ih =>
    rw [preorder, h, List.flatMap_singleton, ih]
    rfl

/-- A tree is listed in source order, and a block that lists itself as often as there are levels. -/
theorem descendants_lists_preorder_twoStatements :
    twoStatements.Forest ∧ twoStatements.descendants 5 = [2, 1, 0, 4, 3] ∧
      (twoStatements.descendants 5).Nodup ∧
      (0 ∈ twoStatements.descendants 5 ↔
        ∃ hops, 1 ≤ hops ∧ hops ≤ maxBodyDepth ∧ twoStatements.above? hops 0 = some 5) ∧
      (({} : NodeStore).add (.block [some 0])).descendants 0 = List.replicate maxBodyDepth 0 := by
  have hdepth : twoStatements.DepthAtMost 4 := by
    unfold DepthAtMost
    decide +kernel
  have hforest : twoStatements.Forest :=
    forest_of_depth hdepth (by decide +kernel) (by decide +kernel) (by decide +kernel)
  obtain ⟨-, hlisted, hwithin⟩ := descendants_lists_preorder twoStatements 5
  have hpreorder : twoStatements.preorder maxBodyDepth 5 = [5, 2, 1, 0, 4, 3] := by decide +kernel
  obtain ⟨-, hself, -⟩ := descendants_lists_preorder (({} : NodeStore).add (.block [some 0])) 0
  rw [preorder_of_self (by decide), List.replicate_succ] at hself
  exact ⟨hforest, List.tail_eq_of_cons_eq (hlisted.trans hpreorder), (hwithin hforest).1,
    (hwithin hforest).2 0, List.tail_eq_of_cons_eq hself⟩

end AsyncLift.NodeStore
