import AsyncLift.Program.Basic
import AsyncLift.Proofs.NodeStore
import Mathlib.Logic.Relation

/-!
# Well-formed programs

The node store takes any links. In a well-formed program they make a forest: what a node lists as
its children and what these name as their parent agree, and no node lies above itself.

A walk upwards that ends proves that there is no cycle (`not_transGen_self`), so that a bound on the
depth of all nodes and finitely many comparisons make a forest (`forest_of_depth`).

`NodeStore.Linked` is the part of being a forest that speaks of each parent and child alone. Both
ways to replace a call keep it (`Linked.inPlace`, `Linked.moved`), and they keep a forest: a fresh
node that is put in between is on no cycle, since leaving it out gives a walk that was there before
(`Forest.moved`).
-/

namespace AsyncLift

namespace NodeStore

/-- The children of all nodes are known and listed once, each by the node that it names as its
parent, and no node lies above itself. -/
structure Forest (store : NodeStore) : Prop where
  known : ∀ parent, ∀ child ∈ store.childrenOf parent, child < store.size
  once : ∀ parent, (store.childrenOf parent).Nodup
  links : ∀ parent child, child ∈ store.childrenOf parent ↔ store.parent? child = some parent
  acyclic : ∀ id,
    ¬ Relation.TransGen (fun child parent => store.parent? child = some parent) id id

/-- No tree has more than the given number of levels. -/
def DepthAtMost (store : NodeStore) (levels : Nat) : Prop :=
  ∀ id < store.size, (store.climb levels id).isSome = true

/-- Children name their parent, and only known nodes are named so. -/
structure Linked (store : NodeStore) : Prop where
  adopted : ∀ parent, ∀ child ∈ store.childrenOf parent, store.parent? child = some parent
  parent_known : ∀ child parent, store.parent? child = some parent → parent < store.size

variable {store result : NodeStore} {id parent top root : NodeId} {hops : Nat} {node node' : Node}

theorem climb_succ (hparent : store.parent? id = some parent) :
    store.climb (hops + 1) id = store.climb hops parent := by
  rw [climb, hparent]

/-! ## Walks upwards that end -/

/-- A walk that ends has fewer hops left at every node above the one where it started. -/
theorem climb_of_transGen
    (hpath : Relation.TransGen (fun child parent => store.parent? child = some parent) id top)
    (h : store.climb hops id = some root) : ∃ fewer < hops, store.climb fewer top = some root := by
  have hhop : ∀ child parent hops, store.parent? child = some parent →
      store.climb hops child = some root →
        ∃ fewer < hops, store.climb fewer parent = some root := by
    intro child parent hops hparent hchild
    cases hops with
    | zero => cases hchild
    | succ hops => exact ⟨hops, Nat.lt_succ_self hops, (climb_succ hparent).symm.trans hchild⟩
  induction hpath with
  | single hparent => exact hhop _ _ _ hparent h
  | tail _ hparent ih =>
    obtain ⟨fewer, hfewer, hclimb⟩ := ih
    obtain ⟨least, hleast, htop⟩ := hhop _ _ _ hparent hclimb
    exact ⟨least, Nat.lt_trans hleast hfewer, htop⟩

/-- A node from which a walk ends does not lie above itself. -/
theorem not_transGen_self (h : store.climb hops id = some root) :
    ¬ Relation.TransGen (fun child parent => store.parent? child = some parent) id id := by
  intro hcycle
  -- Every round of the cycle would leave fewer hops for the same walk.
  induction hops using Nat.strongRecOn with
  | ind hops ih =>
    obtain ⟨fewer, hfewer, hclimb⟩ := climb_of_transGen hcycle h
    exact ih fewer hfewer hclimb

/-- Links that agree on the known nodes make a forest if its depth is bounded. -/
theorem forest_of_depth {levels : Nat} (hdepth : store.DepthAtMost levels)
    (honce : ∀ id < store.size, (store.childrenOf id).Nodup)
    (hchildren : ∀ id < store.size, ∀ child ∈ store.childrenOf id, store.parent? child = some id)
    (hparents : ∀ id < store.size, ∀ parent ∈ store.parent? id, id ∈ store.childrenOf parent) :
    store.Forest := by
  have hknown : ∀ parent, ∀ child ∈ store.childrenOf parent, parent < store.size := by
    intro parent child hchild
    obtain ⟨node, hnode, -⟩ := get?_of_mem_childrenOf hchild
    exact lt_size_of_get? hnode
  refine ⟨?_, ?_, ?_, ?_⟩
  · intro parent child hchild
    exact lt_size_of_parent? (hchildren parent (hknown parent child hchild) child hchild)
  · intro parent
    by_cases hparent : parent < store.size
    · exact honce parent hparent
    · rw [childrenOf, get?_eq_none (Nat.le_of_not_lt hparent)]
      exact List.nodup_nil
  · intro parent child
    constructor
    · intro hchild
      exact hchildren parent (hknown parent child hchild) child hchild
    · intro hparent
      exact hparents child (lt_size_of_parent? hparent) parent hparent
  · intro id hcycle
    obtain ⟨parent, hparent, -⟩ := Relation.TransGen.head'_iff.mp hcycle
    obtain ⟨root, hroot⟩ := Option.isSome_iff_exists.mp (hdepth id (lt_size_of_parent? hparent))
    exact not_transGen_self hroot hcycle

/-! ## Links after a call was replaced -/

theorem Forest.linked (h : store.Forest) : store.Linked where
  adopted parent child hchild := (h.links parent child).mp hchild
  parent_known child parent hparent := by
    obtain ⟨node, hnode, -⟩ := get?_of_mem_childrenOf ((h.links parent child).mpr hparent)
    exact lt_size_of_get? hnode

theorem childrenOf_inPlace (hnode : store.get? id = some node)
    (hresult : store.InPlace id node' result) (hchildren : node'.children = node.children)
    (parent : NodeId) : result.childrenOf parent = store.childrenOf parent := by
  by_cases hparent : parent = id
  · subst hparent
    rw [childrenOf_of_get? ((hresult.get?_eq parent).trans (if_pos rfl)),
      childrenOf_of_get? hnode, hchildren]
  · rw [childrenOf, childrenOf, hresult.get?_eq, if_neg hparent]

/-- The `await` has the moved call below it, this has the children of the old call, and all other
nodes have the children that they had. -/
theorem childrenOf_moved (hnode : store.get? id = some node)
    (hresult : store.Moved id node' result) (hchildren : node'.children = node.children)
    (parent : NodeId) : result.childrenOf parent =
      if parent = id then [store.size]
      else if parent = store.size then store.childrenOf id
      else store.childrenOf parent := by
  split
  · rename_i hawait
    exact childrenOf_of_get? ((hresult.get?_eq parent).trans (if_pos hawait))
  · rename_i hawait
    split
    · rename_i hfresh
      rw [childrenOf_of_get? ((hresult.get?_eq parent).trans ((if_neg hawait).trans
        (if_pos hfresh))), hchildren, childrenOf_of_get? hnode]
    · rename_i hfresh
      rw [childrenOf, childrenOf, hresult.get?_eq, if_neg hawait, if_neg hfresh]

namespace Linked

theorem child_known (h : store.Linked) {child : NodeId} (hchild : child ∈ store.childrenOf parent) :
    child < store.size :=
  lt_size_of_parent? (h.adopted parent child hchild)

theorem inPlace (h : store.Linked) (hnode : store.get? id = some node)
    (hresult : store.InPlace id node' result) (hchildren : node'.children = node.children) :
    result.Linked := by
  have hsame := childrenOf_inPlace hnode hresult hchildren
  refine ⟨fun parent child hchild => ?_, fun child parent hparent => ?_⟩
  · rw [hresult.parent?_eq]
    exact h.adopted parent child (hsame parent ▸ hchild)
  · rw [hresult.parent?_eq] at hparent
    rw [hresult.size_eq]
    exact h.parent_known child parent hparent

/-- The place that a moved call gets has no parent but the `await`. -/
theorem parent?_moved_fresh (h : store.Linked) (hnode : store.get? id = some node)
    (hresult : store.Moved id node' result) (hchildren : node'.children = node.children) :
    result.parent? store.size = some id := by
  have hfresh : store.size ∉ node'.children := by
    rw [hchildren, ← childrenOf_of_get? hnode]
    exact fun hchild => Nat.lt_irrefl _ (h.child_known hchild)
  rw [hresult.parent?_eq, if_neg fun hchild => hfresh hchild.1, if_pos rfl]

theorem parent?_moved_child (h : store.Linked) (hnode : store.get? id = some node)
    (hresult : store.Moved id node' result) (hchildren : node'.children = node.children)
    {child : NodeId} (hchild : child ∈ store.childrenOf id) :
    result.parent? child = some store.size := by
  have hmem : child ∈ node'.children := by
    rw [hchildren, ← childrenOf_of_get? hnode]
    exact hchild
  rw [hresult.parent?_eq, if_pos ⟨hmem, Nat.le_of_lt (h.child_known hchild)⟩]

theorem parent?_moved_other (hnode : store.get? id = some node)
    (hresult : store.Moved id node' result) (hchildren : node'.children = node.children)
    {other : NodeId} (hother : other < store.size) (hchild : other ∉ store.childrenOf id) :
    result.parent? other = store.parent? other := by
  have hmem : other ∉ node'.children := by
    rw [hchildren, ← childrenOf_of_get? hnode]
    exact hchild
  rw [hresult.parent?_eq, if_neg fun h => hmem h.1, if_neg (Nat.ne_of_lt hother)]

theorem moved (h : store.Linked) (hnode : store.get? id = some node)
    (hresult : store.Moved id node' result) (hchildren : node'.children = node.children) :
    result.Linked := by
  have hid := lt_size_of_get? hnode
  refine ⟨fun parent child hchild => ?_, fun child parent hparent => ?_⟩
  · rw [childrenOf_moved hnode hresult hchildren] at hchild
    split at hchild
    · subst parent
      rw [List.mem_singleton.mp hchild]
      exact h.parent?_moved_fresh hnode hresult hchildren
    · rename_i hawait
      split at hchild
      · subst parent
        exact h.parent?_moved_child hnode hresult hchildren hchild
      · -- Any other node has its children still, and none of them is the call's.
        have hparent := h.adopted parent child hchild
        rw [parent?_moved_other hnode hresult hchildren (h.child_known hchild), hparent]
        intro hcall
        exact hawait (Option.some.inj (hparent.symm.trans (h.adopted id child hcall)))
  · rw [hresult.size_eq]
    rw [hresult.parent?_eq] at hparent
    split at hparent
    · cases hparent
      exact Nat.lt_succ_self _
    · split at hparent
      · cases hparent
        exact Nat.lt_succ_of_lt hid
      · exact Nat.lt_succ_of_lt (h.parent_known child parent hparent)

/-- A parent in the later store: the fresh node has the call's place above it, the call's children
have the fresh node above them, and all other links are old ones. -/
theorem parent?_moved_cases (h : store.Linked) (hnode : store.get? id = some node)
    (hresult : store.Moved id node' result) (hchildren : node'.children = node.children)
    {child : NodeId} (hparent : result.parent? child = some parent) :
    child ∈ store.childrenOf id ∧ parent = store.size ∨
      child = store.size ∧ parent = id ∨
      child < store.size ∧ child ∉ store.childrenOf id ∧ store.parent? child = some parent := by
  by_cases hchild : child ∈ store.childrenOf id
  · rw [h.parent?_moved_child hnode hresult hchildren hchild] at hparent
    cases hparent
    exact .inl ⟨hchild, rfl⟩
  by_cases hfresh : child = store.size
  · subst hfresh
    rw [h.parent?_moved_fresh hnode hresult hchildren] at hparent
    cases hparent
    exact .inr (.inl ⟨rfl, rfl⟩)
  · have hknown : child < store.size := by
      have hlt := lt_size_of_parent? hparent
      rw [hresult.size_eq] at hlt
      exact Nat.lt_of_le_of_ne (Nat.le_of_lt_succ hlt) hfresh
    rw [parent?_moved_other hnode hresult hchildren hknown hchild] at hparent
    exact .inr (.inr ⟨hknown, hchild, hparent⟩)

end Linked

namespace Forest

theorem inPlace (h : store.Forest) (hnode : store.get? id = some node)
    (hresult : store.InPlace id node' result) (hchildren : node'.children = node.children) :
    result.Forest := by
  have hsame := childrenOf_inPlace hnode hresult hchildren
  constructor
  · intro parent child hchild
    rw [hresult.size_eq]
    exact h.known parent child (hsame parent ▸ hchild)
  · intro parent
    rw [hsame]
    exact h.once parent
  · intro parent child
    rw [hsame, hresult.parent?_eq]
    exact h.links parent child
  · intro id hcycle
    simp only [hresult.parent?_eq] at hcycle
    exact h.acyclic id hcycle

/-- A walk in the later store, with the fresh node read as the call's place, is a walk in the
earlier one, unless it is the one hop from the fresh node. -/
theorem transGen_of_moved (h : store.Forest) (hnode : store.get? id = some node)
    (hresult : store.Moved id node' result) (hchildren : node'.children = node.children)
    {child : NodeId}
    (hpath : Relation.TransGen (fun child parent => result.parent? child = some parent) child top) :
    Relation.TransGen (fun child parent => store.parent? child = some parent)
        (if child = store.size then id else child) (if top = store.size then id else top) ∨
      child = store.size ∧ top = id := by
  have hid : id ≠ store.size := Nat.ne_of_lt (lt_size_of_get? hnode)
  have hlinked := h.linked
  -- One hop from a node other than the fresh one.
  have hhop : ∀ child parent, child ≠ store.size → result.parent? child = some parent →
      store.parent? child = some (if parent = store.size then id else parent) := by
    intro child parent hfresh hparent
    rcases hlinked.parent?_moved_cases hnode hresult hchildren hparent with
      ⟨hchild, rfl⟩ | ⟨hchild, -⟩ | ⟨-, -, hold⟩
    · rw [if_pos rfl]
      exact hlinked.adopted id child hchild
    · exact absurd hchild hfresh
    · rw [if_neg (Nat.ne_of_lt (hlinked.parent_known child parent hold))]
      exact hold
  induction hpath with
  | @single parent hparent =>
    by_cases hfresh : child = store.size
    · subst hfresh
      rw [hlinked.parent?_moved_fresh hnode hresult hchildren] at hparent
      cases hparent
      exact .inr ⟨rfl, rfl⟩
    · rw [if_neg hfresh]
      exact .inl (.single (hhop child parent hfresh hparent))
  | @tail middle parent _ hparent ih =>
    rcases ih with hpath | ⟨hstart, hmiddle⟩
    · by_cases hfresh : middle = store.size
      · -- The hop from the fresh node is not seen in the earlier store.
        subst hfresh
        rw [hlinked.parent?_moved_fresh hnode hresult hchildren] at hparent
        cases hparent
        rw [if_pos rfl] at hpath
        rw [if_neg hid]
        exact .inl hpath
      · rw [if_neg hfresh] at hpath
        exact .inl (hpath.tail (hhop middle parent hfresh hparent))
    · subst hmiddle
      rw [if_pos hstart]
      exact .inl (.single (hhop middle parent hid hparent))

theorem moved (h : store.Forest) (hnode : store.get? id = some node)
    (hresult : store.Moved id node' result) (hchildren : node'.children = node.children) :
    result.Forest := by
  have hid : id < store.size := lt_size_of_get? hnode
  have hlinked := h.linked
  have hlinked' := hlinked.moved hnode hresult hchildren
  have hchildrenOf := childrenOf_moved hnode hresult hchildren
  constructor
  · intro parent child hchild
    exact hlinked'.child_known hchild
  · intro parent
    rw [hchildrenOf]
    split
    · simp
    · split
      · exact h.once id
      · exact h.once parent
  · intro parent child
    refine ⟨hlinked'.adopted parent child, fun hparent => ?_⟩
    rw [hchildrenOf]
    rcases hlinked.parent?_moved_cases hnode hresult hchildren hparent with
      ⟨hchild, rfl⟩ | ⟨rfl, rfl⟩ | ⟨-, hchild, hold⟩
    · rw [if_neg (Nat.ne_of_gt hid), if_pos rfl]
      exact hchild
    · rw [if_pos rfl]
      exact List.mem_singleton_self _
    · have hmem := (h.links parent child).mpr hold
      have hawait : parent ≠ id := fun heq => hchild (heq ▸ hmem)
      rw [if_neg hawait, if_neg (Nat.ne_of_lt (hlinked.parent_known child parent hold))]
      exact hmem
  · intro other hcycle
    rcases h.transGen_of_moved hnode hresult hchildren hcycle with hold | ⟨hfresh, hplace⟩
    · exact h.acyclic _ hold
    · exact Nat.lt_irrefl _ (hplace ▸ hfresh ▸ hid)

end Forest

end NodeStore

/-- The nodes make a forest, and what is registered as the root of a body or of an initializer has
no parent. -/
structure Program.WellFormed (program : Program) : Prop where
  forest : program.nodes.Forest
  bodies : ∀ declaration ∈ program.declarations, ∀ body ∈ declaration.body,
    program.nodes.parent? body = none
  initializers : ∀ type ∈ program.types, ∀ root ∈ type.initializers,
    program.nodes.parent? root = none

end AsyncLift
