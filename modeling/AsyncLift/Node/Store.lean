import AsyncLift.Node.Basic

/-!
# The node store

All nodes of a program stand in one table, each with the node that it was last made a child of.
Nodes are added children first, and adding a node makes it the parent of its children.

The store does not insist on being a forest: a node may be listed by several parents, by itself or
by a descendant, and a child may lie beyond the table. Walks are therefore bounded.

* `NodeStore.descendants`: the nodes below a node in source order, down to `maxBodyDepth` levels,
  by a list of nodes still to visit.
* `NodeStore.rootOf`: the top of the tree that a node lies in, at most `maxParentHops` up.
* `NodeStore.wrapInAwait`: an `await` takes the place of a node, which moves to a new place.
-/

namespace AsyncLift

/-- How many parents a walk towards the root looks at. -/
def maxParentHops : Nat := 10000

/-- How deep walks into a body go. -/
def maxBodyDepth : Nat := 512

namespace NodeStore

structure Entry where
  node : Node
  parent : Option NodeId
deriving DecidableEq, Repr, Inhabited

end NodeStore

structure NodeStore where
  entries : Array NodeStore.Entry := #[]
deriving DecidableEq, Repr, Inhabited

namespace NodeStore

/-! ## Looking up -/

def size (store : NodeStore) : Nat := store.entries.size

def get? (store : NodeStore) (id : NodeId) : Option Node := store.entries[id]?.map (·.node)

/-- The parent of a node; none for a root and for an unknown node. -/
def parent? (store : NodeStore) (id : NodeId) : Option NodeId := store.entries[id]?.bind (·.parent)

/-- The children of a node; none for an unknown node. -/
def childrenOf (store : NodeStore) (id : NodeId) : List NodeId :=
  match store.get? id with
  | some node => node.children
  | none => []

/-- The ids of the table. -/
def ids (store : NodeStore) : List NodeId := List.range store.size

/-! ## Changing -/

/-- Makes `parent` the parent of every known node of a list. -/
def adopt (store : NodeStore) (parent : NodeId) (children : List NodeId) : NodeStore where
  entries := children.foldl
    (fun entries child => entries.modify child fun entry => { entry with parent := some parent })
    store.entries

/-- A new node, under the id `store.size`, becomes the parent of its children. -/
def add (store : NodeStore) (node : Node) : NodeStore where
  entries := (store.adopt store.size node.children).entries.push { node, parent := none }

/-- Another node in the place of a known one; the links to parents stay. -/
def set (store : NodeStore) (id : NodeId) (node : Node) : NodeStore where
  entries := store.entries.modify id fun entry => { entry with node }

/-- Puts an `await` in the place of a node. The node moves to the new id `store.size`, below the
`await`, and takes its children with it. -/
def wrapInAwait (store : NodeStore) (id : NodeId) : Option NodeStore :=
  (store.get? id).map fun node =>
    let awaiting := store.set id (.await (some store.size))
    let moved : NodeStore := { entries := awaiting.entries.push { node, parent := some id } }
    moved.adopt store.size node.children

/-! ## Walking up -/

/-- The root above a node that is at most `hops - 1` parents away. -/
def climb (store : NodeStore) : (hops : Nat) → NodeId → Option NodeId
  | 0, _ => none
  | hops + 1, id =>
    match store.parent? id with
    | none => some id
    | some parent => store.climb hops parent

/-- The root of the tree that a node lies in, unless it is too far up. -/
def rootOf (store : NodeStore) (id : NodeId) : Option NodeId := store.climb maxParentHops id

/-! ## Walking down -/

/-- A node and the nodes below it down to some level, each before its children. As many nodes as are
listed here `walk` has left to visit. -/
def preorder (store : NodeStore) : (levels : Nat) → NodeId → List NodeId
  | 0, id => [id]
  | levels + 1, id => id :: (store.childrenOf id).flatMap (store.preorder levels)

/-- Visits the listed nodes in order, each before its children and those before what is listed after
it; a listed number says how many levels may be entered below. The visited nodes are put in front of
`visited`. -/
def walk (store : NodeStore) (visited : List NodeId) : List (NodeId × Nat) → List NodeId
  | [] => visited
  | (id, 0) :: todo => store.walk (id :: visited) todo
  | (id, levels + 1) :: todo =>
    store.walk (id :: visited) ((store.childrenOf id).map (·, levels) ++ todo)
termination_by todo => (todo.flatMap fun place => store.preorder place.2 place.1).length
decreasing_by
  · simp only [List.flatMap_cons, List.length_append, preorder, List.length_singleton]
    omega
  · rw [List.flatMap_append, List.flatMap_map, List.flatMap_cons, List.length_append,
      List.length_append, preorder, List.length_cons]
    exact Nat.add_lt_add_right (Nat.lt_succ_self _) _

/-- The nodes below a node, each before its children, in source order. A node is listed as often as
the walk comes by, and nothing below `maxBodyDepth` levels is listed. -/
def descendants (store : NodeStore) (root : NodeId) : List NodeId :=
  (store.walk [] ((store.childrenOf root).map (·, maxBodyDepth - 1))).reverse

end NodeStore

end AsyncLift
