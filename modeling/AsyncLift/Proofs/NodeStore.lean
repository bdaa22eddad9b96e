import AsyncLift.Node.Store

/-!
# Looking up nodes after a change

What `get?`, `parent?` and `size` give after each operation that changes a node store. A call is
replaced in one of two ways, and later proofs see the stores only through these descriptions:

* `NodeStore.InPlace`: the new call stands where the old one stood;
* `NodeStore.Moved`: an `await` stands there, and the new call under it at a fresh id.
-/

namespace AsyncLift.NodeStore

variable {store result : NodeStore} {id other : NodeId} {node : Node}

/-! ## Known ids -/

theorem get?_eq_none (h : store.size ≤ id) : store.get? id = none := by
  simp only [get?, Option.map_eq_none_iff, Array.getElem?_eq_none_iff]
  exact h

theorem lt_size_of_get? (h : store.get? id = some node) : id < store.size := by
  refine Nat.lt_of_not_le fun hge => ?_
  rw [get?_eq_none hge] at h
  cases h

theorem exists_get? (h : id < store.size) : ∃ node, store.get? id = some node :=
  ⟨_, by rw [get?, Array.getElem?_eq_getElem h, Option.map_some]⟩

theorem lt_size_of_parent? {parent : NodeId} (h : store.parent? id = some parent) :
    id < store.size := by
  obtain ⟨entry, hentry, -⟩ := Option.bind_eq_some_iff.mp h
  exact (Array.getElem?_eq_some_iff.mp hentry).1

theorem parent?_eq_none (h : store.size ≤ id) : store.parent? id = none := by
  rw [parent?, Array.getElem?_eq_none h]
  rfl

theorem mem_ids : id ∈ store.ids ↔ id < store.size := List.mem_range

theorem childrenOf_of_get? (h : store.get? id = some node) :
    store.childrenOf id = node.children := by
  rw [childrenOf, h]

theorem get?_of_mem_childrenOf {child : NodeId} (h : child ∈ store.childrenOf id) :
    ∃ node, store.get? id = some node ∧ child ∈ node.children := by
  unfold childrenOf at h
  split at h
  · exact ⟨_, ‹_›, h⟩
  · cases h

/-! ## Another node in a place -/

@[simp]
theorem size_set (store : NodeStore) (id : NodeId) (node : Node) :
    (store.set id node).size = store.size := by
  simp [set, size]

@[simp]
theorem parent?_set (store : NodeStore) (id : NodeId) (node : Node) (other : NodeId) :
    (store.set id node).parent? other = store.parent? other := by
  simp only [parent?, set, Array.getElem?_modify]
  by_cases hid : id = other
  · subst hid
    rw [if_pos rfl, Option.bind_map]
    rfl
  · rw [if_neg hid]

theorem get?_set (h : id < store.size) (node : Node) (other : NodeId) :
    (store.set id node).get? other = if other = id then some node else store.get? other := by
  simp only [get?, set, Array.getElem?_modify]
  by_cases hid : id = other
  · subst hid
    rw [if_pos rfl, if_pos rfl, Array.getElem?_eq_getElem h]
    rfl
  · rw [if_neg hid, if_neg (Ne.symm hid)]

/-! ## Adopting children -/

theorem entries_adopt (parent : NodeId) (children : List NodeId) (entries : Array Entry)
    (id : NodeId) :
    (children.foldl (fun entries child =>
      entries.modify child fun entry => { entry with parent := some parent }) entries)[id]? =
      entries[id]?.map fun entry =>
        if id ∈ children then { entry with parent := some parent } else entry := by
  induction children generalizing entries with
  | nil => simp
  | cons child children ih =>
    rw [List.foldl_cons, ih, Array.getElem?_modify]
    by_cases hid : child = id
    · subst hid
      cases entries[child]? <;> simp
    · have hmem : id ∈ child :: children ↔ id ∈ children := by
        simp [List.mem_cons, Ne.symm hid]
      simp only [if_neg hid, hmem]

@[simp]
theorem size_adopt (store : NodeStore) (parent : NodeId) (children : List NodeId) :
    (store.adopt parent children).size = store.size := by
  simp only [size, adopt]
  induction children generalizing store with
  | nil => rfl
  | cons child children ih =>
    rw [List.foldl_cons]
    simpa using ih { entries := store.entries.modify child fun entry =>
      { entry with parent := some parent } }

@[simp]
theorem get?_adopt (store : NodeStore) (parent : NodeId) (children : List NodeId) (id : NodeId) :
    (store.adopt parent children).get? id = store.get? id := by
  simp only [get?, adopt, entries_adopt, Option.map_map]
  cases store.entries[id]? with
  | none => rfl
  | some entry =>
    simp only [Option.map_some, Function.comp_apply]
    split <;> rfl

theorem parent?_adopt (store : NodeStore) (parent : NodeId) (children : List NodeId)
    (id : NodeId) :
    (store.adopt parent children).parent? id =
      if id ∈ children ∧ id < store.size then some parent else store.parent? id := by
  simp only [parent?, adopt, entries_adopt]
  by_cases hid : id < store.size
  · rw [Array.getElem?_eq_getElem hid]
    by_cases hmem : id ∈ children <;> simp [hmem, hid]
  · rw [Array.getElem?_eq_none (Nat.le_of_not_lt hid)]
    simp [hid]

@[simp]
theorem size_add (store : NodeStore) (node : Node) : (store.add node).size = store.size + 1 := by
  have hsize : (store.adopt store.size node.children).entries.size = store.size :=
    size_adopt store store.size node.children
  rw [add, size, Array.size_push, hsize]

theorem get?_add (store : NodeStore) (node : Node) (id : NodeId) :
    (store.add node).get? id = if id = store.size then some node else store.get? id := by
  have hsize : (store.adopt store.size node.children).entries.size = store.size :=
    size_adopt store store.size node.children
  rw [add, get?, Array.getElem?_push, hsize]
  split
  · rfl
  · exact get?_adopt store store.size node.children id

theorem parent?_add (store : NodeStore) (node : Node) (id : NodeId) :
    (store.add node).parent? id =
      if id ∈ node.children ∧ id < store.size then some store.size else store.parent? id := by
  have hsize : (store.adopt store.size node.children).entries.size = store.size :=
    size_adopt store store.size node.children
  rw [← parent?_adopt, add, parent?, parent?, Array.getElem?_push, hsize]
  split
  · subst id
    rw [Array.getElem?_eq_none (Nat.le_of_eq hsize)]
    rfl
  · rfl

/-- A new node has no parent. -/
theorem parent?_add_size (store : NodeStore) (node : Node) :
    (store.add node).parent? store.size = none := by
  rw [parent?_add, if_neg fun hchild => Nat.lt_irrefl _ hchild.2]
  exact parent?_eq_none (Nat.le_refl _)

theorem childrenOf_add (store : NodeStore) (node : Node) (id : NodeId) :
    (store.add node).childrenOf id =
      if id = store.size then node.children else store.childrenOf id := by
  by_cases hid : id = store.size
  · rw [if_pos hid, childrenOf_of_get? ((get?_add store node id).trans (if_pos hid))]
  · rw [if_neg hid, childrenOf, childrenOf, get?_add, if_neg hid]

/-! ## The two ways to replace a call -/

/-- The node stands in the place `id` of the store, and all else is as before. -/
structure InPlace (store : NodeStore) (id : NodeId) (node : Node) (result : NodeStore) : Prop where
  size_eq : result.size = store.size
  get?_eq : ∀ other, result.get? other = if other = id then some node else store.get? other
  parent?_eq : ∀ other, result.parent? other = store.parent? other

/-- An `await` stands in the place `id`; the node stands below it at a fresh id, with its children
below itself. -/
structure Moved (store : NodeStore) (id : NodeId) (node : Node) (result : NodeStore) : Prop where
  size_eq : result.size = store.size + 1
  get?_eq : ∀ other, result.get? other =
    if other = id then some (.await (some store.size))
    else if other = store.size then some node
    else store.get? other
  parent?_eq : ∀ other, result.parent? other =
    if other ∈ node.children ∧ other ≤ store.size then some store.size
    else if other = store.size then some id
    else store.parent? other

theorem inPlace_set (h : id < store.size) (node : Node) :
    InPlace store id node (store.set id node) where
  size_eq := size_set store id node
  get?_eq := get?_set h node
  parent?_eq := parent?_set store id node

/-- The node that `wrapInAwait` moves is the one that stands in the place. -/
theorem moved_wrapInAwait (hnode : store.get? id = some node)
    (h : store.wrapInAwait id = some result) : Moved store id node result := by
  have hid := lt_size_of_get? hnode
  simp only [wrapInAwait, hnode, Option.map_some, Option.some.injEq] at h
  subst h
  have hsize : (store.set id (.await (some store.size))).entries.size = store.size :=
    size_set store id _
  refine ⟨?_, fun other => ?_, fun other => ?_⟩
  · rw [size_adopt, size, Array.size_push, hsize]
  · rw [get?_adopt, get?, Array.getElem?_push, hsize]
    by_cases hother : other = store.size
    · subst hother
      simp [Nat.ne_of_gt hid]
    · rw [if_neg hother, if_neg hother]
      exact get?_set hid _ other
  · have hpushed : ∀ entry : Entry,
        size { entries := (store.set id (.await (some store.size))).entries.push entry } =
          store.size + 1 := fun entry => by rw [size, Array.size_push, hsize]
    rw [parent?_adopt, hpushed]
    simp only [Nat.lt_succ_iff]
    by_cases hchild : other ∈ node.children ∧ other ≤ store.size
    · rw [if_pos hchild, if_pos hchild]
    · rw [if_neg hchild, if_neg hchild, parent?, Array.getElem?_push, hsize]
      by_cases hother : other = store.size
      · simp [hother]
      · rw [if_neg hother, if_neg hother]
        exact parent?_set store id _ other

/-- A call that replaces a call keeps the children, so the second replacement sees the first only in
the place itself. -/
theorem Moved.of_set {node' : Node} (hid : id < store.size)
    (h : Moved (store.set id node') id node result) : Moved store id node result where
  size_eq := by rw [h.size_eq, size_set]
  get?_eq other := by
    rw [h.get?_eq, size_set]
    by_cases hother : other = id
    · rw [if_pos hother, if_pos hother]
    · rw [if_neg hother, if_neg hother, get?_set hid, if_neg hother]
  parent?_eq other := by rw [h.parent?_eq, size_set, parent?_set]

end AsyncLift.NodeStore
