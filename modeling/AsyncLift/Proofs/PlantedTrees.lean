import AsyncLift.Proofs.DocumentLevels
import AsyncLift.Proofs.LoweredTrees
import AsyncLift.Proofs.Walks

/-!
# Trees that are planted beside others

A loader makes the nodes of a body children first, so that at every moment the nodes are a forest
whose last trees wait for a parent. `NodeStore.Plants` says this of a stretch of loading: which
trees are new, and how many levels they have at most. Putting a node above the new trees makes one
of them (`Plants.add`), and lowering statements and expressions of a document plants trees of as
many levels as the document has (`StmtDoc.lower_plants`, `ExprDoc.lower_plants`).
-/

namespace AsyncLift

namespace NodeStore

variable {store middle later : NodeStore} {id top : NodeId} {node : Node} {levels more : Nat}
  {tops tops' : List NodeId}

/-! ## Adding a node -/

/-- A walk stays in the old part of a store that has kept its parents. -/
theorem climb_eq_of_parent?_eq (hlinked : store.Linked)
    (hparents : ∀ id < store.size, later.parent? id = store.parent? id) (hid : id < store.size)
    (hops : Nat) : later.climb hops id = store.climb hops id := by
  induction hops generalizing id with
  | zero => rfl
  | succ hops ih =>
    rw [climb, climb, hparents id hid]
    cases hparent : store.parent? id with
    | none => rfl
    | some parent => exact ih (hlinked.parent_known id parent hparent)

/-- A node may be put above known nodes that have no parent. -/
theorem Forest.add (h : store.Forest) (hnodup : node.children.Nodup)
    (htops : ∀ child ∈ node.children, child < store.size ∧ store.parent? child = none) :
    (store.add node).Forest := by
  have hadded := store.parent?_add_size node
  -- A link of the new store is one of the old, or it leads to the new node.
  have hlink : ∀ child parent, (store.add node).parent? child = some parent →
      store.parent? child = some parent ∨ child ∈ node.children ∧ parent = store.size := by
    intro child parent hparent
    rw [parent?_add] at hparent
    split at hparent
    · exact .inr ⟨‹_ ∧ _›.1, (Option.some.inj hparent).symm⟩
    · exact .inl hparent
  constructor
  · intro parent child hchild
    rw [childrenOf_add] at hchild
    rw [size_add]
    split at hchild
    · exact Nat.lt_succ_of_lt (htops child hchild).1
    · exact Nat.lt_succ_of_lt (h.known parent child hchild)
  · intro parent
    rw [childrenOf_add]
    split
    · exact hnodup
    · exact h.once parent
  · intro parent child
    rw [childrenOf_add, parent?_add]
    by_cases hchild : child ∈ node.children ∧ child < store.size
    · rw [if_pos hchild]
      split
      · simp [hchild.1, ‹parent = store.size›]
      · rw [h.links, (htops child hchild.1).2]
        simp [Ne.symm ‹¬parent = store.size›]
    · rw [if_neg hchild]
      split
      · subst parent
        refine ⟨fun hmem => absurd ⟨hmem, (htops child hmem).1⟩ hchild, fun hparent => ?_⟩
        exact absurd (h.linked.parent_known child _ hparent) (Nat.lt_irrefl _)
      · exact h.links parent child
  · intro id hcycle
    have hpath : ∀ top, Relation.TransGen
        (fun child parent => (store.add node).parent? child = some parent) id top →
          Relation.TransGen (fun child parent => store.parent? child = some parent) id top ∨
            top = store.size := by
      intro top hpath
      induction hpath with
      | single hparent =>
        rcases hlink _ _ hparent with hold | ⟨-, hsize⟩
        · exact .inl (.single hold)
        · exact .inr hsize
      | tail _ hparent ih =>
        rcases ih with hold | rfl
        · rcases hlink _ _ hparent with hlast | ⟨-, hsize⟩
          · exact .inl (hold.tail hlast)
          · exact .inr hsize
        · rw [hadded] at hparent
          cases hparent
    rcases hpath id hcycle with hold | rfl
    · exact h.acyclic id hold
    · obtain ⟨parent, hparent, -⟩ := Relation.TransGen.head'_iff.mp hcycle
      rw [hadded] at hparent
      cases hparent

/-! ## Planting -/

/-- The later store has new trees beside the old ones, which are as they were. The tops of the new
trees are listed, and none of these trees has more than the given number of levels. -/
structure Plants (store : NodeStore) (tops : List NodeId) (levels : Nat) (later : NodeStore) :
    Prop where
  size_le : store.size ≤ later.size
  forest : later.Forest
  parent?_eq : ∀ id < store.size, later.parent? id = store.parent? id
  nodup : tops.Nodup
  fresh : ∀ top ∈ tops, store.size ≤ top ∧ top < later.size ∧ later.parent? top = none
  climbs : ∀ id, store.size ≤ id → id < later.size → ∃ top ∈ tops, later.climb levels id = some top

namespace Plants

theorem refl (h : store.Forest) (levels : Nat) : store.Plants [] levels store where
  size_le := Nat.le_refl _
  forest := h
  parent?_eq _ _ := rfl
  nodup := List.nodup_nil
  fresh _ htop := absurd htop List.not_mem_nil
  climbs _ hle hlt := absurd hlt (Nat.not_lt.mpr hle)

theorem mono (h : store.Plants tops levels later) (hle : levels ≤ more) :
    store.Plants tops more later where
  size_le := h.size_le
  forest := h.forest
  parent?_eq := h.parent?_eq
  nodup := h.nodup
  fresh := h.fresh
  climbs id hge hlt := by
    obtain ⟨top, htop, hclimb⟩ := h.climbs id hge hlt
    exact ⟨top, htop, climb_mono hle hclimb⟩

/-- Planting twice. -/
theorem append (h : store.Plants tops levels middle) (h' : middle.Plants tops' levels later) :
    store.Plants (tops ++ tops') levels later where
  size_le := Nat.le_trans h.size_le h'.size_le
  forest := h'.forest
  parent?_eq id hid :=
    (h'.parent?_eq id (Nat.lt_of_lt_of_le hid h.size_le)).trans (h.parent?_eq id hid)
  nodup := by
    refine List.nodup_append.mpr ⟨h.nodup, h'.nodup, fun top htop top' htop' heq => ?_⟩
    have hlt := (h.fresh top htop).2.1
    have hle := (h'.fresh top' htop').1
    rw [heq] at hlt
    exact Nat.not_lt.mpr hle hlt
  fresh top htop := by
    rcases List.mem_append.mp htop with hfirst | hlast
    · obtain ⟨hle, hlt, hroot⟩ := h.fresh top hfirst
      exact ⟨hle, Nat.lt_of_lt_of_le hlt h'.size_le, (h'.parent?_eq top hlt).trans hroot⟩
    · obtain ⟨hle, hlt, hroot⟩ := h'.fresh top hlast
      exact ⟨Nat.le_trans h.size_le hle, hlt, hroot⟩
  climbs id hge hlt := by
    by_cases hmiddle : id < middle.size
    · obtain ⟨top, htop, hclimb⟩ := h.climbs id hge hmiddle
      refine ⟨top, List.mem_append_left _ htop, ?_⟩
      rw [climb_eq_of_parent?_eq h.forest.linked h'.parent?_eq hmiddle]
      exact hclimb
    · obtain ⟨top, htop, hclimb⟩ := h'.climbs id (Nat.le_of_not_lt hmiddle) hlt
      exact ⟨top, List.mem_append_right _ htop, hclimb⟩

/-- From below the new node a walk ends there, one hop later than before. -/
theorem climb_add (htops : ∀ child ∈ node.children, child < store.size ∧ store.parent? child = none)
    (htop : top ∈ node.children) (h : store.climb levels id = some top) :
    (store.add node).climb (levels + 1) id = some store.size := by
  induction levels generalizing id with
  | zero => cases h
  | succ levels ih =>
    rw [climb] at h
    cases hparent : store.parent? id with
    | none =>
      rw [hparent] at h
      cases h
      have habove : (store.add node).parent? top = some store.size := by
        rw [parent?_add, if_pos ⟨htop, (htops top htop).1⟩]
      rw [climb_succ habove, climb, parent?_add_size]
    | some parent =>
      rw [hparent] at h
      have hinner : id ∉ node.children := by
        intro hchild
        rw [(htops id hchild).2] at hparent
        cases hparent
      have hkept : (store.add node).parent? id = some parent := by
        rw [parent?_add, if_neg fun hchild => hinner hchild.1, hparent]
      rw [climb_succ hkept]
      exact ih h

/-- A node above all new trees makes one of them. -/
theorem add (h : store.Plants tops levels later) (hchildren : node.children = tops) :
    store.Plants [later.size] (levels + 1) (later.add node) := by
  subst hchildren
  have htops : ∀ child ∈ node.children, child < later.size ∧ later.parent? child = none :=
    fun child hchild => (h.fresh child hchild).2
  refine ⟨?_, h.forest.add h.nodup htops, fun id hid => ?_, List.nodup_singleton _, ?_, ?_⟩
  · rw [size_add]
    exact Nat.le_succ_of_le h.size_le
  · rw [parent?_add, if_neg fun hchild => Nat.not_lt.mpr (h.fresh id hchild.1).1 hid]
    exact h.parent?_eq id hid
  · intro top htop
    rw [List.mem_singleton.mp htop, size_add]
    exact ⟨h.size_le, Nat.lt_succ_self _, later.parent?_add_size node⟩
  · intro id hge hlt
    refine ⟨later.size, List.mem_singleton_self _, ?_⟩
    rw [size_add] at hlt
    rcases Nat.lt_succ_iff_lt_or_eq.mp hlt with hold | rfl
    · obtain ⟨top, htop, hclimb⟩ := h.climbs id hge hold
      exact climb_add htops htop hclimb
    · rw [climb, parent?_add_size]

end Plants

end NodeStore

/-! ## Lowering -/

theorem Node.children_call (receiver : Slot) (name : String) (target : Option MethodId)
    (args : List Slot) :
    (Node.call receiver name target args).children =
      receiver.toList ++ (Node.block args).children := by
  cases receiver <;> rfl

namespace Loading

variable {store : NodeStore} {builder later : Builder} {id : NodeId} {node : Node}
  {tops : List NodeId} {levels : Nat}

theorem plants_of_make (h : store.Plants tops levels builder.program.nodes)
    (hchildren : node.children = tops)
    (hmake : (make (·.addNode node)).run builder = .ok (id, later)) :
    store.Plants [id] (levels + 1) later.program.nodes := by
  cases run_make_eq_ok.mp hmake
  exact h.add hchildren

/-- A block above the new trees and a node above the block. -/
theorem plants_of_makeBlock (statements : List Slot) (above : NodeId → Node)
    (habove : ∀ block, (above block).children = [block])
    (h : store.Plants (Node.block statements).children levels builder.program.nodes)
    (hmake : (make fun builder =>
      (builder.addNode (.block statements)).2.addNode
        (above (builder.addNode (.block statements)).1)).run builder = .ok (id, later)) :
    store.Plants [id] (levels + 2) later.program.nodes := by
  cases run_make_eq_ok.mp hmake
  exact (h.add rfl).add (habove _)

end Loading

open Loading

mutual

/-- A statement becomes one tree, of as many levels as it has. -/
theorem StmtDoc.lower_plants : (stmt : StmtDoc) → {builder later : Builder} → {id : NodeId} →
    builder.program.nodes.Forest → stmt.lower.run builder = .ok (id, later) →
      builder.program.nodes.Plants [id] stmt.levels later.program.nodes
  | .expr expr, builder, later, id, hforest, h => by
    rw [StmtDoc.lower, run_bind_eq_ok] at h
    obtain ⟨child, middle, hexpr, hmake⟩ := h
    exact plants_of_make (ExprDoc.lower_plants expr hforest hexpr) rfl hmake
  | .ret none, builder, later, id, hforest, h => plants_of_make (.refl hforest 0) rfl h
  | .ret (some expr), builder, later, id, hforest, h => by
    rw [StmtDoc.lower, run_bind_eq_ok] at h
    obtain ⟨child, middle, hexpr, hmake⟩ := h
    exact plants_of_make (ExprDoc.lower_plants expr hforest hexpr) rfl hmake
  | .localVar name init, builder, later, id, hforest, h => by
    rw [StmtDoc.lower, run_bind_eq_ok] at h
    obtain ⟨child, middle, hinit, hmake⟩ := h
    exact plants_of_make (ExprDoc.lower_plants init hforest hinit) rfl hmake
  | .localFunction name isAsync returns body, builder, later, id, hforest, h => by
    rw [StmtDoc.lower, run_bind_eq_ok] at h
    obtain ⟨returnType, _, hlift, h⟩ := h
    obtain ⟨-, rfl⟩ := run_lift_eq_ok.mp hlift
    obtain ⟨slots, middle, hbody, hmake⟩ := run_bind_eq_ok.mp h
    exact plants_of_makeBlock slots (.localFunction name isAsync returnType ∘ some) (fun _ => rfl)
      (StmtDoc.lowerList_plants body hforest hbody) hmake

/-- Statements become trees side by side. -/
theorem StmtDoc.lowerList_plants : (stmts : List StmtDoc) → {builder later : Builder} →
    {slots : List Slot} → builder.program.nodes.Forest →
      (StmtDoc.lowerList stmts).run builder = .ok (slots, later) →
        builder.program.nodes.Plants (Node.block slots).children (StmtDoc.levelsOfList stmts)
          later.program.nodes
  | [], builder, later, slots, hforest, h => by
    obtain ⟨rfl, rfl⟩ := run_pure_eq_ok.mp h
    exact .refl hforest 0
  | stmt :: stmts, builder, later, slots, hforest, h => by
    rw [StmtDoc.lowerList, run_bind_eq_ok] at h
    obtain ⟨id, middle, hstmt, h⟩ := h
    obtain ⟨rest, last, hstmts, hpure⟩ := run_bind_eq_ok.mp h
    obtain ⟨rfl, rfl⟩ := run_pure_eq_ok.mp hpure
    have hfirst := StmtDoc.lower_plants stmt hforest hstmt
    have hrest := StmtDoc.lowerList_plants stmts hfirst.forest hstmts
    exact (hfirst.mono (Nat.le_max_left _ _)).append (hrest.mono (Nat.le_max_right _ _))

/-- An expression becomes one tree, of as many levels as it has. -/
theorem ExprDoc.lower_plants : (expr : ExprDoc) → {builder later : Builder} → {id : NodeId} →
    builder.program.nodes.Forest → expr.lower.run builder = .ok (id, later) →
      builder.program.nodes.Plants [id] expr.levels later.program.nodes
  | .call target name receiver args, builder, later, id, hforest, h => by
    rw [ExprDoc.lower, run_bind_eq_ok] at h
    obtain ⟨receiver', first, hreceiver, h⟩ := h
    obtain ⟨args', second, hargs, h⟩ := run_bind_eq_ok.mp h
    have hfirst := ExprDoc.lowerOption_plants receiver hforest hreceiver
    have hsecond := ExprDoc.lowerList_plants args hfirst.forest hargs
    have hboth := (hfirst.mono (Nat.le_max_left _ (ExprDoc.levelsOfList args))).append
      (hsecond.mono (Nat.le_max_right (ExprDoc.levelsOfOption receiver) _))
    cases target with
    | none =>
      cases name with
      | none => cases h
      | some name => exact plants_of_make hboth (Node.children_call ..) h
    | some path =>
      cases name with
      | none =>
        obtain ⟨callee, _, hresolve, hmake⟩ := run_bind_eq_ok.mp h
        obtain ⟨-, rfl⟩ := run_resolve_eq_ok.mp hresolve
        exact plants_of_make hboth (Node.children_call ..) hmake
      | some name =>
        obtain ⟨callee, _, hresolve, hmake⟩ := run_bind_eq_ok.mp h
        obtain ⟨-, rfl⟩ := run_resolve_eq_ok.mp hresolve
        exact plants_of_make hboth (Node.children_call ..) hmake
  | .await operand, builder, later, id, hforest, h => by
    rw [ExprDoc.lower, run_bind_eq_ok] at h
    obtain ⟨child, middle, hoperand, hmake⟩ := h
    exact plants_of_make (ExprDoc.lower_plants operand hforest hoperand) rfl hmake
  | .lambda isAsync params body, builder, later, id, hforest, h => by
    rw [ExprDoc.lower, run_bind_eq_ok] at h
    obtain ⟨slots, middle, hbody, hmake⟩ := h
    exact plants_of_makeBlock slots (.lambda isAsync params ∘ some) (fun _ => rfl)
      (StmtDoc.lowerList_plants body hforest hbody) hmake
  | .methodGroup path, builder, later, id, hforest, h => by
    rw [ExprDoc.lower, run_bind_eq_ok] at h
    obtain ⟨target, _, hresolve, hmake⟩ := h
    obtain ⟨-, rfl⟩ := run_resolve_eq_ok.mp hresolve
    exact plants_of_make (.refl hforest 0) rfl hmake
  | .name text, builder, later, id, hforest, h => plants_of_make (.refl hforest 0) rfl h
  | .literal text, builder, later, id, hforest, h => plants_of_make (.refl hforest 0) rfl h

/-- Expressions become trees side by side. -/
theorem ExprDoc.lowerList_plants : (exprs : List ExprDoc) → {builder later : Builder} →
    {slots : List Slot} → builder.program.nodes.Forest →
      (ExprDoc.lowerList exprs).run builder = .ok (slots, later) →
        builder.program.nodes.Plants (Node.block slots).children (ExprDoc.levelsOfList exprs)
          later.program.nodes
  | [], builder, later, slots, hforest, h => by
    obtain ⟨rfl, rfl⟩ := run_pure_eq_ok.mp h
    exact .refl hforest 0
  | expr :: exprs, builder, later, slots, hforest, h => by
    rw [ExprDoc.lowerList, run_bind_eq_ok] at h
    obtain ⟨id, middle, hexpr, h⟩ := h
    obtain ⟨rest, last, hexprs, hpure⟩ := run_bind_eq_ok.mp h
    obtain ⟨rfl, rfl⟩ := run_pure_eq_ok.mp hpure
    have hfirst := ExprDoc.lower_plants expr hforest hexpr
    have hrest := ExprDoc.lowerList_plants exprs hfirst.forest hexprs
    exact (hfirst.mono (Nat.le_max_left _ _)).append (hrest.mono (Nat.le_max_right _ _))

theorem ExprDoc.lowerOption_plants : (expr : Option ExprDoc) → {builder later : Builder} →
    {slot : Slot} → builder.program.nodes.Forest →
      (ExprDoc.lowerOption expr).run builder = .ok (slot, later) →
        builder.program.nodes.Plants slot.toList (ExprDoc.levelsOfOption expr) later.program.nodes
  | none, builder, later, slot, hforest, h => by
    obtain ⟨rfl, rfl⟩ := run_pure_eq_ok.mp h
    exact .refl hforest 0
  | some expr, builder, later, slot, hforest, h => by
    rw [ExprDoc.lowerOption, run_bind_eq_ok] at h
    obtain ⟨id, middle, hexpr, hpure⟩ := h
    obtain ⟨rfl, rfl⟩ := run_pure_eq_ok.mp hpure
    exact ExprDoc.lower_plants expr hforest hexpr

end

end AsyncLift
