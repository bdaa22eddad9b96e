import AsyncLift.Project.Loading
import AsyncLift.Proofs.NodeStore

/-!
# Bodies and what they become

`StmtDoc.StandsAt` and `ExprDoc.StandsAt` say that a statement or an expression of a document stands
in a program at a node, together with all that is below it: one reads it back by going from nodes to
their children. A key stands for the method that it resolves to in that program.

Lowering makes nodes and nothing else, children first (`Builder.AddsNodes`), and what it makes
stands at the node that it returns (`StmtDoc.lower_spec`). It goes on standing there in every
program that has these nodes and resolves keys to methods of the same names (`Program.Retains`).
-/

namespace AsyncLift

/-! ## Steps that succeed -/

namespace Loading

variable {α β : Type} {builder later : Builder} {a b : α}

theorem run_bind_eq_ok {x : Loading α} {f : α → Loading β} {result : β} :
    (x >>= f).run builder = .ok (result, later) ↔
      ∃ a middle, x.run builder = .ok (a, middle) ∧ (f a).run middle = .ok (result, later) := by
  rw [StateT.run_bind]
  cases x.run builder with
  | error fault => simp [bind, Except.bind]
  | ok outcome =>
    obtain ⟨a, middle⟩ := outcome
    constructor
    · exact fun h => ⟨a, middle, rfl, h⟩
    · rintro ⟨_, _, houtcome, h⟩
      cases houtcome
      exact h

theorem run_pure_eq_ok :
    (pure a : Loading α).run builder = .ok (b, later) ↔ b = a ∧ later = builder := by
  constructor
  · intro h
    cases h
    exact ⟨rfl, rfl⟩
  · rintro ⟨rfl, rfl⟩
    rfl

theorem run_update_eq_ok {change : Builder → Builder} :
    (update change).run builder = .ok ((), later) ↔ later = change builder := by
  constructor
  · intro h
    cases h
    rfl
  · rintro rfl
    rfl

theorem run_make_eq_ok {step : Builder → Nat × Builder} {id : Nat} :
    (make step).run builder = .ok (id, later) ↔ step builder = (id, later) := by
  have hrun : (make step).run builder = .ok (step builder) := rfl
  rw [hrun, Except.ok.injEq]

/-- A step that does not look at the builder leaves it alone. -/
theorem run_lift_eq_ok {x : Except ProgramError α} :
    (liftM x : Loading α).run builder = .ok (a, later) ↔ x = .ok a ∧ later = builder := by
  cases x with
  | error fault =>
    have hrun : (liftM (.error fault : Except ProgramError α) : Loading α).run builder =
        .error fault := rfl
    simp [hrun]
  | ok value =>
    have hrun : (liftM (.ok value : Except ProgramError α) : Loading α).run builder =
        .ok (value, builder) := rfl
    simp [hrun, eq_comm]

theorem run_get_bind {f : Builder → Loading β} :
    (get >>= f).run builder = (f builder).run builder := rfl

theorem run_resolve_eq_ok {path : String} {id : MethodId} :
    (resolve path).run builder = .ok (id, later) ↔
      builder.program.resolveMethod path = .ok id ∧ later = builder := by
  rw [resolve, run_get_bind]
  exact run_lift_eq_ok

theorem run_findType_eq_ok {name : String} {type : TypeId} :
    (findType name).run builder = .ok (type, later) ↔
      builder.program.findType? name = some type ∧ later = builder := by
  rw [findType, run_get_bind]
  cases builder.program.findType? name with
  | none =>
    constructor
    · intro h
      cases h
    · rintro ⟨h, -⟩
      cases h
  | some found =>
    rw [run_pure_eq_ok, Option.some.injEq, eq_comm]

end Loading

/-! ## Trees that stand in a program -/

namespace Program

variable (program : Program)

def nameOf? (id : MethodId) : Option String := program.methods[id]?.map (·.name)

/-- What a call is written as: with the target that its key resolves to, under its own name or else
under the name of the target; without a key it has its own name and no target. -/
def Resolves : (target name : Option String) → (target' : Option MethodId) → (name' : String) → Prop
  | none, name, target', name' => target' = none ∧ name = some name'
  | some path, name, target', name' => ∃ id own, program.resolveMethod path = .ok id ∧
      program.nameOf? id = some own ∧ target' = some id ∧ name' = name.getD own

end Program

mutual

/-- The statement stands at a node, with what belongs to it below. -/
def StmtDoc.StandsAt (program : Program) : StmtDoc → NodeId → Prop
  | .expr expr, id => ∃ child, program.nodes.get? id = some (.exprStatement (some child)) ∧
      expr.StandsAt program child
  | .ret none, id => program.nodes.get? id = some (.ret none)
  | .ret (some expr), id => ∃ child, program.nodes.get? id = some (.ret (some child)) ∧
      expr.StandsAt program child
  | .localVar name init, id => ∃ child, program.nodes.get? id = some (.localVar name (some child)) ∧
      init.StandsAt program child
  | .localFunction name isAsync returns body, id => ∃ returnType block slots,
      TypeExpr.parse returns = .ok returnType ∧
      program.nodes.get? id = some (.localFunction name isAsync returnType (some block)) ∧
      program.nodes.get? block = some (.block slots) ∧ StmtDoc.AllStandAt program body slots

/-- The statements stand at the nodes of a list, one by one. -/
def StmtDoc.AllStandAt (program : Program) : List StmtDoc → List Slot → Prop
  | [], slots => slots = []
  | stmt :: stmts, slots => ∃ id rest, slots = some id :: rest ∧ stmt.StandsAt program id ∧
      StmtDoc.AllStandAt program stmts rest

/-- The expression stands at a node, with what belongs to it below. -/
def ExprDoc.StandsAt (program : Program) : ExprDoc → NodeId → Prop
  | .call target name receiver args, id => ∃ receiver' name' target' args',
      program.nodes.get? id = some (.call receiver' name' target' args') ∧
      program.Resolves target name target' name' ∧
      ExprDoc.OptionStandsAt program receiver receiver' ∧ ExprDoc.AllStandAt program args args'
  | .await operand, id => ∃ child, program.nodes.get? id = some (.await (some child)) ∧
      operand.StandsAt program child
  | .lambda isAsync params body, id => ∃ block slots,
      program.nodes.get? id = some (.lambda isAsync params (some block)) ∧
      program.nodes.get? block = some (.block slots) ∧ StmtDoc.AllStandAt program body slots
  | .methodGroup target, id => ∃ name' target',
      program.nodes.get? id = some (.methodGroup none name' target') ∧
      program.Resolves (some target) none target' name'
  | .name text, id => program.nodes.get? id = some (.name text)
  | .literal text, id => program.nodes.get? id = some (.literal text)

/-- The expressions stand at the nodes of a list, one by one. -/
def ExprDoc.AllStandAt (program : Program) : List ExprDoc → List Slot → Prop
  | [], slots => slots = []
  | expr :: exprs, slots => ∃ id rest, slots = some id :: rest ∧ expr.StandsAt program id ∧
      ExprDoc.AllStandAt program exprs rest

/-- The expression stands at the node, or both are missing. -/
def ExprDoc.OptionStandsAt (program : Program) : Option ExprDoc → Slot → Prop
  | none, slot => slot = none
  | some expr, slot => ∃ id, slot = some id ∧ expr.StandsAt program id

end

/-! ## Programs that retain what stands in another -/

namespace Program

/-- The later program has the nodes of the other, and keys resolve to the same methods, under the
same names. -/
structure Retains (program later : Program) : Prop where
  nodes : ∀ id node, program.nodes.get? id = some node → later.nodes.get? id = some node
  resolve : ∀ path, later.resolveMethod path = program.resolveMethod path
  names : ∀ id, later.nameOf? id = program.nameOf? id

variable {program later third : Program}

theorem Retains.refl (program : Program) : program.Retains program where
  nodes _ _ h := h
  resolve _ := rfl
  names _ := rfl

theorem Retains.trans (h : program.Retains later) (h' : later.Retains third) :
    program.Retains third where
  nodes id node hnode := h'.nodes id node (h.nodes id node hnode)
  resolve path := (h'.resolve path).trans (h.resolve path)
  names id := (h'.names id).trans (h.names id)

theorem Retains.resolves (h : program.Retains later) {target name : Option String}
    {target' : Option MethodId} {name' : String}
    (hresolves : program.Resolves target name target' name') :
    later.Resolves target name target' name' := by
  cases target with
  | none => exact hresolves
  | some path =>
    obtain ⟨id, own, hpath, hown, htarget, hname⟩ := hresolves
    exact ⟨id, own, (h.resolve path).trans hpath, (h.names id).trans hown, htarget, hname⟩

end Program

mutual

theorem StmtDoc.StandsAt.retained {program later : Program} (h : program.Retains later) :
    {stmt : StmtDoc} → {id : NodeId} → stmt.StandsAt program id → stmt.StandsAt later id
  | .expr expr, id, hstands => by
    obtain ⟨child, hnode, hchild⟩ := hstands
    exact ⟨child, h.nodes _ _ hnode, ExprDoc.StandsAt.retained h hchild⟩
  | .ret none, id, hstands => h.nodes _ _ hstands
  | .ret (some expr), id, hstands => by
    obtain ⟨child, hnode, hchild⟩ := hstands
    exact ⟨child, h.nodes _ _ hnode, ExprDoc.StandsAt.retained h hchild⟩
  | .localVar name init, id, hstands => by
    obtain ⟨child, hnode, hchild⟩ := hstands
    exact ⟨child, h.nodes _ _ hnode, ExprDoc.StandsAt.retained h hchild⟩
  | .localFunction name isAsync returns body, id, hstands => by
    obtain ⟨returnType, block, slots, hreturns, hnode, hblock, hbody⟩ := hstands
    exact ⟨returnType, block, slots, hreturns, h.nodes _ _ hnode, h.nodes _ _ hblock,
      StmtDoc.AllStandAt.retained h hbody⟩

theorem StmtDoc.AllStandAt.retained {program later : Program} (h : program.Retains later) :
    {stmts : List StmtDoc} → {slots : List Slot} → StmtDoc.AllStandAt program stmts slots →
      StmtDoc.AllStandAt later stmts slots
  | [], slots, hstands => hstands
  | stmt :: stmts, slots, hstands => by
    obtain ⟨id, rest, hslots, hfirst, hrest⟩ := hstands
    exact ⟨id, rest, hslots, StmtDoc.StandsAt.retained h hfirst,
      StmtDoc.AllStandAt.retained h hrest⟩

theorem ExprDoc.StandsAt.retained {program later : Program} (h : program.Retains later) :
    {expr : ExprDoc} → {id : NodeId} → expr.StandsAt program id → expr.StandsAt later id
  | .call target name receiver args, id, hstands => by
    obtain ⟨receiver', name', target', args', hnode, hresolves, hreceiver, hargs⟩ := hstands
    exact ⟨receiver', name', target', args', h.nodes _ _ hnode, h.resolves hresolves,
      ExprDoc.OptionStandsAt.retained h hreceiver,
      ExprDoc.AllStandAt.retained h hargs⟩
  | .await operand, id, hstands => by
    obtain ⟨child, hnode, hchild⟩ := hstands
    exact ⟨child, h.nodes _ _ hnode, ExprDoc.StandsAt.retained h hchild⟩
  | .lambda isAsync params body, id, hstands => by
    obtain ⟨block, slots, hnode, hblock, hbody⟩ := hstands
    exact ⟨block, slots, h.nodes _ _ hnode, h.nodes _ _ hblock,
      StmtDoc.AllStandAt.retained h hbody⟩
  | .methodGroup target, id, hstands => by
    obtain ⟨name', target', hnode, hresolves⟩ := hstands
    exact ⟨name', target', h.nodes _ _ hnode, h.resolves hresolves⟩
  | .name text, id, hstands => h.nodes _ _ hstands
  | .literal text, id, hstands => h.nodes _ _ hstands

theorem ExprDoc.AllStandAt.retained {program later : Program} (h : program.Retains later) :
    {exprs : List ExprDoc} → {slots : List Slot} → ExprDoc.AllStandAt program exprs slots →
      ExprDoc.AllStandAt later exprs slots
  | [], slots, hstands => hstands
  | expr :: exprs, slots, hstands => by
    obtain ⟨id, rest, hslots, hfirst, hrest⟩ := hstands
    exact ⟨id, rest, hslots, ExprDoc.StandsAt.retained h hfirst,
      ExprDoc.AllStandAt.retained h hrest⟩

theorem ExprDoc.OptionStandsAt.retained {program later : Program} (h : program.Retains later) :
    {expr : Option ExprDoc} → {slot : Slot} → ExprDoc.OptionStandsAt program expr slot →
      ExprDoc.OptionStandsAt later expr slot
  | none, slot, hstands => hstands
  | some expr, slot, hstands => by
    obtain ⟨id, hslot, hexpr⟩ := hstands
    exact ⟨id, hslot, ExprDoc.StandsAt.retained h hexpr⟩

end

/-! ## Lowering -/

namespace Builder

/-- The later builder has more nodes and is the same otherwise. -/
structure AddsNodes (builder later : Builder) : Prop where
  tables : later = { builder with program := { builder.program with nodes := later.program.nodes } }
  nodes : ∀ id node, builder.program.nodes.get? id = some node →
    later.program.nodes.get? id = some node

variable {builder later third : Builder} {id : NodeId} {node : Node}

theorem AddsNodes.refl (builder : Builder) : builder.AddsNodes builder where
  tables := rfl
  nodes _ _ h := h

theorem AddsNodes.trans (h : builder.AddsNodes later) (h' : later.AddsNodes third) :
    builder.AddsNodes third where
  tables := by rw [h'.tables, h.tables]
  nodes id node hnode := h'.nodes id node (h.nodes id node hnode)

theorem AddsNodes.retains (h : builder.AddsNodes later) :
    builder.program.Retains later.program where
  nodes := h.nodes
  resolve path := by
    rw [h.tables]
    rfl
  names id := by
    rw [h.tables]
    rfl

theorem addsNodes_addNode (builder : Builder) (node : Node) :
    builder.AddsNodes (builder.addNode node).2 ∧
      (builder.addNode node).2.program.nodes.get? (builder.addNode node).1 = some node := by
  have hget := NodeStore.get?_add builder.program.nodes node
  refine ⟨⟨rfl, fun id other hother => ?_⟩, (hget _).trans (if_pos rfl)⟩
  refine (hget id).trans ((if_neg ?_).trans hother)
  exact Nat.ne_of_lt (NodeStore.lt_size_of_get? hother)

theorem nameOf?_methodName {target : MethodId} (h : target < builder.program.methods.size) :
    builder.program.nameOf? target = some (builder.methodName target) := by
  rw [Program.nameOf?, methodName, Array.getElem?_eq_getElem h]
  rfl

end Builder

open Builder

theorem Program.lt_size_of_resolveMethod {program : Program} {path : String} {id : MethodId}
    (h : program.resolveMethod path = .ok id) : id < program.methods.size := by
  unfold resolveMethod at h
  split at h
  · rename_i found hfound
    cases h
    exact (Array.findIdx?_eq_some_iff_findIdx_eq.mp hfound).1
  · split at h
    · cases h
    · rename_i only honly
      cases h
      have hmem : id ∈ program.methodIds.filter (program.qualifiedName · == path) := by
        rw [honly]
        exact List.mem_singleton_self id
      exact List.mem_range.mp (List.mem_filter.mp hmem).1
    · cases h

namespace Loading

variable {builder later : Builder} {id : NodeId} {node : Node}

theorem addsNodes_of_make (h : (make (·.addNode node)).run builder = .ok (id, later)) :
    builder.AddsNodes later ∧ later.program.nodes.get? id = some node := by
  have hadds := addsNodes_addNode builder node
  rw [run_make_eq_ok.mp h] at hadds
  exact hadds

/-- A block and a node above it. -/
theorem addsNodes_of_makeBlock (statements : List Slot) (above : NodeId → Node)
    (h : (make fun builder =>
      (builder.addNode (.block statements)).2.addNode
        (above (builder.addNode (.block statements)).1)).run builder = .ok (id, later)) :
    builder.AddsNodes later ∧ ∃ block, later.program.nodes.get? id = some (above block) ∧
      later.program.nodes.get? block = some (.block statements) := by
  obtain ⟨hblock, hget⟩ := addsNodes_addNode builder (.block statements)
  obtain ⟨habove, hget'⟩ := addsNodes_addNode (builder.addNode (.block statements)).2
    (above (builder.addNode (.block statements)).1)
  rw [run_make_eq_ok.mp h] at habove hget'
  exact ⟨hblock.trans habove, _, hget', habove.nodes _ _ hget⟩

/-- A key that was resolved stands for a method under its name. -/
theorem resolves_of_resolve {path : String} {target : MethodId} {name : Option String}
    (h : builder.program.resolveMethod path = .ok target) :
    builder.program.Resolves (some path) name (some target)
      (name.getD (builder.methodName target)) :=
  ⟨target, _, h, nameOf?_methodName (Program.lt_size_of_resolveMethod h), rfl, rfl⟩

end Loading

open Loading

mutual

theorem StmtDoc.lower_spec : (stmt : StmtDoc) → {builder later : Builder} → {id : NodeId} →
    stmt.lower.run builder = .ok (id, later) →
      builder.AddsNodes later ∧ stmt.StandsAt later.program id
  | .expr expr, builder, later, id, h => by
    rw [StmtDoc.lower, run_bind_eq_ok] at h
    obtain ⟨child, middle, hexpr, hmake⟩ := h
    obtain ⟨hfirst, hchild⟩ := ExprDoc.lower_spec expr hexpr
    obtain ⟨hlast, hnode⟩ := addsNodes_of_make hmake
    exact ⟨hfirst.trans hlast, child, hnode, hchild.retained hlast.retains⟩
  | .ret none, builder, later, id, h => addsNodes_of_make h
  | .ret (some expr), builder, later, id, h => by
    rw [StmtDoc.lower, run_bind_eq_ok] at h
    obtain ⟨child, middle, hexpr, hmake⟩ := h
    obtain ⟨hfirst, hchild⟩ := ExprDoc.lower_spec expr hexpr
    obtain ⟨hlast, hnode⟩ := addsNodes_of_make hmake
    exact ⟨hfirst.trans hlast, child, hnode, hchild.retained hlast.retains⟩
  | .localVar name init, builder, later, id, h => by
    rw [StmtDoc.lower, run_bind_eq_ok] at h
    obtain ⟨child, middle, hinit, hmake⟩ := h
    obtain ⟨hfirst, hchild⟩ := ExprDoc.lower_spec init hinit
    obtain ⟨hlast, hnode⟩ := addsNodes_of_make hmake
    exact ⟨hfirst.trans hlast, child, hnode, hchild.retained hlast.retains⟩
  | .localFunction name isAsync returns body, builder, later, id, h => by
    rw [StmtDoc.lower, run_bind_eq_ok] at h
    obtain ⟨returnType, _, hlift, h⟩ := h
    obtain ⟨hreturns, rfl⟩ := run_lift_eq_ok.mp hlift
    obtain ⟨slots, middle, hbody, hmake⟩ := run_bind_eq_ok.mp h
    obtain ⟨hfirst, hslots⟩ := StmtDoc.lowerList_spec body hbody
    obtain ⟨hlast, block, hnode, hblock⟩ := addsNodes_of_makeBlock slots
      (.localFunction name isAsync returnType ∘ some) hmake
    exact ⟨hfirst.trans hlast, returnType, block, slots, hreturns, hnode, hblock,
      hslots.retained hlast.retains⟩

theorem StmtDoc.lowerList_spec : (stmts : List StmtDoc) → {builder later : Builder} →
    {slots : List Slot} → (StmtDoc.lowerList stmts).run builder = .ok (slots, later) →
      builder.AddsNodes later ∧ StmtDoc.AllStandAt later.program stmts slots
  | [], builder, later, slots, h => by
    obtain ⟨rfl, rfl⟩ := run_pure_eq_ok.mp h
    exact ⟨.refl _, rfl⟩
  | stmt :: stmts, builder, later, slots, h => by
    rw [StmtDoc.lowerList, run_bind_eq_ok] at h
    obtain ⟨id, middle, hstmt, h⟩ := h
    obtain ⟨rest, last, hstmts, hpure⟩ := run_bind_eq_ok.mp h
    obtain ⟨rfl, rfl⟩ := run_pure_eq_ok.mp hpure
    obtain ⟨hfirst, hid⟩ := StmtDoc.lower_spec stmt hstmt
    obtain ⟨hlater, hrest⟩ := StmtDoc.lowerList_spec stmts hstmts
    exact ⟨hfirst.trans hlater, id, rest, rfl, hid.retained hlater.retains, hrest⟩

theorem ExprDoc.lower_spec : (expr : ExprDoc) → {builder later : Builder} → {id : NodeId} →
    expr.lower.run builder = .ok (id, later) →
      builder.AddsNodes later ∧ expr.StandsAt later.program id
  | .call target name receiver args, builder, later, id, h => by
    rw [ExprDoc.lower, run_bind_eq_ok] at h
    obtain ⟨receiver', first, hreceiver, h⟩ := h
    obtain ⟨args', second, hargs, h⟩ := run_bind_eq_ok.mp h
    obtain ⟨hfirst, hstands⟩ := ExprDoc.lowerOption_spec receiver hreceiver
    obtain ⟨hsecond, hallStand⟩ := ExprDoc.lowerList_spec args hargs
    -- Whatever call is made, it goes on top of the receiver and the arguments.
    have hmade : ∀ name' target', second.program.Resolves target name target' name' →
        (make (·.addNode (.call receiver' name' target' args'))).run second = .ok (id, later) →
          builder.AddsNodes later ∧
            (ExprDoc.call target name receiver args).StandsAt later.program id := by
      intro name' target' hresolves hmake
      obtain ⟨hlast, hnode⟩ := addsNodes_of_make hmake
      exact ⟨(hfirst.trans hsecond).trans hlast, receiver', name', target', args', hnode,
        hlast.retains.resolves hresolves, hstands.retained (hsecond.trans hlast).retains,
        hallStand.retained hlast.retains⟩
    cases target with
    | none =>
      cases name with
      | none => cases h
      | some name => exact hmade name none ⟨rfl, rfl⟩ h
    | some path =>
      cases name with
      | none =>
        obtain ⟨callee, _, hresolve, hmake⟩ := run_bind_eq_ok.mp h
        obtain ⟨hcallee, rfl⟩ := run_resolve_eq_ok.mp hresolve
        exact hmade _ _ (resolves_of_resolve hcallee) hmake
      | some name =>
        obtain ⟨callee, _, hresolve, hmake⟩ := run_bind_eq_ok.mp h
        obtain ⟨hcallee, rfl⟩ := run_resolve_eq_ok.mp hresolve
        exact hmade _ _ (resolves_of_resolve hcallee) hmake
  | .await operand, builder, later, id, h => by
    rw [ExprDoc.lower, run_bind_eq_ok] at h
    obtain ⟨child, middle, hoperand, hmake⟩ := h
    obtain ⟨hfirst, hchild⟩ := ExprDoc.lower_spec operand hoperand
    obtain ⟨hlast, hnode⟩ := addsNodes_of_make hmake
    exact ⟨hfirst.trans hlast, child, hnode, hchild.retained hlast.retains⟩
  | .lambda isAsync params body, builder, later, id, h => by
    rw [ExprDoc.lower, run_bind_eq_ok] at h
    obtain ⟨slots, middle, hbody, hmake⟩ := h
    obtain ⟨hfirst, hslots⟩ := StmtDoc.lowerList_spec body hbody
    obtain ⟨hlast, block, hnode, hblock⟩ := addsNodes_of_makeBlock slots
      (.lambda isAsync params ∘ some) hmake
    exact ⟨hfirst.trans hlast, block, slots, hnode, hblock, hslots.retained hlast.retains⟩
  | .methodGroup path, builder, later, id, h => by
    rw [ExprDoc.lower, run_bind_eq_ok] at h
    obtain ⟨target, _, hresolve, hmake⟩ := h
    obtain ⟨htarget, rfl⟩ := run_resolve_eq_ok.mp hresolve
    obtain ⟨hlast, hnode⟩ := addsNodes_of_make hmake
    exact ⟨hlast, _, _, hnode, hlast.retains.resolves (resolves_of_resolve htarget)⟩
  | .name text, builder, later, id, h => addsNodes_of_make h
  | .literal text, builder, later, id, h => addsNodes_of_make h

theorem ExprDoc.lowerList_spec : (exprs : List ExprDoc) → {builder later : Builder} →
    {slots : List Slot} → (ExprDoc.lowerList exprs).run builder = .ok (slots, later) →
      builder.AddsNodes later ∧ ExprDoc.AllStandAt later.program exprs slots
  | [], builder, later, slots, h => by
    obtain ⟨rfl, rfl⟩ := run_pure_eq_ok.mp h
    exact ⟨.refl _, rfl⟩
  | expr :: exprs, builder, later, slots, h => by
    rw [ExprDoc.lowerList, run_bind_eq_ok] at h
    obtain ⟨id, middle, hexpr, h⟩ := h
    obtain ⟨rest, last, hexprs, hpure⟩ := run_bind_eq_ok.mp h
    obtain ⟨rfl, rfl⟩ := run_pure_eq_ok.mp hpure
    obtain ⟨hfirst, hid⟩ := ExprDoc.lower_spec expr hexpr
    obtain ⟨hlater, hrest⟩ := ExprDoc.lowerList_spec exprs hexprs
    exact ⟨hfirst.trans hlater, id, rest, rfl, hid.retained hlater.retains, hrest⟩

theorem ExprDoc.lowerOption_spec : (expr : Option ExprDoc) → {builder later : Builder} →
    {slot : Slot} → (ExprDoc.lowerOption expr).run builder = .ok (slot, later) →
      builder.AddsNodes later ∧ ExprDoc.OptionStandsAt later.program expr slot
  | none, builder, later, slot, h => by
    obtain ⟨rfl, rfl⟩ := run_pure_eq_ok.mp h
    exact ⟨.refl _, rfl⟩
  | some expr, builder, later, slot, h => by
    rw [ExprDoc.lowerOption, run_bind_eq_ok] at h
    obtain ⟨id, middle, hexpr, hpure⟩ := h
    obtain ⟨rfl, rfl⟩ := run_pure_eq_ok.mp hpure
    obtain ⟨hadds, hid⟩ := ExprDoc.lower_spec expr hexpr
    exact ⟨hadds, id, rfl, hid⟩

end

end AsyncLift
