import AsyncLift.Proofs.PlantedProjects
import AsyncLift.Proofs.PrintedNodes

/-!
# What is printed of a loaded program

The trees of a loaded program have far fewer levels than are written, so nothing is lost by the
limit, with one exception: a local function that a lambda lists. `print_cuts_inline_functions` says
that a program is printed the same wherever the writer would stop exactly if it has no such
function, and that in any case every expression outside such functions is printed.

`Program.Printable` collects what the tables of a loaded program have to do with this: bodies and
initializers are made of statements and expressions, methods are members of types, and types lie in
modules.
-/

namespace AsyncLift

/-! ## Statements and expressions of documents -/

mutual

theorem StmtDoc.StandsAt.isStmt {program : Program} :
    {stmt : StmtDoc} → {id : NodeId} → stmt.StandsAt program id →
      program.nodes.IsStmt stmt.levels id
  | .expr expr, id, hstands => by
    obtain ⟨child, hnode, hchild⟩ := hstands
    refine .simple hnode rfl fun part hpart => ?_
    rw [Node.eq_of_mem_children rfl hpart]
    exact ExprDoc.StandsAt.isExpr hchild
  | .ret none, id, hstands => .simple hstands rfl fun _ hpart => nomatch hpart
  | .ret (some expr), id, hstands => by
    obtain ⟨child, hnode, hchild⟩ := hstands
    refine .simple hnode rfl fun part hpart => ?_
    rw [Node.eq_of_mem_children rfl hpart]
    exact ExprDoc.StandsAt.isExpr hchild
  | .localVar name init, id, hstands => by
    obtain ⟨child, hnode, hchild⟩ := hstands
    refine .simple hnode rfl fun part hpart => ?_
    rw [Node.eq_of_mem_children rfl hpart]
    exact ExprDoc.StandsAt.isExpr hchild
  | .localFunction name isAsync returns body, id, hstands => by
    obtain ⟨returnType, block, slots, -, hnode, hblock, hbody⟩ := hstands
    exact .localFunction hnode hblock (StmtDoc.AllStandAt.isStmt hbody)

theorem StmtDoc.AllStandAt.isStmt {program : Program} :
    {stmts : List StmtDoc} → {slots : List Slot} → StmtDoc.AllStandAt program stmts slots →
      ∀ stmt, some stmt ∈ slots → program.nodes.IsStmt (StmtDoc.levelsOfList stmts) stmt
  | [], slots, hstands, stmt, hstmt => by
    rw [hstands] at hstmt
    cases hstmt
  | first :: stmts, slots, hstands, stmt, hstmt => by
    obtain ⟨id, rest, rfl, hfirst, hrest⟩ := hstands
    rcases List.mem_cons.mp hstmt with heq | hlater
    · cases heq
      exact (StmtDoc.StandsAt.isStmt hfirst).mono (Nat.le_max_left _ _)
    · exact (StmtDoc.AllStandAt.isStmt hrest stmt hlater).mono (Nat.le_max_right _ _)

theorem ExprDoc.StandsAt.isExpr {program : Program} :
    {expr : ExprDoc} → {id : NodeId} → expr.StandsAt program id →
      program.nodes.IsExpr expr.levels id
  | .call target name receiver args, id, hstands => by
    obtain ⟨receiver', name', target', args', hnode, -, hreceiver, hargs⟩ := hstands
    refine .plain hnode rfl fun part hpart => ?_
    rcases List.mem_cons.mp (Node.mem_children.mp hpart) with heq | harg
    · cases receiver with
      | none =>
        cases hreceiver
        cases heq
      | some expr =>
        obtain ⟨child, rfl, hchild⟩ := hreceiver
        cases heq
        exact (ExprDoc.StandsAt.isExpr hchild).mono (Nat.le_max_left _ _)
    · exact (ExprDoc.AllStandAt.isExpr hargs part harg).mono (Nat.le_max_right _ _)
  | .await operand, id, hstands => by
    obtain ⟨child, hnode, hchild⟩ := hstands
    refine .plain hnode rfl fun part hpart => ?_
    rw [Node.eq_of_mem_children rfl hpart]
    exact ExprDoc.StandsAt.isExpr hchild
  | .lambda isAsync params body, id, hstands => by
    obtain ⟨block, slots, hnode, hblock, hbody⟩ := hstands
    exact .of_stmts hnode hblock (StmtDoc.AllStandAt.isStmt hbody)
  | .methodGroup target, id, hstands => by
    obtain ⟨name', target', hnode, -⟩ := hstands
    exact .plain hnode rfl fun _ hpart => nomatch hpart
  | .name text, id, hstands => .plain hstands rfl fun _ hpart => nomatch hpart
  | .literal text, id, hstands => .plain hstands rfl fun _ hpart => nomatch hpart

theorem ExprDoc.AllStandAt.isExpr {program : Program} :
    {exprs : List ExprDoc} → {slots : List Slot} → ExprDoc.AllStandAt program exprs slots →
      ∀ expr, some expr ∈ slots → program.nodes.IsExpr (ExprDoc.levelsOfList exprs) expr
  | [], slots, hstands, expr, hexpr => by
    rw [hstands] at hexpr
    cases hexpr
  | first :: exprs, slots, hstands, expr, hexpr => by
    obtain ⟨id, rest, rfl, hfirst, hrest⟩ := hstands
    rcases List.mem_cons.mp hexpr with heq | hlater
    · cases heq
      exact (ExprDoc.StandsAt.isExpr hfirst).mono (Nat.le_max_left _ _)
    · exact (ExprDoc.AllStandAt.isExpr hrest expr hlater).mono (Nat.le_max_right _ _)

end

/-! ## Programs that can be printed -/

namespace Program

variable {program : Program} {cutoff cutoff' : Cutoff} {levels depth : Nat} {method : MethodId}
  {id : DeclId} {body root part : NodeId} {row : Method} {type : TypeDecl} {node : Node}
  {text : String}

/-- Bodies are blocks of statements and initializers hold expressions, none with more levels than
are given; every method is a member of a type, and every type lies in a module. -/
structure Printable (program : Program) (levels : Nat) : Prop where
  bodies : ∀ method id, program.HasDeclaration method id → ∀ body,
    program.declarations[id]?.bind (·.body) = some body →
      ∃ statements, program.nodes.get? body = some (.block statements) ∧
        ∀ stmt, some stmt ∈ statements → program.nodes.IsStmt levels stmt
  initializers : ∀ type ∈ program.types, ∀ root ∈ type.initializers,
    ∃ field expr, program.nodes.get? root = some (.initializer field (some expr)) ∧
      program.nodes.IsExpr levels expr
  members : ∀ (method : MethodId) row, program.methods[method]? = some row →
    ∃ type ∈ program.types, method ∈ type.members
  modules : ∀ type ∈ program.types, type.declaredIn < program.modules.size

/-! ## Where the writer would stop -/

namespace Printable

/-- Two writers write at least the levels of the program, and there is nothing that they cannot
write on a line. -/
structure Alike (program : Program) (cutoff cutoff' : Cutoff) (levels : Nat) : Prop where
  left : levels < cutoff.levels
  right : levels < cutoff'.levels
  none : ∀ id, ¬ program.nodes.InlineFunction id

variable (h : program.Printable levels) (halike : Alike program cutoff cutoff' levels)

include h halike

theorem declarationLines_eq (hlisted : program.HasDeclaration method id) (depth : Nat)
    (signature : String) : program.declarationLines cutoff depth signature id =
      program.declarationLines cutoff' depth signature id := by
  unfold declarationLines
  cases hbody : program.declarations[id]?.bind (·.body) with
  | none => rfl
  | some body =>
    obtain ⟨statements, hblock, hstatements⟩ := h.bodies method id hlisted body hbody
    have hleft := halike.left
    have hright := halike.right
    refine congrArg (List.cons _) (NodeStore.blockLines_eq hblock (by omega) (by omega) ?_)
    intro stmt hstmt
    exact (hstatements stmt hstmt).lines_eq halike.none hleft hright (depth + 1)

theorem methodLines_eq (hrow : program.methods[method]? = some row) (depth : Nat) :
    program.methodLines cutoff depth row = program.methodLines cutoff' depth row := by
  unfold methodLines
  split
  · rfl
  · exact List.flatMap_congr fun id hid => h.declarationLines_eq halike ⟨row, hrow, hid⟩ depth _

theorem initializerLines_eq (htype : type ∈ program.types) (hroot : root ∈ type.initializers) :
    program.initializerLines cutoff root = program.initializerLines cutoff' root := by
  obtain ⟨field, expr, hnode, hexpr⟩ := h.initializers type htype root hroot
  have hleft := halike.left
  have hright := halike.right
  have htext : program.nodes.exprText cutoff (cutoff.levels + 1) (some expr) =
      program.nodes.exprText cutoff' (cutoff'.levels + 1) (some expr) :=
    hexpr.text_eq halike.none (by omega) (by omega)
  simp only [initializerLines, hnode, htext]

theorem typeLines_eq (htype : type ∈ program.types) :
    program.typeLines cutoff type = program.typeLines cutoff' type := by
  have hinitializers : type.initializers.flatMap (program.initializerLines cutoff) =
      type.initializers.flatMap (program.initializerLines cutoff') :=
    List.flatMap_congr fun root hroot => h.initializerLines_eq halike htype hroot
  have hmethods : (type.members.filterMap fun id => program.methods[id]?).flatMap
        (program.methodLines cutoff 1) =
      (type.members.filterMap fun id => program.methods[id]?).flatMap
        (program.methodLines cutoff' 1) := by
    refine List.flatMap_congr fun row hrow => ?_
    obtain ⟨method, -, hrow⟩ := List.mem_filterMap.mp hrow
    exact h.methodLines_eq halike hrow 1
  rw [typeLines, typeLines, hinitializers, hmethods]

theorem printWith_eq : program.printWith cutoff = program.printWith cutoff' := by
  refine congrArg joinLines (List.flatMap_congr fun named _ => congrArg (List.cons _) ?_)
  refine List.flatMap_congr fun type htype => h.typeLines_eq halike ?_
  exact Array.mem_toList_iff.mp (List.mem_of_mem_filter htype)

theorem printMethodWith_eq (method : MethodId) :
    program.printMethodWith cutoff method = program.printMethodWith cutoff' method := by
  unfold printMethodWith
  cases hrow : program.methods[method]? with
  | none => rfl
  | some row => exact congrArg joinLines (h.methodLines_eq halike hrow 0)

end Printable

/-! ## What a text holds -/

theorem joinLines_shows {lines : List String} (htext : text ∈ lines) :
    Shows (joinLines lines) text := by
  have hline : Shows (text ++ "\n") text := (Shows.refl text).append_right _
  exact (Shows.join (List.mem_map_of_mem htext)).trans hline

theorem methodLines_of_declarationLines (hid : id ∈ row.declarations)
    (htext : text ∈ program.declarationLines cutoff depth row.signature id) :
    text ∈ program.methodLines cutoff depth row := by
  unfold methodLines
  split
  · rename_i hempty
    rw [hempty] at hid
    cases hid
  · exact List.mem_flatMap.mpr ⟨id, hid, htext⟩

theorem printMethodWith_shows (hrow : program.methods[method]? = some row)
    (htext : text ∈ program.methodLines cutoff 0 row) :
    Shows (program.printMethodWith cutoff method) text := by
  rw [printMethodWith, hrow]
  exact joinLines_shows htext

namespace Printable

/-- What is written of a type that lies in a module is printed. -/
theorem printWith_shows (h : program.Printable levels) (htype : type ∈ program.types)
    (htext : text ∈ program.typeLines cutoff type) : Shows (program.printWith cutoff) text := by
  have hmodule : type.declaredIn < program.modules.toList.length := by
    rw [Array.length_toList]
    exact h.modules type htype
  refine joinLines_shows (List.mem_flatMap.mpr
    ⟨(program.modules.toList[type.declaredIn], type.declaredIn), ?_, ?_⟩)
  · exact List.mk_mem_zipIdx_iff_getElem?.mpr (List.getElem?_eq_getElem hmodule)
  · refine List.mem_cons_of_mem _ (List.mem_flatMap.mpr ⟨type, ?_, htext⟩)
    exact List.mem_filter.mpr ⟨Array.mem_toList_iff.mpr htype, beq_self_eq_true _⟩

theorem typeLines_of_methodLines (h : program.Printable levels)
    (hrow : program.methods[method]? = some row)
    (htext : text ∈ program.methodLines cutoff 1 row) :
    ∃ type ∈ program.types, text ∈ program.typeLines cutoff type := by
  obtain ⟨type, htype, hmember⟩ := h.members method row hrow
  refine ⟨type, htype, ?_⟩
  have hlisted : row ∈ type.members.filterMap fun id => program.methods[id]? :=
    List.mem_filterMap.mpr ⟨method, hmember, hrow⟩
  simp only [typeLines, List.mem_append, List.mem_cons, List.mem_flatMap]
  exact .inl (.inr ⟨row, hlisted, htext⟩)

theorem typeLines_of_initializerLines (hroot : root ∈ type.initializers)
    (htext : text ∈ program.initializerLines cutoff root) :
    text ∈ program.typeLines cutoff type := by
  simp only [typeLines, List.mem_append, List.mem_cons, List.mem_flatMap]
  exact .inl (.inl (.inr (.inr ⟨root, hroot, htext⟩)))

/-- Among the lines of a declaration is one for every expression of its body. -/
theorem declarationLines_accounts (h : program.Printable levels) (hforest : program.nodes.Forest)
    (hlevels : levels < cutoff.levels) (hlisted : program.HasDeclaration method id)
    (hbody : program.declarations[id]?.bind (·.body) = some body)
    (hbelow : program.nodes.Below body part) (hpart : program.nodes.get? part = some node)
    (hexpr : node.isExpr = true) (depth : Nat) (signature : String) :
    ∃ text ∈ program.declarationLines cutoff depth signature id,
      program.nodes.Accounts cutoff (cutoff.levels - levels) text part := by
  obtain ⟨statements, hblock, hstatements⟩ := h.bodies method id hlisted body hbody
  rcases hbelow.eq_or_child hforest hblock with rfl | ⟨stmt, hstmt, hbelow⟩
  · cases hpart.symm.trans hblock
    cases hexpr
  have hslot : some stmt ∈ statements := Node.mem_children.mp hstmt
  obtain ⟨text, htext, haccounts⟩ := (hstatements stmt hslot).accounts hforest hlevels hbelow hpart
    hexpr (depth + 1)
  refine ⟨text, ?_, haccounts⟩
  rw [declarationLines, hbody]
  refine List.mem_cons_of_mem _ (NodeStore.mem_blockLines ?_ htext)
  rw [NodeStore.statementsOf_block hblock]
  exact hslot

theorem initializerLines_accounts (h : program.Printable levels) (hforest : program.nodes.Forest)
    (hlevels : levels < cutoff.levels) (htype : type ∈ program.types)
    (hroot : root ∈ type.initializers) (hbelow : program.nodes.Below root part)
    (hpart : program.nodes.get? part = some node) (hexpr : node.isExpr = true) :
    ∃ text ∈ program.initializerLines cutoff root,
      program.nodes.Accounts cutoff (cutoff.levels - levels) text part := by
  obtain ⟨field, expr, hnode, hisExpr⟩ := h.initializers type htype root hroot
  rcases hbelow.eq_or_child hforest hnode with rfl | ⟨child, hchild, hbelow⟩
  · cases hpart.symm.trans hnode
    cases hexpr
  rw [Node.eq_of_mem_children rfl hchild] at hbelow
  simp only [initializerLines, hnode]
  refine ⟨_, List.mem_singleton_self _, ?_⟩
  refine (hisExpr.accounts hforest (Nat.lt_succ_of_lt hlevels) hbelow hpart hexpr).mono ?_ ?_
  · exact (NodeStore.line_shows 1 _).trans (((Shows.refl _).append_left _).append_right _)
  · omega

/-- The text of a method accounts for every expression of its bodies. -/
theorem printMethodWith_accounts (h : program.Printable levels) (hforest : program.nodes.Forest)
    (hlevels : levels < cutoff.levels) (hlisted : program.HasDeclaration method id)
    (hbody : program.declarations[id]?.bind (·.body) = some body)
    (hbelow : program.nodes.Below body part) (hpart : program.nodes.get? part = some node)
    (hexpr : node.isExpr = true) :
    program.nodes.Accounts cutoff (cutoff.levels - levels) (program.printMethodWith cutoff method)
      part := by
  have ⟨row, hrow, hid⟩ := hlisted
  obtain ⟨text, htext, haccounts⟩ := h.declarationLines_accounts hforest hlevels hlisted hbody
    hbelow hpart hexpr 0 row.signature
  refine haccounts.mono (printMethodWith_shows hrow ?_) (Nat.le_refl _)
  exact methodLines_of_declarationLines hid htext

/-- The text of a program accounts for every expression of a registered tree. -/
theorem printWith_accounts (h : program.Printable levels) (hforest : program.nodes.Forest)
    (hlevels : levels < cutoff.levels) (hroot : program.Registered root)
    (hbelow : program.nodes.Below root part) (hpart : program.nodes.get? part = some node)
    (hexpr : node.isExpr = true) :
    program.nodes.Accounts cutoff (cutoff.levels - levels) (program.printWith cutoff) part := by
  rcases hroot with ⟨id, declaration, -, hdeclaration, hbody, -, hlisted⟩ |
    ⟨id, type, htype, hinit, -⟩
  · have ⟨row, hrow, hid⟩ := hlisted
    have hbody' : program.declarations[id]?.bind (·.body) = some root := by
      rw [hdeclaration]
      exact hbody
    obtain ⟨text, htext, haccounts⟩ := h.declarationLines_accounts hforest hlevels hlisted hbody'
      hbelow hpart hexpr 1 row.signature
    obtain ⟨type, htype, htext⟩ := h.typeLines_of_methodLines hrow
      (methodLines_of_declarationLines hid htext)
    exact haccounts.mono (h.printWith_shows htype htext) (Nat.le_refl _)
  · have htype := Array.mem_of_getElem? htype
    obtain ⟨text, htext, haccounts⟩ := h.initializerLines_accounts hforest hlevels htype hinit
      hbelow hpart hexpr
    have htext := typeLines_of_initializerLines hinit htext
    exact haccounts.mono (h.printWith_shows htype htext) (Nat.le_refl _)

end Printable

end Program

/-! ## Loaded programs -/

theorem exists_of_forall₂ {α β : Type} {R : α → β → Prop} {xs : List α} {ys : List β} {y : β}
    (h : List.Forall₂ R xs ys) (hy : y ∈ ys) : ∃ x ∈ xs, R x y := by
  induction h with
  | nil => cases hy
  | cons hfirst _ ih =>
    rcases List.mem_cons.mp hy with rfl | hlater
    · exact ⟨_, List.mem_cons_self, hfirst⟩
    · obtain ⟨x, hx, hxy⟩ := ih hlater
      exact ⟨x, List.mem_cons_of_mem _ hx, hxy⟩

theorem Program.declaredIn_lt_of_checkType {program : Program} {type : TypeDecl}
    (h : program.checkType type = .ok ()) : type.declaredIn < program.modules.size := by
  by_contra hge
  rw [checkType, if_pos (Nat.le_of_not_lt hge)] at h
  cases h

theorem MethodDoc.levelsOfList_le_of_mem_bodies {doc : MethodDoc} {levels : Nat}
    (hlevels : doc.LevelsAtMost levels) {stmts : List StmtDoc} (h : some stmts ∈ doc.bodies) :
    StmtDoc.levelsOfList stmts ≤ levels := by
  rcases List.mem_append.mp h with hfirst | hpart
  · unfold firstBodies at hfirst
    split at hfirst
    · cases hfirst
    · exact Nat.le_of_lt (hlevels.body stmts (List.mem_singleton.mp hfirst).symm)
  · obtain ⟨part, hmem, heq⟩ := List.mem_map.mp hpart
    cases heq
    exact Nat.le_of_lt (hlevels.parts stmts hmem)

theorem ProjectDoc.printable_load {doc : ProjectDoc} {program : Program} {levels : Nat}
    (hlevels : doc.LevelsAtMost levels) (h : doc.load = .ok program) :
    program.Printable levels := by
  refine ⟨?_, ?_, ?_, ?_⟩
  · rintro method id ⟨row, hrow, hid⟩ body hbody
    obtain ⟨owner, written, module_, hwritten, hall, -⟩ := bodies_of_load h hrow
    obtain ⟨stmts, hstmts, declaration, hdeclaration, -, -, hstands⟩ := exists_of_forall₂ hall hid
    rw [hdeclaration] at hbody
    have hbody : declaration.body = some body := hbody
    rw [hbody] at hstands
    cases stmts with
    | none => cases hstands
    | some stmts =>
      obtain ⟨block, slots, heq, hblock, hslots⟩ := hstands
      cases heq
      have hle := MethodDoc.levelsOfList_le_of_mem_bodies (method_levelsAtMost hlevels hwritten)
        hstmts
      exact ⟨slots, hblock, fun stmt hstmt => (hslots.isStmt stmt hstmt).mono hle⟩
  · intro decl hdecl root hroot
    obtain ⟨id, hid⟩ := Array.mem_iff_getElem?.mp hdecl
    obtain ⟨module_, type, hplace, hall⟩ := initializers_of_load h hid
    obtain ⟨field, hfield, init, hnode, hinit⟩ := exists_of_forall₂ hall hroot
    have htype := List.fst_mem_of_mem_zipIdx (doc.mem_types.mpr ⟨module_, hplace⟩)
    obtain ⟨written, hwritten, htype⟩ := List.mem_flatMap.mp htype
    have hle := (hlevels written hwritten type htype).fields field hfield
    exact ⟨field.name, init, hnode, hinit.isExpr.mono (Nat.le_of_lt hle)⟩
  · intro method row hrow
    obtain ⟨owner, written, module_, -, -, decl, hdecl, hmember⟩ := bodies_of_load h hrow
    exact ⟨decl, Array.mem_of_getElem? hdecl, hmember⟩
  · intro type htype
    obtain ⟨builder, -, hvalid, rfl⟩ := load_eq_ok.mp h
    have htypes := (Program.validate_eq_ok.mp hvalid).1
    exact Program.declaredIn_lt_of_checkType (htypes type (Array.mem_toList_iff.mpr htype))

namespace Program

/-- The text is the same wherever the writer would stop below the levels that are written. -/
def NeverCut (text : Cutoff → String) : Prop :=
  ∀ cutoff, maxBodyDepth ≤ cutoff.levels → text cutoff = text {}

/-- The text holds an expression, written with all the levels that a document can have. -/
def Renders (program : Program) (text : String) (id : NodeId) : Prop :=
  ∃ levels, maxBodyDepth ≤ levels + Document.nestingLimit ∧
    Shows text (program.nodes.exprText {} (levels + 1) (some id))

variable {program : Program} {levels : Nat}

/-- A function that cannot be written on a line shows where the writer stops: what stands for
anything deeper can be made longer than the text. -/
theorem Printable.not_inlineFunction (h : program.Printable levels)
    (hplanted : program.Planted levels) (hlevels : levels < maxBodyDepth)
    (hnever : NeverCut program.printWith) (id : NodeId) : ¬ program.nodes.InlineFunction id := by
  rintro ⟨lambda, isAsync, params, block, statements, node, hlambda, hblock, hlisted, hid,
    hfunction⟩
  let cutoff : Cutoff := { expr := program.printWith {} ++ "." }
  obtain ⟨root, hclimb, hroot⟩ := hplanted.climbs lambda (NodeStore.lt_size_of_get? hlambda)
  obtain ⟨hops, -, habove, -⟩ := NodeStore.climb_eq_some_iff.mp hclimb
  have hshows : Shows (program.printWith cutoff) cutoff.expr := by
    have haccounts : program.nodes.Accounts cutoff (cutoff.levels - levels)
        (program.printWith cutoff) lambda :=
      h.printWith_accounts hplanted.forest hlevels hroot ⟨hops, habove⟩ hlambda rfl
    rcases haccounts with ⟨left, hleft, hshows⟩ | ⟨-, hshows⟩
    · have hcut : 0 < cutoff.levels - levels := Nat.sub_pos_of_lt hlevels
      obtain ⟨fewer, rfl⟩ : ∃ fewer, left = fewer + 1 := ⟨left - 1, by omega⟩
      exact (hshows.trans (NodeStore.exprText_lambda_shows hlambda hblock hlisted _ _)).trans
        (NodeStore.inlineText_localFunction hid hfunction cutoff fewer)
    · exact hshows
  have hlength := hshows.length_le
  rw [hnever cutoff (Nat.le_refl _), String.length_append] at hlength
  have hpoint : ".".length = 1 := rfl
  omega

/-- A loaded program is printed the same wherever the writer would stop exactly if no lambda in it
lists a local function. All other expressions are printed in any case, those of a body also with the
method that has it. -/
theorem print_cuts_inline_functions (text : String) (doc : ProjectDoc) (program : Program)
    (hparse : ProjectDoc.parse? text = some doc) (hload : doc.load = .ok program) :
    ((NeverCut program.printWith ∧ ∀ method, NeverCut (program.printMethodWith · method)) ↔
        ∀ id, ¬ program.nodes.InlineFunction id) ∧
      ∀ id node, program.nodes.get? id = some node → node.isExpr = true →
        ¬ program.nodes.Inlined id → program.Renders program.print id ∧
          ∀ method declaration body, program.HasDeclaration method declaration →
            program.declarations[declaration]?.bind (·.body) = some body →
              program.nodes.rootOf id = some body →
                program.Renders (program.printMethod method) id := by
  have hplanted := ProjectDoc.planted_of_parse? hparse hload
  have hprintable := ProjectDoc.printable_load (ProjectDoc.levelsAtMost_parse? hparse) hload
  have hlevels : Document.nestingLimit < maxBodyDepth := by decide
  refine ⟨⟨fun hnever => ?_, fun hnone => ⟨fun cutoff hle => ?_, fun method cutoff hle => ?_⟩⟩, ?_⟩
  · exact hprintable.not_inlineFunction hplanted hlevels hnever.1
  · exact hprintable.printWith_eq ⟨Nat.lt_of_lt_of_le hlevels hle, hlevels, hnone⟩
  · exact hprintable.printMethodWith_eq ⟨Nat.lt_of_lt_of_le hlevels hle, hlevels, hnone⟩ method
  intro id node hnode hexpr houtside
  have hrenders : ∀ text, program.nodes.Accounts {} (maxBodyDepth - Document.nestingLimit) text id →
      program.Renders text id := by
    rintro text (⟨left, hleft, hshows⟩ | ⟨hinlined, -⟩)
    · exact ⟨left, by omega, hshows⟩
    · exact absurd hinlined houtside
  refine ⟨hrenders _ ?_, fun method declaration body hlisted hbody hroot => hrenders _ ?_⟩
  · obtain ⟨root, hclimb, hroot⟩ := hplanted.climbs id (NodeStore.lt_size_of_get? hnode)
    obtain ⟨hops, -, habove, -⟩ := NodeStore.climb_eq_some_iff.mp hclimb
    exact hprintable.printWith_accounts hplanted.forest hlevels hroot ⟨hops, habove⟩ hnode hexpr
  · obtain ⟨hops, -, habove, -⟩ := NodeStore.climb_eq_some_iff.mp hroot
    exact hprintable.printMethodWith_accounts hplanted.forest hlevels hlisted hbody ⟨hops, habove⟩
      hnode hexpr

/-- A lambda that lists a local function with a call in it, and a call after the lambda. -/
def helperInLambdaText : String :=
  "[[[\"app\",[[\"C\",\"class\",null,[],[[\"Load\"],[\"Run\",\"void\",[],[],null,false," ++
    "[\x7b\"local\":[\"f\",\x7b\"lambda\":[false,[]," ++
    "[\x7b\"local_function\":[\"Helper\",false,\"void\"," ++
    "[\x7b\"expr\":\x7b\"call\":[\"C.Load\"]\x7d\x7d]]\x7d]]\x7d]\x7d," ++
    "\x7b\"expr\":\x7b\"call\":[\"C.Load\"]\x7d\x7d]]]]]]]]"

def helperInLambda : Builder := ({} : Builder).run [
  .startModule "app", .addType .ofClass "C",
  .addMethod 0 { name := "Load" }, .addMethod 0 { name := "Run" },
  .call none 0 [], .exprStatement (some 0), .localFunction "Helper" false .void [some 1],
  .lambda false [] [some 3], .localVar "f" (some 5),
  .call none 0 [], .exprStatement (some 7), .setBody 1 [some 6, some 8]]

/-- The program is not printed the same wherever the writer would stop, since its lambda lists a
function; the call after the lambda is printed all the same. -/
theorem print_cuts_inline_functions_helperInLambda :
    ∃ doc, ProjectDoc.parse? helperInLambdaText = some doc ∧
      doc.load = .ok helperInLambda.program ∧ helperInLambda.program.nodes.InlineFunction 3 ∧
      helperInLambda.program.nodes.Inlined 0 ∧
      ¬ (NeverCut helperInLambda.program.printWith ∧
        ∀ method, NeverCut (helperInLambda.program.printMethodWith · method)) ∧
      helperInLambda.program.Renders helperInLambda.program.print 7 ∧
      helperInLambda.program.Renders (helperInLambda.program.printMethod 1) 7 := by
  have hvalid : helperInLambda.program.validate = .ok () :=
    Program.validate_eq_ok.mpr ⟨by decide +kernel, by decide +kernel,
      Program.checkTargets_eq_ok.mp (by decide +kernel),
      Program.checkCycles_of_ordered (by decide +kernel)⟩
  obtain ⟨doc, hparse, hload⟩ := ProjectDoc.exists_load_of_build
    (by decide +kernel : (ProjectDoc.parse? helperInLambdaText).map (·.build.run {}) =
      some (.ok ((), helperInLambda))) hvalid
  have hfunction : helperInLambda.program.nodes.InlineFunction 3 :=
    ⟨5, false, [], 4, [some 3], .localFunction "Helper" false .void (some 2), by decide +kernel,
      by decide +kernel, by decide, by decide +kernel, rfl⟩
  have hinlined : helperInLambda.program.nodes.Inlined 0 := ⟨3, hfunction, 3, by decide +kernel⟩
  -- There is one local function, and the second call does not lie below it.
  have honly : ∀ id ∈ helperInLambda.program.nodes.ids,
      (helperInLambda.program.nodes.get? id).any (·.isLocalFunction) = true → id = 3 := by
    decide +kernel
  have houtside : ¬ helperInLambda.program.nodes.Inlined 7 := by
    rintro ⟨function, ⟨-, -, -, -, -, node, -, -, -, hnode, hkind⟩, hops, habove⟩
    obtain rfl : function = 3 := by
      refine honly function (NodeStore.mem_ids.mpr (NodeStore.lt_size_of_get? hnode)) ?_
      rw [hnode]
      exact hkind
    have hbody : helperInLambda.program.nodes.above? 2 7 = some 9 := by decide +kernel
    match hops, habove with
    | 0, habove => cases habove
    | 1, habove => exact absurd habove (by decide +kernel)
    | 2, habove => cases hbody.symm.trans habove
    | more + 3, habove =>
      rw [show more + 3 = 2 + (more + 1) by omega, NodeStore.above?_add hbody,
        NodeStore.above?_of_root (by decide +kernel)] at habove
      cases habove
  have hall := print_cuts_inline_functions _ doc _ hparse hload
  have hrendered := hall.2 7 (.call none "Load" (some 0) []) (by decide +kernel) rfl houtside
  have hlisted : helperInLambda.program.HasDeclaration 1 1 :=
    ⟨{ owner := 0, name := "Run", returnType := .void, declarations := [1] }, by decide +kernel,
      by decide⟩
  exact ⟨doc, hparse, hload, hfunction, hinlined, fun hnever => hall.1.mp hnever 3 hfunction,
    hrendered.1, hrendered.2 1 1 9 hlisted (by decide +kernel) (by decide +kernel)⟩

end Program

end AsyncLift
