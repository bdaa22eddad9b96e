import AsyncLift.Project.Document

/-!
# How deep a document can be

A document opens brackets for every statement and every expression, so the limit on open brackets
limits how many levels of nodes a body can become (`StmtDoc.levels`, `ExprDoc.levels`). A decoder
that is given some number of brackets never reads more levels than that: `readsLevels` says so of
statements and expressions, and `ProjectDoc.levelsAtMost_parse?` of whole projects.
-/

namespace AsyncLift

open Document

/-! ## Levels of nodes -/

mutual

/-- How many levels of nodes a statement becomes. A function inside it has a block of its own. -/
def StmtDoc.levels : StmtDoc → Nat
  | .expr expr => expr.levels + 1
  | .ret none => 1
  | .ret (some expr) => expr.levels + 1
  | .localVar _ init => init.levels + 1
  | .localFunction _ _ _ body => StmtDoc.levelsOfList body + 2

/-- The levels of the deepest statement of a list. -/
def StmtDoc.levelsOfList : List StmtDoc → Nat
  | [] => 0
  | stmt :: stmts => max stmt.levels (StmtDoc.levelsOfList stmts)

/-- How many levels of nodes an expression becomes. -/
def ExprDoc.levels : ExprDoc → Nat
  | .call _ _ receiver args =>
    max (ExprDoc.levelsOfOption receiver) (ExprDoc.levelsOfList args) + 1
  | .await operand => operand.levels + 1
  | .lambda _ _ body => StmtDoc.levelsOfList body + 2
  | .methodGroup _ => 1
  | .name _ => 1
  | .literal _ => 1

/-- The levels of the deepest expression of a list. -/
def ExprDoc.levelsOfList : List ExprDoc → Nat
  | [] => 0
  | expr :: exprs => max expr.levels (ExprDoc.levelsOfList exprs)

def ExprDoc.levelsOfOption : Option ExprDoc → Nat
  | none => 0
  | some expr => expr.levels

end

theorem StmtDoc.levelsOfList_le {stmts : List StmtDoc} {depth : Nat}
    (h : ∀ stmt ∈ stmts, stmt.levels ≤ depth) : StmtDoc.levelsOfList stmts ≤ depth := by
  induction stmts with
  | nil => exact Nat.zero_le depth
  | cons stmt stmts ih =>
    obtain ⟨hfirst, hrest⟩ := List.forall_mem_cons.mp h
    exact Nat.max_le.mpr ⟨hfirst, ih hrest⟩

theorem ExprDoc.levelsOfList_le {exprs : List ExprDoc} {depth : Nat}
    (h : ∀ expr ∈ exprs, expr.levels ≤ depth) : ExprDoc.levelsOfList exprs ≤ depth := by
  induction exprs with
  | nil => exact Nat.zero_le depth
  | cons expr exprs ih =>
    obtain ⟨hfirst, hrest⟩ := List.forall_mem_cons.mp h
    exact Nat.max_le.mpr ⟨hfirst, ih hrest⟩

/-! ## What decoders give -/

namespace Document

variable {α β : Type} {fields : List (String × Tree)} {name : String}

/-- Every item that was read was read from some item. -/
theorem exists_of_mem_mapM {decode : α → Option β} {items : List α} {values : List β}
    (h : items.mapM decode = some values) {value : β} (hvalue : value ∈ values) :
    ∃ item ∈ items, decode item = some value := by
  induction items generalizing values with
  | nil =>
    cases h
    cases hvalue
  | cons item items ih =>
    simp only [List.mapM_cons, Option.pure_def, Option.bind_eq_bind, Option.bind_eq_some_iff,
      Option.some.injEq] at h
    obtain ⟨first, hfirst, rest, hrest, rfl⟩ := h
    rcases List.mem_cons.mp hvalue with rfl | hlater
    · exact ⟨item, List.mem_cons_self, hfirst⟩
    · obtain ⟨other, hother, hdecode⟩ := ih hrest hlater
      exact ⟨other, List.mem_cons_of_mem _ hother, hdecode⟩

theorem exists_of_required? {decode : Tree → Option α} {value : α}
    (h : required? fields name decode = some value) : ∃ tree, decode tree = some value := by
  obtain ⟨tree, -, hdecode⟩ := Option.bind_eq_some_iff.mp h
  exact ⟨tree, hdecode⟩

theorem default_or_exists_of_optional? {decode : Tree → Option α} {default value : α}
    (h : optional? fields name default decode = some value) :
    value = default ∨ ∃ tree, decode tree = some value := by
  unfold optional? at h
  split at h
  · exact .inr ⟨_, h⟩
  · exact .inl (Option.some.inj h).symm

theorem exists_of_orNull? {decode : Tree → Option α} {tree : Tree} {value : Option α}
    (h : tree.orNull? decode = some value) : ∀ inner ∈ value, decode tree = some inner := by
  intro inner hinner
  cases hinner
  unfold Tree.orNull? at h
  split at h
  · cases h
  · simpa using h

theorem exists_of_list? {decode : Nat → Tree → Option α} {depth : Nat} {tree : Tree}
    {values : List α} (h : Tree.list? decode depth tree = some values) :
    ∀ value ∈ values, ∃ fewer < depth, ∃ item, decode fewer item = some value := by
  intro value hvalue
  unfold Tree.list? at h
  split at h
  · obtain ⟨item, -, hitem⟩ := exists_of_mem_mapM h hvalue
    exact ⟨_, Nat.lt_succ_self _, item, hitem⟩
  · cases h

end Document

/-! ## Bodies -/

/-- What is read with so many brackets has no more levels than that. -/
def ReadsLevels (depth : Nat) : Prop :=
  (∀ tree stmt, StmtDoc.ofTree? depth tree = some stmt → stmt.levels ≤ depth) ∧
    ∀ tree expr, ExprDoc.ofTree? depth tree = some expr → expr.levels ≤ depth

section

variable {depth : Nat} {tree : Tree}

theorem ReadsLevels.body (h : ReadsLevels depth) {fields : List (String × Tree)} {name : String}
    {stmts : List StmtDoc}
    (hbody : required? fields name (fun
      | .array items => items.mapM (StmtDoc.ofTree? depth)
      | _ => none) = some stmts) : StmtDoc.levelsOfList stmts ≤ depth := by
  obtain ⟨tree, htree⟩ := exists_of_required? hbody
  split at htree
  · apply StmtDoc.levelsOfList_le
    intro stmt hstmt
    obtain ⟨item, -, hitem⟩ := exists_of_mem_mapM htree hstmt
    exact h.1 item stmt hitem
  · cases htree

theorem StmtDoc.levels_of_fewer (h : ∀ fewer < depth, ReadsLevels fewer) {stmt : StmtDoc}
    (hread : StmtDoc.ofTree? depth tree = some stmt) : stmt.levels ≤ depth := by
  unfold StmtDoc.ofTree? at hread
  split at hread
  · split at hread
    · obtain ⟨expr, hexpr, rfl⟩ := Option.map_eq_some_iff.mp hread
      exact Nat.succ_le_succ ((h _ (by omega)).2 _ expr hexpr)
    · obtain ⟨expr, hexpr, rfl⟩ := Option.map_eq_some_iff.mp hread
      cases expr with
      | none => exact Nat.succ_le_succ (Nat.zero_le _)
      | some expr =>
        exact Nat.succ_le_succ ((h _ (by omega)).2 _ expr (exists_of_orNull? hexpr expr rfl))
    · simp only [Option.pure_def, Option.bind_eq_bind, Option.bind_eq_some_iff,
        Option.some.injEq] at hread
      obtain ⟨fields, -, name, -, init, hinit, rfl⟩ := hread
      obtain ⟨tree, htree⟩ := exists_of_required? hinit
      have hlevels := (h _ (by omega)).2 tree init htree
      rw [StmtDoc.levels]
      omega
    · simp only [Option.pure_def, Option.bind_eq_bind, Option.bind_eq_some_iff,
        Option.some.injEq] at hread
      obtain ⟨fields, -, name, -, isAsync, -, returns, -, body, hbody, rfl⟩ := hread
      have hlevels := (h _ (by omega)).body hbody
      rw [StmtDoc.levels]
      omega
    · cases hread
  · cases hread

theorem ExprDoc.levels_of_fewer (h : ∀ fewer < depth, ReadsLevels fewer) {expr : ExprDoc}
    (hread : ExprDoc.ofTree? depth tree = some expr) : expr.levels ≤ depth := by
  unfold ExprDoc.ofTree? at hread
  split at hread
  · split at hread
    · rename_i depth
      simp only [Option.pure_def, Option.bind_eq_bind, Option.bind_eq_some_iff,
        Option.some.injEq] at hread
      obtain ⟨fields, -, target, -, name, -, receiver, hreceiver, args, hargs, rfl⟩ := hread
      have hfirst : ExprDoc.levelsOfOption receiver ≤ depth := by
        rcases default_or_exists_of_optional? hreceiver with rfl | ⟨tree, htree⟩
        · exact Nat.zero_le depth
        · cases receiver with
          | none => exact Nat.zero_le depth
          | some receiver =>
            exact (h _ (by omega)).2 _ receiver (exists_of_orNull? htree receiver rfl)
      have hrest : ExprDoc.levelsOfList args ≤ depth := by
        rcases default_or_exists_of_optional? hargs with rfl | ⟨tree, htree⟩
        · exact Nat.zero_le depth
        · split at htree
          · split at htree
            · rename_i fewer
              apply ExprDoc.levelsOfList_le
              intro arg harg
              obtain ⟨item, -, hitem⟩ := exists_of_mem_mapM htree harg
              exact Nat.le_succ_of_le ((h fewer (by omega)).2 item arg hitem)
            · cases htree
          · cases htree
      rw [ExprDoc.levels]
      omega
    · obtain ⟨operand, hoperand, rfl⟩ := Option.map_eq_some_iff.mp hread
      exact Nat.succ_le_succ ((h _ (by omega)).2 _ operand hoperand)
    · simp only [Option.pure_def, Option.bind_eq_bind, Option.bind_eq_some_iff,
        Option.some.injEq] at hread
      obtain ⟨fields, -, isAsync, -, params, -, body, hbody, rfl⟩ := hread
      have hlevels := (h _ (by omega)).body hbody
      rw [ExprDoc.levels]
      omega
    · simp only [Option.pure_def, Option.bind_eq_bind, Option.bind_eq_some_iff,
        Option.some.injEq] at hread
      obtain ⟨fields, -, target, -, rfl⟩ := hread
      exact Nat.succ_le_succ (Nat.zero_le _)
    · obtain ⟨text, -, rfl⟩ := Option.map_eq_some_iff.mp hread
      exact Nat.succ_le_succ (Nat.zero_le _)
    · obtain ⟨text, -, rfl⟩ := Option.map_eq_some_iff.mp hread
      exact Nat.succ_le_succ (Nat.zero_le _)
    · cases hread
  · cases hread

theorem readsLevels (depth : Nat) : ReadsLevels depth := by
  induction depth using Nat.strongRecOn with
  | ind depth ih =>
    exact ⟨fun _ _ hread => StmtDoc.levels_of_fewer ih hread,
      fun _ _ hread => ExprDoc.levels_of_fewer ih hread⟩

theorem StmtDoc.levels_listOfTree? {stmts : List StmtDoc}
    (h : StmtDoc.listOfTree? depth tree = some stmts) : StmtDoc.levelsOfList stmts < depth := by
  unfold StmtDoc.listOfTree? Tree.list? at h
  split at h
  · apply Nat.lt_succ_of_le
    apply StmtDoc.levelsOfList_le
    intro stmt hstmt
    obtain ⟨item, -, hitem⟩ := exists_of_mem_mapM h hstmt
    exact (readsLevels _).1 item stmt hitem
  · cases h

end

/-! ## Projects -/

/-- With the block that it becomes, no body of the method has more levels. -/
structure MethodDoc.LevelsAtMost (doc : MethodDoc) (levels : Nat) : Prop where
  body : ∀ body ∈ doc.body, StmtDoc.levelsOfList body < levels
  parts : ∀ part ∈ doc.parts, StmtDoc.levelsOfList part < levels

/-- With the initializer above it, the expression of the field has no more levels. -/
def FieldDoc.LevelsAtMost (doc : FieldDoc) (levels : Nat) : Prop := doc.init.levels < levels

structure TypeDoc.LevelsAtMost (doc : TypeDoc) (levels : Nat) : Prop where
  methods : ∀ method ∈ doc.methods, method.LevelsAtMost levels
  fields : ∀ field ∈ doc.fields, field.LevelsAtMost levels

/-- No tree of the project has more levels. -/
def ProjectDoc.LevelsAtMost (doc : ProjectDoc) (levels : Nat) : Prop :=
  ∀ module_ ∈ doc.modules, ∀ type ∈ module_.types, type.LevelsAtMost levels

section

variable {depth : Nat} {tree : Tree}

theorem MethodDoc.levelsAtMost_ofTree? {doc : MethodDoc}
    (h : MethodDoc.ofTree? depth tree = some doc) {levels : Nat} (hle : depth ≤ levels) :
    doc.LevelsAtMost levels := by
  unfold MethodDoc.ofTree? at h
  split at h
  · simp only [Option.pure_def, Option.bind_eq_bind, Option.bind_eq_some_iff,
      Option.some.injEq] at h
    obtain ⟨fields, -, name, -, returns, -, params, -, modifiers, -, key, -, isExternal, -, body,
      hbody, parts, hparts, rfl⟩ := h
    refine ⟨fun stmts hstmts => ?_, fun part hpart => ?_⟩
    · rcases default_or_exists_of_optional? hbody with rfl | ⟨tree, htree⟩
      · cases hstmts
      · have hlt := StmtDoc.levels_listOfTree? (exists_of_orNull? htree stmts hstmts)
        omega
    · rcases default_or_exists_of_optional? hparts with rfl | ⟨tree, htree⟩
      · cases hpart
      · obtain ⟨fewer, hfewer, item, hitem⟩ := exists_of_list? htree part hpart
        have hlt := StmtDoc.levels_listOfTree? hitem
        omega
  · cases h

theorem FieldDoc.levelsAtMost_ofTree? {doc : FieldDoc}
    (h : FieldDoc.ofTree? depth tree = some doc) {levels : Nat} (hle : depth ≤ levels) :
    doc.LevelsAtMost levels := by
  unfold FieldDoc.ofTree? at h
  split at h
  · simp only [Option.pure_def, Option.bind_eq_bind, Option.bind_eq_some_iff,
      Option.some.injEq] at h
    obtain ⟨fields, -, name, -, init, hinit, rfl⟩ := h
    obtain ⟨tree, htree⟩ := exists_of_required? hinit
    have hlevels := (readsLevels _).2 tree init htree
    simp only [FieldDoc.LevelsAtMost]
    omega
  · cases h

theorem TypeDoc.levelsAtMost_ofTree? {doc : TypeDoc}
    (h : TypeDoc.ofTree? depth tree = some doc) {levels : Nat} (hle : depth ≤ levels) :
    doc.LevelsAtMost levels := by
  unfold TypeDoc.ofTree? at h
  split at h
  · simp only [Option.pure_def, Option.bind_eq_bind, Option.bind_eq_some_iff,
      Option.some.injEq] at h
    obtain ⟨fields, -, name, -, kind, -, base, -, interfaces, -, methods, hmethods, inits, hinits,
      rfl⟩ := h
    refine ⟨fun method hmethod => ?_, fun field hfield => ?_⟩
    · rcases default_or_exists_of_optional? hmethods with rfl | ⟨tree, htree⟩
      · cases hmethod
      · obtain ⟨fewer, hfewer, item, hitem⟩ := exists_of_list? htree method hmethod
        exact MethodDoc.levelsAtMost_ofTree? hitem (by omega)
    · rcases default_or_exists_of_optional? hinits with rfl | ⟨tree, htree⟩
      · cases hfield
      · obtain ⟨fewer, hfewer, item, hitem⟩ := exists_of_list? htree field hfield
        exact FieldDoc.levelsAtMost_ofTree? hitem (by omega)
  · cases h

theorem ModuleDoc.levelsAtMost_ofTree? {doc : ModuleDoc}
    (h : ModuleDoc.ofTree? depth tree = some doc) {levels : Nat} (hle : depth ≤ levels) :
    ∀ type ∈ doc.types, type.LevelsAtMost levels := by
  unfold ModuleDoc.ofTree? at h
  split at h
  · simp only [Option.pure_def, Option.bind_eq_bind, Option.bind_eq_some_iff,
      Option.some.injEq] at h
    obtain ⟨fields, -, name, -, types, htypes, rfl⟩ := h
    intro type htype
    rcases default_or_exists_of_optional? htypes with rfl | ⟨tree, htree⟩
    · cases htype
    · obtain ⟨fewer, hfewer, item, hitem⟩ := exists_of_list? htree type htype
      exact TypeDoc.levelsAtMost_ofTree? hitem (by omega)
  · cases h

end

/-- A project that was read from a text has no more levels than brackets may be open. -/
theorem ProjectDoc.levelsAtMost_parse? {text : String} {doc : ProjectDoc}
    (h : ProjectDoc.parse? text = some doc) : doc.LevelsAtMost nestingLimit := by
  obtain ⟨tree, -, hdoc⟩ := Option.bind_eq_some_iff.mp h
  unfold ProjectDoc.ofTree? at hdoc
  split at hdoc
  · simp only [Option.pure_def, Option.bind_eq_bind, Option.bind_eq_some_iff,
      Option.some.injEq] at hdoc
    obtain ⟨fields, -, modules, hmodules, rfl⟩ := hdoc
    obtain ⟨list, hlist⟩ := exists_of_required? hmodules
    intro module_ hmodule
    obtain ⟨fewer, hfewer, item, hitem⟩ := exists_of_list? hlist module_ hmodule
    exact ModuleDoc.levelsAtMost_ofTree? hitem (by omega)
  · cases hdoc

end AsyncLift
