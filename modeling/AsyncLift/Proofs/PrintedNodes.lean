import AsyncLift.Program.Printer
import AsyncLift.Proofs.Descendants

/-!
# What is written of a node

`NodeStore.IsExpr` and `NodeStore.IsStmt` say that a node is the top of an expression or of a
statement with at most so many levels. With that many levels left the text of such a node holds the
texts of the expressions in it (`IsExpr.shows_of_below`), and it does not depend on where the writer
would stop (`IsExpr.text_eq`).

There is one exception. A local function that a lambda lists cannot be written on one line: the two
writers hand it to each other, each time with one level less, until none is left
(`exprText_localFunction`).
-/

namespace AsyncLift

/-! ## Pieces of texts -/

/-- The piece stands somewhere in the text. -/
def Shows (text piece : String) : Prop := ∃ before after, text = before ++ piece ++ after

namespace Shows

variable {text middle piece : String} {pieces : List String}

theorem refl (text : String) : Shows text text := ⟨"", "", by simp⟩

theorem trans (h : Shows text middle) (h' : Shows middle piece) : Shows text piece := by
  obtain ⟨before, after, rfl⟩ := h
  obtain ⟨before', after', rfl⟩ := h'
  exact ⟨before ++ before', after' ++ after, by simp only [String.append_assoc]⟩

theorem append_left (before : String) (h : Shows text piece) : Shows (before ++ text) piece := by
  obtain ⟨before', after, rfl⟩ := h
  exact ⟨before ++ before', after, by simp only [String.append_assoc]⟩

theorem append_right (h : Shows text piece) (after : String) : Shows (text ++ after) piece := by
  obtain ⟨before, after', rfl⟩ := h
  exact ⟨before, after' ++ after, by simp only [String.append_assoc]⟩

theorem intercalate (separator : String) (h : piece ∈ pieces) :
    Shows (separator.intercalate pieces) piece := by
  induction pieces with
  | nil => cases h
  | cons first rest ih =>
    cases rest with
    | nil =>
      rw [List.mem_singleton.mp h, String.intercalate_singleton]
      exact refl first
    | cons second rest =>
      rw [String.intercalate_cons_cons]
      rcases List.mem_cons.mp h with rfl | hlater
      · exact ((refl piece).append_right _).append_right _
      · exact (ih hlater).append_left _

theorem join (h : piece ∈ pieces) : Shows (String.join pieces) piece := by
  induction pieces with
  | nil => cases h
  | cons first rest ih =>
    rw [String.join_cons]
    rcases List.mem_cons.mp h with rfl | hlater
    · exact (refl piece).append_right _
    · exact (ih hlater).append_left _

theorem length_le (h : Shows text piece) : piece.length ≤ text.length := by
  obtain ⟨before, after, rfl⟩ := h
  simp only [String.length_append]
  omega

end Shows

/-! ## Kinds of nodes -/

namespace Node

/-- An expression other than a lambda. -/
def isPlain : Node → Bool
  | call .. | await _ | methodGroup .. | name _ | literal _ => true
  | _ => false

def isExpr : Node → Bool
  | lambda .. => true
  | node => node.isPlain

/-- A statement other than a local function. -/
def isSimple : Node → Bool
  | exprStatement _ | ret _ | localVar .. => true
  | _ => false

def isLocalFunction : Node → Bool
  | localFunction .. => true
  | _ => false

theorem mem_children {node : Node} {child : NodeId} :
    child ∈ node.children ↔ some child ∈ node.slots := by
  simp [children]

theorem eq_of_mem_children {node : Node} {only child : NodeId} (hslots : node.slots = [some only])
    (h : child ∈ node.children) : child = only := by
  rw [mem_children, hslots, List.mem_singleton] at h
  exact Option.some.inj h

end Node

namespace NodeStore

variable {store : NodeStore} {cutoff cutoff' : Cutoff} {levels levels' more depth : Nat}
  {id child top : NodeId} {node : Node}

/-- The node is an expression, with at most so many levels of nodes. A lambda counts for two, since
its block is not written as a node of its own. -/
inductive IsExpr (store : NodeStore) : (levels : Nat) → NodeId → Prop
  | plain {levels : Nat} {id : NodeId} {node : Node} (hnode : store.get? id = some node)
      (hplain : node.isPlain = true) (hparts : ∀ child ∈ node.children, store.IsExpr levels child) :
      store.IsExpr (levels + 1) id
  | lambda {levels : Nat} {id block : NodeId} {isAsync : Bool} {params : List String}
      {statements : List Slot} (hnode : store.get? id = some (.lambda isAsync params (some block)))
      (hblock : store.get? block = some (.block statements))
      (hkinds : ∀ stmt, some stmt ∈ statements → ∃ node, store.get? stmt = some node ∧
        (node.isSimple = true ∨ node.isLocalFunction = true))
      (hparts : ∀ stmt node, some stmt ∈ statements → store.get? stmt = some node →
        node.isSimple = true → ∀ child ∈ node.children, store.IsExpr levels child) :
      store.IsExpr (levels + 2) id

/-- The node is a statement, with at most so many levels of nodes. -/
inductive IsStmt (store : NodeStore) : (levels : Nat) → NodeId → Prop
  | simple {levels : Nat} {id : NodeId} {node : Node} (hnode : store.get? id = some node)
      (hsimple : node.isSimple = true)
      (hparts : ∀ child ∈ node.children, store.IsExpr levels child) :
      store.IsStmt (levels + 1) id
  | localFunction {levels : Nat} {id block : NodeId} {name : String} {isAsync : Bool}
      {returnType : TypeExpr} {statements : List Slot}
      (hnode : store.get? id = some (.localFunction name isAsync returnType (some block)))
      (hblock : store.get? block = some (.block statements))
      (hparts : ∀ stmt, some stmt ∈ statements → store.IsStmt levels stmt) :
      store.IsStmt (levels + 2) id

theorem IsExpr.mono (h : store.IsExpr levels id) (hle : levels ≤ more) : store.IsExpr more id := by
  induction h generalizing more with
  | plain hnode hplain hparts ih =>
    obtain ⟨fewer, rfl⟩ : ∃ fewer, more = fewer + 1 := ⟨more - 1, by omega⟩
    exact .plain hnode hplain fun child hchild => ih child hchild (by omega)
  | lambda hnode hblock hkinds hparts ih =>
    obtain ⟨fewer, rfl⟩ : ∃ fewer, more = fewer + 2 := ⟨more - 2, by omega⟩
    exact .lambda hnode hblock hkinds fun stmt node hstmt hget hsimple child hchild =>
      ih stmt node hstmt hget hsimple child hchild (by omega)

theorem IsStmt.mono (h : store.IsStmt levels id) (hle : levels ≤ more) : store.IsStmt more id := by
  induction h generalizing more with
  | simple hnode hsimple hparts =>
    obtain ⟨fewer, rfl⟩ : ∃ fewer, more = fewer + 1 := ⟨more - 1, by omega⟩
    exact .simple hnode hsimple fun child hchild => (hparts child hchild).mono (by omega)
  | localFunction hnode hblock hparts ih =>
    obtain ⟨fewer, rfl⟩ : ∃ fewer, more = fewer + 2 := ⟨more - 2, by omega⟩
    exact .localFunction hnode hblock fun stmt hstmt => ih stmt hstmt (by omega)

/-- A lambda lists statements. -/
theorem IsExpr.of_stmts {block : NodeId} {isAsync : Bool} {params : List String}
    {statements : List Slot} (hnode : store.get? id = some (.lambda isAsync params (some block)))
    (hblock : store.get? block = some (.block statements))
    (hparts : ∀ stmt, some stmt ∈ statements → store.IsStmt levels stmt) :
    store.IsExpr (levels + 2) id := by
  refine .lambda hnode hblock ?_ ?_
  · intro stmt hstmt
    cases hparts stmt hstmt with
    | simple hget hsimple => exact ⟨_, hget, .inl hsimple⟩
    | localFunction hget => exact ⟨_, hget, .inr rfl⟩
  · intro stmt node hstmt hget hsimple child hchild
    cases hparts stmt hstmt with
    | simple hget' hsimple' hexprs =>
      cases hget.symm.trans hget'
      exact (hexprs child hchild).mono (Nat.le_succ _)
    | localFunction hget' =>
      cases hget.symm.trans hget'
      cases hsimple

/-! ## One node of a text -/

theorem exprText_none (store : NodeStore) (cutoff : Cutoff) (levels : Nat) :
    store.exprText cutoff (levels + 1) none = "" := rfl

theorem exprText_lambda {isAsync : Bool} {params : List String} {body : Slot}
    (hnode : store.get? id = some (.lambda isAsync params body)) (cutoff : Cutoff) (levels : Nat) :
    store.exprText cutoff (levels + 2) (some id) =
      asyncMark isAsync ++ "(" ++ ", ".intercalate params ++ ") => \x7b " ++
        " ".intercalate ((store.statementsOf body).map
          (store.inlineText (store.exprText cutoff levels))) ++ " \x7d" := by
  rw [exprText, Option.bind_some, hnode]

theorem statementsOf_block {statements : List Slot}
    (hblock : store.get? id = some (.block statements)) :
    store.statementsOf (some id) = statements := by
  rw [statementsOf, Option.bind_some, hblock]

/-- The text of a lambda holds the texts of its statements. -/
theorem exprText_lambda_shows {block : NodeId} {isAsync : Bool} {params : List String}
    {statements : List Slot} {slot : Slot}
    (hnode : store.get? id = some (.lambda isAsync params (some block)))
    (hblock : store.get? block = some (.block statements)) (hslot : slot ∈ statements)
    (cutoff : Cutoff) (levels : Nat) :
    Shows (store.exprText cutoff (levels + 2) (some id))
      (store.inlineText (store.exprText cutoff levels) slot) := by
  rw [exprText_lambda hnode, statementsOf_block hblock]
  exact ((Shows.intercalate " " (List.mem_map_of_mem hslot)).append_left _).append_right _

/-- A local function is handed on from one writer to the other until no level is left. -/
theorem exprText_localFunction (hnode : store.get? id = some node)
    (hfunction : node.isLocalFunction = true) (cutoff : Cutoff) (levels : Nat) :
    store.exprText cutoff levels (some id) =
      cutoff.expr ++ String.ofList (List.replicate levels ';') := by
  cases node with
  | localFunction name isAsync returnType body =>
    induction levels with
    | zero => simp [exprText]
    | succ levels ih =>
      have hstep : store.exprText cutoff (levels + 1) (some id) =
          store.exprText cutoff levels (some id) ++ ";" := by
        rw [exprText.eq_def]
        simp only [inlineText, Option.bind_some, hnode]
      rw [hstep, ih, List.replicate_succ', String.ofList_append, String.append_assoc]
  | _ => cases hfunction

/-- The text of a plain expression is made from the texts of its parts. -/
theorem exprText_congr (hnode : store.get? id = some node) (hplain : node.isPlain = true)
    (hparts : ∀ slot ∈ node.slots, store.exprText cutoff levels slot =
      store.exprText cutoff' levels' slot) :
    store.exprText cutoff (levels + 1) (some id) =
      store.exprText cutoff' (levels' + 1) (some id) := by
  have hmember : ∀ receiver name, receiver ∈ node.slots →
      store.memberText (store.exprText cutoff levels) receiver name =
        store.memberText (store.exprText cutoff' levels') receiver name := by
    intro receiver name hreceiver
    unfold memberText
    rw [hparts receiver hreceiver]
  rw [exprText.eq_def, exprText.eq_def store cutoff' (levels' + 1)]
  simp only [Option.bind_some, hnode]
  cases node with
  | call receiver name target args =>
    have hargs : args.map (store.exprText cutoff levels) =
        args.map (store.exprText cutoff' levels') :=
      List.map_congr_left fun arg harg => hparts arg (List.mem_cons_of_mem _ harg)
    simp only [hmember receiver name List.mem_cons_self, hargs]
  | await operand => simp only [hparts operand (List.mem_singleton_self operand)]
  | methodGroup receiver name target =>
    exact hmember receiver name (List.mem_singleton_self receiver)
  | name text => rfl
  | literal text => rfl
  | _ => cases hplain

theorem memberText_shows (texts : Slot → String) (name : String) :
    Shows (store.memberText texts (some child) name) (texts (some child)) := by
  have hbare : Shows (texts (some child) ++ "." ++ name) (texts (some child)) :=
    ((Shows.refl _).append_right _).append_right _
  have hparenthesized : Shows ("(" ++ texts (some child) ++ ")." ++ name) (texts (some child)) :=
    (((Shows.refl _).append_left _).append_right _).append_right _
  simp only [memberText]
  split
  · exact hparenthesized
  · exact hparenthesized
  · exact hbare

/-- The text of a plain expression holds the texts of its parts. -/
theorem exprText_shows (hnode : store.get? id = some node) (hplain : node.isPlain = true)
    (hchild : child ∈ node.children) (cutoff : Cutoff) (levels : Nat) :
    Shows (store.exprText cutoff (levels + 1) (some id))
      (store.exprText cutoff levels (some child)) := by
  have hslot := Node.mem_children.mp hchild
  rw [exprText.eq_def]
  simp only [Option.bind_some, hnode]
  cases node with
  | call receiver name target args =>
    rcases List.mem_cons.mp hslot with rfl | harg
    · exact (((memberText_shows _ name).append_right _).append_right _).append_right _
    · refine ((Shows.intercalate ", " ?_).append_left _).append_right _
      exact List.mem_map.mpr ⟨_, harg, rfl⟩
  | await operand =>
    rw [← List.mem_singleton.mp hslot]
    exact (Shows.refl _).append_left _
  | methodGroup receiver name target =>
    rw [← List.mem_singleton.mp hslot]
    exact memberText_shows _ name
  | name text => cases hslot
  | literal text => cases hslot
  | _ => cases hplain

theorem inlineText_congr {texts texts' : Slot → String} (hnode : store.get? id = some node)
    (hsimple : node.isSimple = true) (hparts : ∀ slot ∈ node.slots, texts slot = texts' slot) :
    store.inlineText texts (some id) = store.inlineText texts' (some id) := by
  rw [inlineText, inlineText, Option.bind_some, hnode]
  cases node with
  | exprStatement expr => simp only [hparts expr (List.mem_singleton_self expr)]
  | ret expr =>
    have hexpr := hparts expr (List.mem_singleton_self expr)
    cases expr with
    | none => rfl
    | some expr => simp only [hexpr]
  | localVar name init => simp only [hparts init (List.mem_singleton_self init)]
  | _ => cases hsimple

theorem inlineText_shows (hnode : store.get? id = some node) (hsimple : node.isSimple = true)
    (hchild : child ∈ node.children) (texts : Slot → String) :
    Shows (store.inlineText texts (some id)) (texts (some child)) := by
  have hslot := Node.mem_children.mp hchild
  rw [inlineText, Option.bind_some, hnode]
  cases node with
  | exprStatement expr =>
    rw [← List.mem_singleton.mp hslot]
    exact (Shows.refl _).append_right _
  | ret expr =>
    rw [← List.mem_singleton.mp hslot]
    exact ((Shows.refl _).append_left _).append_right _
  | localVar name init =>
    rw [← List.mem_singleton.mp hslot]
    exact ((Shows.refl _).append_left _).append_right _
  | _ => cases hsimple

/-- On one line a local function is what is left of it after all levels. -/
theorem inlineText_localFunction (hnode : store.get? id = some node)
    (hfunction : node.isLocalFunction = true) (cutoff : Cutoff) (levels : Nat) :
    Shows (store.inlineText (store.exprText cutoff levels) (some id)) cutoff.expr := by
  have htext := exprText_localFunction hnode hfunction cutoff levels
  rw [inlineText, Option.bind_some, hnode]
  cases node with
  | localFunction name isAsync returnType body =>
    simp only [htext]
    exact ((Shows.refl _).append_right _).append_right _
  | _ => cases hfunction

/-! ## Where the writer would stop -/

/-- The node is a local function that a lambda lists. -/
def InlineFunction (store : NodeStore) (id : NodeId) : Prop :=
  ∃ lambda isAsync params block statements node,
    store.get? lambda = some (.lambda isAsync params (some block)) ∧
    store.get? block = some (.block statements) ∧ some id ∈ statements ∧
    store.get? id = some node ∧ node.isLocalFunction = true

/-- A missing part is written as nothing while a level is left. -/
theorem exprText_slots_eq (hlevels : 0 < levels) (hlevels' : 0 < levels')
    (hparts : ∀ child ∈ node.children,
      store.exprText cutoff levels (some child) = store.exprText cutoff' levels' (some child)) :
    ∀ slot ∈ node.slots, store.exprText cutoff levels slot =
      store.exprText cutoff' levels' slot := by
  intro slot hslot
  cases slot with
  | none =>
    obtain ⟨fewer, rfl⟩ : ∃ fewer, levels = fewer + 1 := ⟨levels - 1, by omega⟩
    obtain ⟨fewer', rfl⟩ : ∃ fewer, levels' = fewer + 1 := ⟨levels' - 1, by omega⟩
    rw [exprText_none, exprText_none]
  | some child => exact hparts child (Node.mem_children.mpr hslot)

/-- With enough levels left the text of an expression is the same wherever the writer would stop,
unless there is a function that cannot be written on a line. -/
theorem IsExpr.text_eq (hnone : ∀ id, ¬ store.InlineFunction id) (h : store.IsExpr levels id)
    {left left' : Nat} (hleft : levels < left) (hleft' : levels < left') :
    store.exprText cutoff left (some id) = store.exprText cutoff' left' (some id) := by
  induction h generalizing left left' with
  | plain hnode hplain hparts ih =>
    obtain ⟨fewer, rfl⟩ : ∃ fewer, left = fewer + 1 := ⟨left - 1, by omega⟩
    obtain ⟨fewer', rfl⟩ : ∃ fewer, left' = fewer + 1 := ⟨left' - 1, by omega⟩
    refine exprText_congr hnode hplain (exprText_slots_eq (by omega) (by omega) ?_)
    exact fun child hchild => ih child hchild (by omega) (by omega)
  | @lambda levels id block isAsync params statements hnode hblock hkinds hparts ih =>
    obtain ⟨fewer, rfl⟩ : ∃ fewer, left = fewer + 2 := ⟨left - 2, by omega⟩
    obtain ⟨fewer', rfl⟩ : ∃ fewer, left' = fewer + 2 := ⟨left' - 2, by omega⟩
    have hinline : ∀ slot ∈ statements,
        store.inlineText (store.exprText cutoff fewer) slot =
          store.inlineText (store.exprText cutoff' fewer') slot := by
      intro slot hslot
      cases slot with
      | none => rfl
      | some stmt =>
        obtain ⟨node, hget, hsimple | hfunction⟩ := hkinds stmt hslot
        · refine inlineText_congr hget hsimple (exprText_slots_eq (by omega) (by omega) ?_)
          exact fun child hchild => ih stmt node hslot hget hsimple child hchild (by omega)
            (by omega)
        · exact absurd ⟨id, isAsync, params, block, statements, node, hnode, hblock, hslot, hget,
            hfunction⟩ (hnone stmt)
    rw [exprText_lambda hnode, exprText_lambda hnode, statementsOf_block hblock,
      List.map_congr_left hinline]

/-! ## What a text holds -/

/-- The node is the top, or it lies below. -/
def Below (store : NodeStore) (top id : NodeId) : Prop := ∃ hops, store.above? hops id = some top

/-- The node belongs to a local function that a lambda lists. -/
def Inlined (store : NodeStore) (id : NodeId) : Prop :=
  ∃ function, store.InlineFunction function ∧ store.Below function id

/-- What lies below a node is the node or lies below one of its children. -/
theorem Below.eq_or_child (hforest : store.Forest) (h : store.Below top id)
    (hnode : store.get? top = some node) :
    id = top ∨ ∃ child ∈ node.children, store.Below child id := by
  obtain ⟨hops, habove⟩ := h
  cases hops with
  | zero => exact .inl (Option.some.inj habove)
  | succ hops =>
    obtain ⟨child, hchild, hparent⟩ := Option.bind_eq_some_iff.mp habove
    have hmem := (hforest.links top child).mpr hparent
    rw [childrenOf_of_get? hnode] at hmem
    exact .inr ⟨child, hmem, hops, hchild⟩

/-- The text holds the expression as it is written with at least so many levels left for its parts,
or the expression belongs to a local function in whose place the writer has stopped. -/
def Accounts (store : NodeStore) (cutoff : Cutoff) (levels : Nat) (text : String) (id : NodeId) :
    Prop :=
  (∃ left, levels ≤ left ∧ Shows text (store.exprText cutoff (left + 1) (some id))) ∨
    store.Inlined id ∧ Shows text cutoff.expr

theorem Accounts.mono {text part : String} (h : store.Accounts cutoff levels part id)
    (hshows : Shows text part) (hle : more ≤ levels) : store.Accounts cutoff more text id := by
  rcases h with ⟨left, hleft, hpart⟩ | ⟨hinlined, hpart⟩
  · exact .inl ⟨left, Nat.le_trans hle hleft, hshows.trans hpart⟩
  · exact .inr ⟨hinlined, hshows.trans hpart⟩

/-- The text of an expression accounts for every expression in it. -/
theorem IsExpr.accounts (hforest : store.Forest) (h : store.IsExpr levels top) {left : Nat}
    (hleft : levels < left) (hbelow : store.Below top id) (hid : store.get? id = some node)
    (hexpr : node.isExpr = true) :
    store.Accounts cutoff (left - levels) (store.exprText cutoff left (some top)) id := by
  induction h generalizing left with
  | plain hnode hplain hparts ih =>
    obtain ⟨fewer, rfl⟩ : ∃ fewer, left = fewer + 1 := ⟨left - 1, by omega⟩
    rcases hbelow.eq_or_child hforest hnode with rfl | ⟨child, hchild, hbelow⟩
    · exact .inl ⟨fewer, by omega, Shows.refl _⟩
    · exact (ih child hchild (by omega) hbelow).mono (exprText_shows hnode hplain hchild _ _)
        (by omega)
  | @lambda levels top block isAsync params statements hnode hblock hkinds hparts ih =>
    obtain ⟨fewer, rfl⟩ : ∃ fewer, left = fewer + 2 := ⟨left - 2, by omega⟩
    rcases hbelow.eq_or_child hforest hnode with rfl | ⟨child, hchild, hbelow⟩
    · exact .inl ⟨fewer + 1, by omega, Shows.refl _⟩
    -- Between the lambda and its statements stands the block.
    obtain rfl := Node.eq_of_mem_children rfl hchild
    rcases hbelow.eq_or_child hforest hblock with rfl | ⟨stmt, hstmt, hbelow⟩
    · cases hid.symm.trans hblock
      cases hexpr
    have hslot : some stmt ∈ statements := Node.mem_children.mp hstmt
    have hshows := exprText_lambda_shows hnode hblock hslot cutoff fewer
    obtain ⟨node', hget, hsimple | hfunction⟩ := hkinds stmt hslot
    · rcases hbelow.eq_or_child hforest hget with rfl | ⟨child', hchild', hbelow⟩
      · cases hid.symm.trans hget
        cases node <;> cases hsimple <;> cases hexpr
      · refine (ih stmt node' hslot hget hsimple child' hchild' ?_ hbelow).mono
          (hshows.trans (inlineText_shows hget hsimple hchild' _)) ?_
        · omega
        · omega
    · refine .inr ⟨⟨stmt, ?_, hbelow⟩, hshows.trans (inlineText_localFunction hget hfunction _ _)⟩
      exact ⟨top, isAsync, params, child, statements, node', hnode, hblock, hslot, hget, hfunction⟩

/-! ## Statements on lines of their own -/

theorem line_shows (depth : Nat) (text : String) : Shows (line depth text) text :=
  (Shows.refl text).append_left _

theorem stmtLines_none (store : NodeStore) (cutoff : Cutoff) (levels depth : Nat) :
    store.stmtLines cutoff (levels + 1) depth none = [] := by
  rw [stmtLines.eq_def]
  rfl

theorem stmtLines_simple (hnode : store.get? id = some node) (hsimple : node.isSimple = true)
    (cutoff : Cutoff) (levels depth : Nat) :
    store.stmtLines cutoff (levels + 1) depth (some id) =
      [line depth (store.inlineText (store.exprText cutoff (levels + 1)) (some id))] := by
  rw [stmtLines.eq_def]
  simp only [Option.bind_some, hnode]
  cases node with
  | exprStatement | ret | localVar => rfl
  | _ => cases hsimple

theorem stmtLines_localFunction {name : String} {isAsync : Bool} {returnType : TypeExpr}
    {body : Slot} (hnode : store.get? id = some (.localFunction name isAsync returnType body))
    (cutoff : Cutoff) (levels depth : Nat) :
    store.stmtLines cutoff (levels + 2) depth (some id) =
      line depth (asyncMark isAsync ++ returnType.render ++ " " ++ name ++ "()") ::
        store.blockLines (store.stmtLines cutoff levels (depth + 1)) depth body := by
  rw [stmtLines.eq_def]
  simp only [Option.bind_some, hnode]

theorem mem_blockLines {lines : Slot → List String} {body slot : Slot} {text : String}
    (hslot : slot ∈ store.statementsOf body) (htext : text ∈ lines slot) :
    text ∈ store.blockLines lines depth body := by
  unfold blockLines
  refine List.mem_append_left _ (List.mem_cons_of_mem _ ?_)
  exact List.mem_flatMap.mpr ⟨slot, hslot, htext⟩

theorem blockLines_congr {lines lines' : Slot → List String} {body : Slot}
    (h : ∀ slot ∈ store.statementsOf body, lines slot = lines' slot) :
    store.blockLines lines depth body = store.blockLines lines' depth body := by
  rw [blockLines, blockLines, List.flatMap_congr h]

/-- The lines of the statements of a block are the same if those of each statement are. -/
theorem blockLines_eq {statements : List Slot}
    (hblock : store.get? id = some (.block statements)) (hlevels : 0 < levels)
    (hlevels' : 0 < levels') (hparts : ∀ stmt, some stmt ∈ statements →
      store.stmtLines cutoff levels (depth + 1) (some stmt) =
        store.stmtLines cutoff' levels' (depth + 1) (some stmt)) :
    store.blockLines (store.stmtLines cutoff levels (depth + 1)) depth (some id) =
      store.blockLines (store.stmtLines cutoff' levels' (depth + 1)) depth (some id) := by
  refine blockLines_congr fun slot hslot => ?_
  rw [statementsOf_block hblock] at hslot
  cases slot with
  | none =>
    obtain ⟨fewer, rfl⟩ : ∃ fewer, levels = fewer + 1 := ⟨levels - 1, by omega⟩
    obtain ⟨fewer', rfl⟩ : ∃ fewer, levels' = fewer + 1 := ⟨levels' - 1, by omega⟩
    rw [stmtLines_none, stmtLines_none]
  | some stmt => exact hparts stmt hslot

theorem IsStmt.lines_eq (hnone : ∀ id, ¬ store.InlineFunction id) (h : store.IsStmt levels id)
    {left left' : Nat} (hleft : levels < left) (hleft' : levels < left') (depth : Nat) :
    store.stmtLines cutoff left depth (some id) =
      store.stmtLines cutoff' left' depth (some id) := by
  induction h generalizing left left' depth with
  | simple hnode hsimple hparts =>
    obtain ⟨fewer, rfl⟩ : ∃ fewer, left = fewer + 1 := ⟨left - 1, by omega⟩
    obtain ⟨fewer', rfl⟩ : ∃ fewer, left' = fewer + 1 := ⟨left' - 1, by omega⟩
    rw [stmtLines_simple hnode hsimple, stmtLines_simple hnode hsimple]
    refine congrArg (fun text => [line depth text]) (inlineText_congr hnode hsimple ?_)
    refine exprText_slots_eq (Nat.succ_pos fewer) (Nat.succ_pos fewer') fun child hchild => ?_
    exact (hparts child hchild).text_eq hnone (by omega) (by omega)
  | localFunction hnode hblock hparts ih =>
    obtain ⟨fewer, rfl⟩ : ∃ fewer, left = fewer + 2 := ⟨left - 2, by omega⟩
    obtain ⟨fewer', rfl⟩ : ∃ fewer, left' = fewer + 2 := ⟨left' - 2, by omega⟩
    rw [stmtLines_localFunction hnode, stmtLines_localFunction hnode]
    refine congrArg (List.cons _) (blockLines_eq hblock (by omega) (by omega) fun stmt hstmt => ?_)
    exact ih stmt hstmt (by omega) (by omega) (depth + 1)

/-- Among the lines of a statement is one for every expression in it. -/
theorem IsStmt.accounts (hforest : store.Forest) (h : store.IsStmt levels top) {left : Nat}
    (hleft : levels < left) (hbelow : store.Below top id) (hid : store.get? id = some node)
    (hexpr : node.isExpr = true) (depth : Nat) :
    ∃ text ∈ store.stmtLines cutoff left depth (some top),
      store.Accounts cutoff (left - levels) text id := by
  induction h generalizing left depth with
  | @simple levels top stmt hnode hsimple hparts =>
    obtain ⟨fewer, rfl⟩ : ∃ fewer, left = fewer + 1 := ⟨left - 1, by omega⟩
    rcases hbelow.eq_or_child hforest hnode with rfl | ⟨child, hchild, hbelow⟩
    · cases hid.symm.trans hnode
      cases node <;> cases hsimple <;> cases hexpr
    rw [stmtLines_simple hnode hsimple]
    refine ⟨_, List.mem_singleton_self _, ?_⟩
    refine ((hparts child hchild).accounts hforest (by omega) hbelow hid hexpr).mono
      ((line_shows depth _).trans (inlineText_shows hnode hsimple hchild _)) ?_
    omega
  | @localFunction levels top block name isAsync returnType statements hnode hblock hparts ih =>
    obtain ⟨fewer, rfl⟩ : ∃ fewer, left = fewer + 2 := ⟨left - 2, by omega⟩
    have hfewer : levels < fewer := by omega
    rcases hbelow.eq_or_child hforest hnode with rfl | ⟨child, hchild, hbelow⟩
    · cases hid.symm.trans hnode
      cases hexpr
    obtain rfl := Node.eq_of_mem_children rfl hchild
    rcases hbelow.eq_or_child hforest hblock with rfl | ⟨stmt, hstmt, hbelow⟩
    · cases hid.symm.trans hblock
      cases hexpr
    have hslot := Node.mem_children.mp hstmt
    obtain ⟨text, htext, haccounts⟩ := ih stmt hslot hfewer hbelow (depth + 1)
    rw [stmtLines_localFunction hnode]
    refine ⟨text, List.mem_cons_of_mem _ (mem_blockLines ?_ htext), ?_⟩
    · rw [statementsOf_block hblock]
      exact hslot
    · exact haccounts.mono (Shows.refl text) (by omega)

end NodeStore

end AsyncLift
