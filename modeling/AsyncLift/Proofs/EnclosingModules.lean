import AsyncLift.Proofs.Descendants
import AsyncLift.Proofs.RegisteredRoots
import AsyncLift.Proofs.SettledReferences

/-!
# Enclosing methods and modules

Two walks upwards ask where a node lies. One looks for the enclosing function and begins at the
parent of the node, the other looks for the root of the tree and begins at the node itself. Either
looks at `maxParentHops` nodes, so the second ends one hop earlier.

Where both come to the body of a method they agree on the module (`run_encloses_in_module`), since
a builder registers a body together with its module. From a node that is exactly `maxParentHops`
hops below the body only the first walk gets there. Such a node has an enclosing method and no
module, and a search that keeps to one module passes it over.
-/

namespace AsyncLift

namespace Program

variable {program : Program} {id root : NodeId} {declaration : DeclId} {hops : Nat}

/-! ## What the walks find -/

theorem boundary?_ne_method : program.boundary? id ≠ some (some (.method declaration)) := by
  unfold boundary?
  split <;> simp

/-- The walk finds a method if it comes to the body of one, past nodes that settle nothing. -/
theorem functionFrom?_eq_method :
    program.functionFrom? hops id = some (.method declaration) ↔
      ∃ steps < hops, ∃ root, program.nodes.above? steps id = some root ∧
        program.nodes.parent? root = none ∧ program.bodyOwner.find? root = some declaration ∧
        ∀ fewer ≤ steps, ∀ other, program.nodes.above? fewer id = some other →
          program.boundary? other = none := by
  induction hops generalizing id with
  | zero => simp [functionFrom?]
  | succ hops ih =>
    rw [functionFrom?_eq_searchUp, NodeStore.searchUp]
    cases hverdict : program.boundary? id with
    | some settled =>
      constructor
      · rintro rfl
        exact absurd hverdict boundary?_ne_method
      · rintro ⟨steps, -, root, -, -, -, hpath⟩
        cases (hpath 0 (Nat.zero_le steps) id rfl).symm.trans hverdict
    | none =>
      cases hparent : program.nodes.parent? id with
      | none =>
        constructor
        · intro hfound
          obtain ⟨owner, howner, hmethod⟩ := Option.map_eq_some_iff.mp hfound
          cases hmethod
          refine ⟨0, Nat.succ_pos hops, id, rfl, hparent, howner, fun fewer hle other habove => ?_⟩
          obtain rfl := Nat.le_zero.mp hle
          cases habove
          exact hverdict
        · rintro ⟨steps, -, root, habove, -, howner, -⟩
          cases steps with
          | zero =>
            cases habove
            rw [howner]
            rfl
          | succ steps => cases (NodeStore.above?_of_root hparent steps).symm.trans habove
      | some parent =>
        dsimp only
        rw [← functionFrom?_eq_searchUp, ih]
        constructor
        · rintro ⟨steps, hlt, root, habove, hroot, howner, hpath⟩
          refine ⟨steps + 1, Nat.succ_lt_succ hlt, root, ?_, hroot, howner, ?_⟩
          · rw [NodeStore.above?_succ_of_parent hparent, habove]
          · intro fewer hle other hother
            cases fewer with
            | zero =>
              cases hother
              exact hverdict
            | succ fewer =>
              rw [NodeStore.above?_succ_of_parent hparent] at hother
              exact hpath fewer (Nat.le_of_succ_le_succ hle) other hother
        · rintro ⟨steps, hlt, root, habove, hroot, howner, hpath⟩
          cases steps with
          | zero =>
            cases habove
            cases hroot.symm.trans hparent
          | succ steps =>
            rw [NodeStore.above?_succ_of_parent hparent] at habove
            refine ⟨steps, Nat.lt_of_succ_lt_succ hlt, root, habove, hroot, howner, ?_⟩
            intro fewer hle other hother
            refine hpath (fewer + 1) (Nat.succ_le_succ hle) other ?_
            rw [NodeStore.above?_succ_of_parent hparent, hother]

/-- A node with an enclosing method has its body as the root, 1 to `maxParentHops` hops up. -/
theorem exists_body_above (h : program.enclosingFunction? id = some (.method declaration)) :
    ∃ body hops, program.nodes.above? hops id = some body ∧ program.nodes.parent? body = none ∧
      program.bodyOwner.find? body = some declaration ∧ 0 < hops ∧ hops ≤ maxParentHops := by
  obtain ⟨parent, hparent, hfound⟩ := Option.bind_eq_some_iff.mp h
  obtain ⟨steps, hlt, body, habove, hroot, howner, -⟩ := functionFrom?_eq_method.mp hfound
  refine ⟨body, steps + 1, ?_, hroot, howner, Nat.succ_pos steps, hlt⟩
  rw [NodeStore.above?_succ_of_parent hparent, habove]

/-- The walk to the root gets there in less than `maxParentHops` hops or not at all. -/
theorem rootOf_of_above? (habove : program.nodes.above? hops id = some root)
    (hroot : program.nodes.parent? root = none) :
    program.nodes.rootOf id = if hops < maxParentHops then some root else none := by
  split
  · exact NodeStore.climb_eq_some_iff.mpr ⟨hops, ‹_›, habove, hroot⟩
  · rename_i hfar
    refine Option.eq_none_iff_forall_ne_some.mpr fun other hother => ?_
    obtain ⟨fewer, hlt, habove', hroot'⟩ := NodeStore.climb_eq_some_iff.mp hother
    obtain ⟨rest, rfl⟩ : ∃ rest, hops = fewer + (rest + 1) := ⟨hops - fewer - 1, by omega⟩
    rw [NodeStore.above?_add habove', NodeStore.above?_of_root hroot'] at habove
    cases habove

end Program

namespace Builder

open Program

/-! ## Built programs -/

/-- A node that a method encloses lies below the body of one of its declarations. It lies in the
module of this declaration, and a search that keeps to the module finds it, exactly if it is less
than `maxParentHops` hops below the body. -/
theorem run_encloses_in_module (calls : List Call) {program : Program}
    (hprogram : (withMain.run calls).program = program) {id : NodeId} {declaration : DeclId}
    (h : program.enclosingFunction? id = some (.method declaration)) :
    ∃ row body hops, program.declarations[declaration]? = some row ∧ row.body = some body ∧
      program.nodes.above? hops id = some body ∧ 0 < hops ∧ hops ≤ maxParentHops ∧
      program.moduleOf? id = (if hops < maxParentHops then some row.declaredIn else none) ∧
      ∀ reference method anchor module_, program.nodes.get? id = some reference →
        reference.target? = some method →
        Conversion.searchedModule? .declaringModule anchor program method = some module_ →
        (id ∈ ReferenceSearch.inProgram .declaringModule anchor program method ↔
          hops < maxParentHops ∧ row.declaredIn = module_) := by
  have hregistered : program.RootsRegistered :=
    hprogram ▸ rootsRegistered_run rootsRegistered_withMain calls
  obtain ⟨body, hops, habove, hroot, howner, hpos, hle⟩ := exists_body_above h
  obtain ⟨module_, hbody⟩ := (hregistered.owners body declaration).mp howner
  have hmodule := (hregistered.modules body module_).mpr (.inl ⟨declaration, hbody⟩)
  obtain ⟨row, hrow, hrowBody, rfl⟩ := hbody
  have hmoduleOf : program.moduleOf? id =
      if hops < maxParentHops then some row.declaredIn else none := by
    rw [moduleOf?, rootOf_of_above? habove hroot]
    split
    · exact hmodule
    · rfl
  refine ⟨row, body, hops, hrow, hrowBody, habove, hpos, hle, hmoduleOf, ?_⟩
  intro reference method anchor module_ hnode htarget hsearched
  rw [Conversion.mem_inProgram, hsearched, hmoduleOf]
  constructor
  · rintro ⟨-, hwithin⟩
    simpa using hwithin module_ rfl
  · rintro ⟨hnear, rfl⟩
    refine ⟨⟨reference, hnode, htarget⟩, fun other hother => ?_⟩
    rw [if_pos hnear, hother]

/-- A call, and statements that hold one another around it. -/
def nestedNode : Nat → Node
  | 0 => .call none "Load" (some 0) []
  | below + 1 => .exprStatement (some below)

/-- A call below so many expression statements. -/
def nestedCall : (depth : Nat) → NodeStore
  | 0 => ({} : NodeStore).add (nestedNode 0)
  | depth + 1 => (nestedCall depth).add (nestedNode (depth + 1))

theorem size_nestedCall (depth : Nat) : (nestedCall depth).size = depth + 1 := by
  induction depth with
  | zero => rfl
  | succ depth ih => rw [nestedCall, NodeStore.size_add, ih]

theorem parent?_nestedCall {depth id : Nat} :
    (nestedCall depth).parent? id = if id < depth then some (id + 1) else none := by
  induction depth with
  | zero =>
    refine (NodeStore.parent?_add _ _ _).trans ((if_neg ?_).trans ?_)
    · rintro ⟨hchild, -⟩
      cases hchild
    · exact NodeStore.parent?_eq_none (Nat.zero_le _)
  | succ depth ih =>
    have hchild : id ∈ (nestedNode (depth + 1)).children ↔ id = depth := by
      simp [nestedNode, Node.children, Node.slots]
    rw [nestedCall, NodeStore.parent?_add, size_nestedCall, ih]
    by_cases hid : id = depth
    · subst hid
      rw [if_pos ⟨hchild.mpr rfl, Nat.lt_succ_self id⟩, if_pos (Nat.lt_succ_self id)]
    · have hlt : id < depth + 1 ↔ id < depth := by omega
      rw [if_neg fun h => hid (hchild.mp h.1)]
      simp only [hlt]

theorem get?_nestedCall {depth id : Nat} (h : id ≤ depth) :
    (nestedCall depth).get? id = some (nestedNode id) := by
  induction depth with
  | zero =>
    obtain rfl := Nat.le_zero.mp h
    rfl
  | succ depth ih =>
    rw [nestedCall, NodeStore.get?_add, size_nestedCall]
    obtain hbelow | rfl := Nat.le_succ_iff.mp h
    · rw [if_neg (Nat.ne_of_lt (Nat.lt_succ_of_le hbelow)), ih hbelow]
    · rw [if_pos rfl]

/-- A method of a class, and another one whose body has a call of it in so deep. -/
def deepCalls (depth : Nat) : List Call :=
  [.addType .ofClass "Store", .addMethod 0 { name := "Load" }, .addMethod 0 { name := "Run" },
    .call none 0 []] ++
    ((List.range depth).map fun below => .exprStatement (some below)) ++
    [.setBody 1 [some depth]]

theorem run_exprStatements (builder : Builder) (h : builder.program.nodes = nestedCall 0)
    (depth : Nat) :
    builder.run ((List.range depth).map fun below => .exprStatement (some below)) =
      { builder with program := { builder.program with nodes := nestedCall depth } } := by
  induction depth with
  | zero =>
    rw [← h]
    rfl
  | succ depth ih =>
    rw [run] at ih
    rw [List.range_succ, List.map_append, run, List.foldl_append, ih]
    rfl

/-- The program with the nodes and the body that the calls make. -/
def deepProgram (depth : Nat) : Program where
  modules := #["main"]
  types := #[{ name := "Store", declaredIn := 0, kind := .ofClass, members := [0, 1] }]
  methods := #[{ owner := 0, name := "Load", declarations := [0] },
    { owner := 0, name := "Run", declarations := [1] }]
  declarations := #[{ method := 0, declaredIn := 0 },
    { method := 1, declaredIn := 0, body := some (depth + 1) }]
  nodes := (nestedCall depth).add (.block [some depth])
  bodyOwner := ({} : Register DeclId).insert (depth + 1) 1
  rootModule := ({} : Register ModuleId).insert (depth + 1) 0

theorem run_deepCalls (depth : Nat) :
    (withMain.run (deepCalls depth)).program = deepProgram depth := by
  have hnested := run_exprStatements (withMain.run [.addType .ofClass "Store",
    .addMethod 0 { name := "Load" }, .addMethod 0 { name := "Run" }, .call none 0 []]) (by decide)
    depth
  rw [run, run] at hnested
  rw [deepCalls, run, List.foldl_append, List.foldl_append, hnested, deepProgram,
    ← size_nestedCall depth]
  rfl

theorem parent?_deepProgram {depth id : Nat} :
    (deepProgram depth).nodes.parent? id = if id ≤ depth then some (id + 1) else none := by
  have hchild : id ∈ (Node.block [some depth]).children ↔ id = depth := by
    simp [Node.children, Node.slots]
  rw [deepProgram, NodeStore.parent?_add, size_nestedCall, parent?_nestedCall]
  by_cases hid : id = depth
  · subst hid
    rw [if_pos ⟨hchild.mpr rfl, Nat.lt_succ_self id⟩, if_pos (Nat.le_refl id)]
  · have hle : id ≤ depth ↔ id < depth := by omega
    rw [if_neg fun h => hid (hchild.mp h.1)]
    simp only [hle]

theorem above?_deepProgram {depth id : Nat} (hops : Nat) (h : id + hops ≤ depth + 1) :
    (deepProgram depth).nodes.above? hops id = some (id + hops) := by
  induction hops with
  | zero => rfl
  | succ hops ih =>
    have hle : id + hops ≤ depth := by omega
    rw [NodeStore.above?, ih (Nat.le_succ_of_le hle), Option.bind_some, parent?_deepProgram,
      if_pos hle, Nat.add_assoc]

theorem get?_deepProgram {depth id : Nat} (h : id ≤ depth) :
    (deepProgram depth).nodes.get? id = (nestedCall depth).get? id := by
  rw [deepProgram, NodeStore.get?_add, size_nestedCall, if_neg (Nat.ne_of_lt (Nat.lt_succ_of_le h))]

theorem boundary?_deepProgram {depth id : Nat} (h : id ≤ depth + 1) :
    (deepProgram depth).boundary? id = none := by
  rw [boundary?]
  obtain hbelow | rfl := Nat.le_succ_iff.mp h
  · rw [get?_deepProgram hbelow, get?_nestedCall hbelow]
    cases id <;> rfl
  · rw [deepProgram, NodeStore.get?_add, size_nestedCall, if_pos rfl]

/-- The call has an enclosing function down to `maxParentHops` hops below the body. -/
theorem enclosingFunction?_deepProgram {depth : Nat} (h : depth < maxParentHops) :
    (deepProgram depth).enclosingFunction? 0 = some (.method 1) := by
  have hparent : (deepProgram depth).nodes.parent? 0 = some 1 := by
    rw [parent?_deepProgram, if_pos (Nat.zero_le depth)]
  refine Option.bind_eq_some_iff.mpr ⟨1, hparent, functionFrom?_eq_method.mpr ?_⟩
  refine ⟨depth, h, depth + 1, ?_, ?_, ?_, ?_⟩
  · rw [above?_deepProgram depth (by omega), Nat.add_comm]
  · rw [parent?_deepProgram, if_neg (Nat.not_succ_le_self depth)]
  · rw [deepProgram, Register.find?_insert, if_pos rfl]
  · intro fewer hle other hother
    rw [above?_deepProgram fewer (by omega)] at hother
    cases hother
    exact boundary?_deepProgram (by omega)

/-- At `maxParentHops` hops below the body the call has an enclosing method and no module. The
search over the whole program finds it, the search in the module of its body does not. -/
theorem run_encloses_in_module_deepCalls :
    (withMain.run (deepCalls 9999)).program = deepProgram 9999 ∧
      (deepProgram 9999).enclosingFunction? 0 = some (.method 1) ∧
      (deepProgram 9999).moduleOf? 0 = none ∧
      (deepProgram 9999).rootModule.find? 10000 = some 0 ∧
      0 ∈ ReferenceSearch.inProgram .solution none (deepProgram 9999) 0 ∧
      0 ∉ ReferenceSearch.inProgram .declaringModule none (deepProgram 9999) 0 := by
  have hencloses : (deepProgram 9999).enclosingFunction? 0 = some (.method 1) :=
    enclosingFunction?_deepProgram (by decide)
  have hcall : (deepProgram 9999).nodes.get? 0 = some (.call none "Load" (some 0) []) :=
    (get?_deepProgram (Nat.zero_le _)).trans (get?_nestedCall (Nat.zero_le _))
  obtain ⟨row, body, hops, hrow, hbody, habove, hpos, hle, hmodule, hfound⟩ :=
    run_encloses_in_module (deepCalls 9999) (run_deepCalls 9999) hencloses
  cases hrow
  cases hbody
  rw [above?_deepProgram hops ((Nat.zero_add hops).symm ▸ hle)] at habove
  obtain rfl : hops = maxParentHops := (Nat.zero_add hops).symm.trans (Option.some.inj habove)
  refine ⟨run_deepCalls 9999, hencloses, hmodule, ?_, ?_, ?_⟩
  · rw [deepProgram, Register.find?_insert, if_pos rfl]
  · refine Conversion.mem_inProgram.mpr ⟨⟨_, hcall, rfl⟩, fun module_ hwithin => ?_⟩
    cases hwithin
  · intro hlisted
    exact Nat.lt_irrefl _ ((hfound _ 0 none 0 hcall rfl rfl).mp hlisted).1

end Builder

end AsyncLift
