import AsyncLift.Program.Builder
import AsyncLift.Proofs.NodeStore
import AsyncLift.Proofs.OverrideTargets

/-!
# What validity depends on

A program is valid if four checks pass (`validate_eq_ok`), and each of them looks at little: the
check of types and the search for cycles at the tables of modules and types, the check of methods at
owners and keys, and the check of references at the number of methods. So signatures and nodes may
change as long as owners and keys stay and references lead to methods (`validate_of_changes`).
-/

namespace AsyncLift

/-- A check passes on a list if it passes on each element. -/
theorem forM_eq_ok {α ε : Type} {check : α → Except ε Unit} {xs : List α} :
    xs.forM check = .ok () ↔ ∀ x ∈ xs, check x = .ok () := by
  induction xs with
  | nil => simp [List.forM, pure, Except.pure]
  | cons x xs ih =>
    rw [List.forM]
    cases hx : check x with
    | error fault => simp [hx, bind, Except.bind]
    | ok _ =>
      simp only [List.forall_mem_cons, hx, true_and]
      exact ih

/-- A builder hands out the program that it has made, if that is valid. -/
theorem Builder.finish_eq_ok {builder : Builder} {program : Program} :
    builder.finish = .ok program ↔
      builder.program.validate = .ok () ∧ builder.program = program := by
  unfold finish
  cases builder.program.validate <;> simp [bind, Except.bind, pure, Except.pure]

namespace Program

variable {program later : Program}

/-- References lead to known methods. -/
def TargetsKnown (program : Program) : Prop :=
  ∀ id node target, program.nodes.get? id = some node → node.target? = some target →
    target < program.methods.size

theorem checkTarget_eq_ok {node : Node} : program.checkTarget node = .ok () ↔
    ∀ target, node.target? = some target → target < program.methods.size := by
  unfold checkTarget
  cases node.target? with
  | none => simp
  | some target => by_cases hknown : target < program.methods.size <;> simp [hknown]

theorem checkTargets_eq_ok :
    (program.nodes.entries.toList.forM fun entry => program.checkTarget entry.node) = .ok () ↔
      program.TargetsKnown := by
  simp only [forM_eq_ok, checkTarget_eq_ok, TargetsKnown, NodeStore.get?]
  constructor
  · intro h id node target hnode htarget
    obtain ⟨entry, hentry, rfl⟩ := Option.map_eq_some_iff.mp hnode
    exact h entry (Array.mem_toList_iff.mpr (Array.mem_of_getElem? hentry)) target htarget
  · intro h entry hentry target htarget
    obtain ⟨id, hid⟩ := Array.mem_iff_getElem?.mp (Array.mem_toList_iff.mp hentry)
    exact h id entry.node target (by rw [hid, Option.map_some]) htarget

theorem validate_eq_ok : program.validate = .ok () ↔
    (∀ type ∈ program.types.toList, program.checkType type = .ok ()) ∧
      program.checkMethods [] program.methods.toList = .ok () ∧
      program.TargetsKnown ∧ program.checkCycles = .ok () := by
  rw [← forM_eq_ok, ← checkTargets_eq_ok]
  unfold validate
  cases program.types.toList.forM program.checkType with
  | error fault => simp [bind, Except.bind]
  | ok _ =>
    cases program.checkMethods [] program.methods.toList with
    | error fault => simp [bind, Except.bind]
    | ok _ =>
      cases program.nodes.entries.toList.forM fun entry => program.checkTarget entry.node with
      | error fault => simp [bind, Except.bind]
      | ok _ => simp [bind, Except.bind]

/-! ## What the check of a type asks for -/

theorem checkBaseClass_eq_ok {type : TypeDecl} {base : TypeId} :
    program.checkBaseClass type base = .ok () ↔ ∃ parent, program.types[base]? = some parent ∧
      type.kind = .ofClass ∧ parent.kind = .ofClass := by
  unfold checkBaseClass
  cases program.types[base]? with
  | none => simp
  | some parent => by_cases hkinds : type.kind = .ofClass ∧ parent.kind = .ofClass <;> simp [hkinds]

theorem checkInterface_eq_ok {type : TypeDecl} {interface : TypeId} :
    program.checkInterface type interface = .ok () ↔
      ∃ parent, program.types[interface]? = some parent ∧ parent.kind = .ofInterface := by
  unfold checkInterface
  cases program.types[interface]? with
  | none => simp
  | some parent => by_cases hkind : parent.kind = .ofInterface <;> simp [hkind]

theorem checkType_eq_ok {type : TypeDecl} : program.checkType type = .ok () ↔
    type.declaredIn < program.modules.size ∧
      (∀ base, type.baseClass = some base → program.checkBaseClass type base = .ok ()) ∧
      ∀ interface ∈ type.interfaces, program.checkInterface type interface = .ok () := by
  have hbases : type.baseClass.forM (program.checkBaseClass type) = .ok () ↔
      ∀ base, type.baseClass = some base → program.checkBaseClass type base = .ok () := by
    cases type.baseClass with
    | none => simp [pure, Except.pure]
    | some base => simp
  rw [← hbases, ← forM_eq_ok]
  unfold checkType
  by_cases hmodule : program.modules.size ≤ type.declaredIn
  · simp [hmodule, throw, throwThe, MonadExceptOf.throw, bind, Except.bind]
  · cases type.baseClass.forM (program.checkBaseClass type) with
    | error fault => simp [hmodule, bind, Except.bind]
    | ok _ => simp [hmodule, bind, Except.bind, Nat.lt_of_not_le hmodule]

/-! ## Programs with the same types -/

theorem checkType_congr (hmodules : later.modules = program.modules)
    (htypes : later.types = program.types) (type : TypeDecl) :
    later.checkType type = program.checkType type := by
  have hbase : later.checkBaseClass type = program.checkBaseClass type := by
    funext base
    simp only [checkBaseClass, htypes]
  have hinterface : later.checkInterface type = program.checkInterface type := by
    funext interface
    simp only [checkInterface, htypes]
  simp only [checkType, hmodules, hbase, hinterface]

theorem searchCycle_congr (htypes : later.types = program.types) (done : List TypeId)
    (path : List Pending) : later.searchCycle done path = program.searchCycle done path := by
  fun_induction program.searchCycle done path with
  | case1 done => rw [searchCycle]
  | case2 done type path ih => rw [searchCycle, ih]
  | case3 done type next more path hmet =>
    have hpath : (type :: path.map (·.1)).contains next = true := by simpa using hmet
    rw [searchCycle, if_pos hpath, if_pos hpath]
  | case4 done type next more path hmet hdone ih =>
    have hpath : ¬ (type :: path.map (·.1)).contains next = true := by simpa using hmet
    rw [searchCycle, if_neg hpath, if_pos hdone, ih, if_neg hpath, if_pos hdone]
  | case5 done type next more path hmet hdone ih =>
    have hpath : ¬ (type :: path.map (·.1)).contains next = true := by simpa using hmet
    rw [searchCycle, if_neg hpath, if_neg hdone, supertypesOf_congr htypes, ih, if_neg hpath,
      if_neg hdone]

theorem checkCycles_congr (htypes : later.types = program.types) :
    later.checkCycles = program.checkCycles := by
  have hsearch : later.searchCycles = program.searchCycles := by
    simp only [searchCycles, typeIds, htypes, supertypesOf_congr htypes, searchCycle_congr htypes]
  simp only [checkCycles, hsearch, htypes]

theorem searchCycle_of_done {done parents : List TypeId} {type : TypeId}
    (h : ∀ parent ∈ parents, parent ∈ done ∧ parent ≠ type) :
    program.searchCycle done [(type, parents)] = .ok (type :: done) := by
  induction parents with
  | nil => simp [searchCycle]
  | cons parent parents ih =>
    obtain ⟨⟨hdone, hne⟩, hrest⟩ := List.forall_mem_cons.mp h
    simp [searchCycle, hdone, hne, ih hrest]

/-- There is no cycle if every type inherits from types in front of it. -/
theorem checkCycles_of_ordered
    (h : ∀ type ∈ program.typeIds, ∀ parent ∈ program.supertypesOf type, parent < type) :
    program.checkCycles = .ok () := by
  -- When the search comes to a type it is done with all types in front of it.
  have hsearch : ∀ count ≤ program.types.size,
      ∃ done, (List.range count).foldlM (fun done type =>
        if done.contains type then Except.ok done
        else program.searchCycle done [(type, program.supertypesOf type)]) [] = .ok done ∧
          ∀ type < count, type ∈ done := by
    intro count hcount
    induction count with
    | zero => exact ⟨[], rfl, fun _ hlt => absurd hlt (Nat.not_lt_zero _)⟩
    | succ count ih =>
      obtain ⟨done, hfold, hall⟩ := ih (Nat.le_of_succ_le hcount)
      rw [List.range_succ, List.foldlM_append, hfold]
      have hparents : ∀ parent ∈ program.supertypesOf count, parent ∈ done ∧ parent ≠ count := by
        intro parent hparent
        have hlt := h count (List.mem_range.mpr hcount) parent hparent
        exact ⟨hall parent hlt, Nat.ne_of_lt hlt⟩
      by_cases hmet : count ∈ done
      · refine ⟨done, by simp [hmet, bind, Except.bind, pure, Except.pure], fun type htype => ?_⟩
        rcases Nat.lt_succ_iff_lt_or_eq.mp htype with hlt | rfl
        · exact hall type hlt
        · exact hmet
      · refine ⟨count :: done, ?_, fun type htype => ?_⟩
        · simp [hmet, searchCycle_of_done hparents, bind, Except.bind, pure, Except.pure]
        · rcases Nat.lt_succ_iff_lt_or_eq.mp htype with hlt | rfl
          · exact List.mem_cons_of_mem _ (hall type hlt)
          · exact List.mem_cons_self
  obtain ⟨done, hdone, -⟩ := hsearch program.types.size (Nat.le_refl _)
  have hall : program.searchCycles = .ok done := hdone
  rw [checkCycles, hall]

/-! ## Methods -/

/-- What the check of methods looks at. -/
def ownersAndKeys (methods : List Method) : List (TypeId × Option String) :=
  methods.map fun method => (method.owner, method.key)

theorem checkMethods_congr (htypes : later.types = program.types) {methods methods' : List Method}
    (h : ownersAndKeys methods' = ownersAndKeys methods) (keys : List String) :
    later.checkMethods keys methods' = program.checkMethods keys methods := by
  induction methods generalizing methods' keys with
  | nil =>
    rw [List.map_eq_nil_iff.mp h]
    rfl
  | cons method methods ih =>
    cases methods' with
    | nil => cases h
    | cons method' methods' =>
      obtain ⟨hfirst, hrest⟩ := List.cons_eq_cons.mp h
      obtain ⟨howner, hkey⟩ := Prod.mk.inj hfirst
      simp only [checkMethods, htypes, howner, hkey]
      split
      · rfl
      · split
        · exact ih hrest keys
        · split
          · rfl
          · exact ih hrest _

/-- A valid program stays valid if only signatures and nodes change, apart from owners and keys, and
references lead to methods. -/
theorem validate_of_changes (hmodules : later.modules = program.modules)
    (htypes : later.types = program.types)
    (hmethods : ownersAndKeys later.methods.toList = ownersAndKeys program.methods.toList)
    (htargets : later.TargetsKnown) (h : program.validate = .ok ()) : later.validate = .ok () := by
  obtain ⟨htype, hmethod, -, hcycles⟩ := validate_eq_ok.mp h
  refine validate_eq_ok.mpr ⟨?_, ?_, htargets, ?_⟩
  · intro type hmem
    rw [htypes] at hmem
    rw [checkType_congr hmodules htypes]
    exact htype type hmem
  · rw [checkMethods_congr htypes hmethods]
    exact hmethod
  · rw [checkCycles_congr htypes]
    exact hcycles

end Program

end AsyncLift
