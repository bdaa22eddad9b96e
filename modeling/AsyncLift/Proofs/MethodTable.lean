import AsyncLift.Proofs.SettledReferences

/-!
# What a conversion does to the table of methods

`run_outcome` gives the outcome of every conversion that searches within the program. There are
three cases, told apart by which methods are declared: the root is not, all planned methods are, or
some planned method is the first that is not. Apart from nodes, a conversion changes the signatures
of the methods that it has converted, each once, and nothing else.

The signatures are those of `liftedMethods`, and the plan has no method twice; that references to
methods after the point of the stop are untouched is `get?_passAfter`.
-/

namespace AsyncLift.Conversion

/-- The programs differ in their nodes and in the signatures of the listed methods. These have the
suffix at their name, return the completion of what they returned, and are asynchronous if they were
or if they are concrete. -/
structure OnlyLifted (options : Options) (ids : List MethodId) (program result : Program) :
    Prop where
  tables : result = { program with methods := result.methods, nodes := result.nodes }
  size_eq : result.methods.size = program.methods.size
  listed : ∀ id ∈ ids, ∀ method, program.methods[id]? = some method →
    result.methods[id]? = some { method with
      name := method.name ++ options.suffix
      returnType := method.returnType.completion options.taskType
      modifiers := { method.modifiers with
        isAsync := method.modifiers.isAsync || method.kind == .concrete } }
  others : ∀ id, id ∉ ids → result.methods[id]? = program.methods[id]?

variable {options : Options} {search : ReferenceSearch} {program : Program} {root id : MethodId}
  {ids : List MethodId}

theorem lift_eq (method : Method) (options : Options) :
    method.lift options = { method with
      name := method.name ++ options.suffix
      returnType := method.returnType.completion options.taskType
      modifiers := { method.modifiers with
        isAsync := method.modifiers.isAsync || method.kind == .concrete } } := by
  cases hkind : method.kind with
  | concrete => simp [Method.lift, Options.asyncName, hkind]
  | abstract | interfaceMember =>
    simp only [Method.lift, Options.asyncName, hkind]
    congr 1
    exact (congrArg (fun flag => { method.modifiers with isAsync := flag })
      (Bool.or_false _)).symm

theorem passAfter_program (options : Options) (search : ReferenceSearch) (program : Program)
    (root : MethodId) (ids : List MethodId) :
    (passAfter options search program root ids).program =
      { program with
        methods := liftedMethods options program.methods ids
        nodes := (passAfter options search program root ids).program.nodes } :=
  passOver_program options search _ (outset program root) ids

theorem getElem?_passAfter (options : Options) (search : ReferenceSearch) (program : Program)
    (root : MethodId) (hnodup : ids.Nodup) (id : MethodId) :
    (passAfter options search program root ids).program.methods[id]? =
      if id ∈ ids then program.methods[id]?.map (·.lift options) else program.methods[id]? := by
  rw [passAfter_program]
  exact getElem?_liftedMethods options program.methods hnodup id

theorem onlyLifted_passAfter (options : Options) (search : ReferenceSearch) (program : Program)
    (root : MethodId) (hnodup : ids.Nodup) :
    OnlyLifted options ids program (passAfter options search program root ids).program := by
  have hmethods := getElem?_passAfter options search program root hnodup
  refine ⟨?_, ?_, ?_, ?_⟩
  · rw [passAfter_program]
  · rw [passAfter_program]
    exact size_liftedMethods options program.methods ids
  · intro id hid method hmethod
    rw [hmethods, if_pos hid, hmethod, ← lift_eq]
    rfl
  · intro id hid
    rw [hmethods, if_neg hid]

/-- A method goes by its old name until its turn. -/
theorem qualifiedName_passAfter (hnodup : ids.Nodup) (hid : id ∉ ids) :
    (passAfter options search program root ids).program.qualifiedName id =
      program.qualifiedName id := by
  have hlifted := onlyLifted_passAfter options search program root hnodup
  unfold Program.qualifiedName
  rw [hlifted.others id hid, hlifted.tables]

theorem convertedMethods_passAfter (h : ∀ id ∈ ids, program.isDeclared id = true) :
    (passAfter options search program root ids).report.convertedMethods = ids := by
  have hknown : ∀ id ∈ ids, id < (outset program root).program.methods.size :=
    fun id hid => by
      obtain ⟨method, hmethod⟩ := exists_method_of_isDeclared (h id hid)
      exact (Array.getElem?_eq_some_iff.mp hmethod).1
  rw [passAfter, passOver_converted hknown]
  rfl

theorem plan_passAfter (options : Options) (search : ReferenceSearch) (program : Program)
    (root : MethodId) (ids : List MethodId) :
    (passAfter options search program root ids).report.plan = (program.plan root).order :=
  passOver_plan options search _ (outset program root) ids

/-- The outcome of a conversion. It is refused with the program unchanged if the root is not
declared. Otherwise it succeeds if all planned methods are declared, and else it stops at the first
that is not: what is planned before that one is converted, and never the root, and references to
what is planned from there on are untouched. -/
theorem run_outcome (options : Options) (program : Program) (root : MethodId) :
    (program.plan root).order.Nodup ∧
    (program.isDeclared root = false ∧
        run options program root =
          (.error (.unresolvedRoot (program.qualifiedName root)), program) ∨
      program.isDeclared root = true ∧
        (∀ id ∈ (program.plan root).order, program.isDeclared id = true) ∧
        (∃ report result, run options program root = (.ok report, result) ∧
          report.plan = (program.plan root).order ∧
          report.convertedMethods = (program.plan root).order ∧
          OnlyLifted options (program.plan root).order program result) ∨
      program.isDeclared root = true ∧
        (∃ before id after, (program.plan root).order = before ++ id :: after ∧
          (∀ earlier ∈ before, program.isDeclared earlier = true) ∧
          program.isDeclared id = false ∧ root ∉ before ∧
          ∃ result, run options program root =
              (.error (.unresolvedMember id (program.qualifiedName id) before), result) ∧
            OnlyLifted options before program result ∧
            ∀ node reference method, program.nodes.get? node = some reference →
              reference.target? = some method → method ∈ id :: after →
                result.nodes.get? node = some reference)) := by
  refine ⟨program.nodup_plan_order root, ?_⟩
  cases hroot : program.isDeclared root with
  | false => exact .inl ⟨rfl, by rw [run, runWith, hroot]; rfl⟩
  | true =>
    rcases declared_or_first_undeclared program (program.plan root).order with hall | hfirst
    · refine .inr (.inl ⟨rfl, hall, _, _, runWith_of_declared hroot hall, ?_, ?_, ?_⟩)
      · exact plan_passAfter ..
      · exact convertedMethods_passAfter hall
      · exact onlyLifted_passAfter _ _ _ _ (program.nodup_plan_order root)
    · obtain ⟨before, id, after, horder, hbefore, hid⟩ := hfirst
      have hnodup : before.Nodup :=
        (List.nodup_append.mp (Program.nodup_of_plan_order_eq horder)).1
      have hlater : ∀ method ∈ id :: after, method ∉ before := fun method hmethod =>
        Program.not_mem_of_plan_order_eq horder hmethod
      -- The error is made up when the pass stops, from names and methods as they are by then.
      have hrun : run options program root = _ :=
        runWith_of_undeclared hroot horder hbefore hid
      rw [qualifiedName_passAfter hnodup (hlater id List.mem_cons_self),
        convertedMethods_passAfter hbefore] at hrun
      refine .inr (.inr ⟨rfl, before, id, after, horder, hbefore, hid,
        hlater root (Program.root_mem_of_plan_order_eq horder), _, hrun,
        onlyLifted_passAfter _ _ _ _ hnodup, ?_⟩)
      intro node reference method hnode htarget hmethod
      refine get?_passAfter hnode htarget ?_ (hlater method hmethod)
      rw [horder]
      exact List.mem_append_right _ hmethod

end AsyncLift.Conversion
