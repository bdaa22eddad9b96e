import AsyncLift.Proofs.PassSteps

/-!
# Passes over a list of methods

`Conversion.passOver` converts methods one after another and never stops. A conversion is such a
pass over its plan (`convertAll_eq_ok`), or over the part of the plan in front of the first method
without a declaration (`convertAll_eq_error`).

* `passOver_invariant`: what signature changes and steps keep holds after every pass.
* `passOver_program`: a pass changes signatures and nodes, and nothing else.
* `getElem?_liftedMethods`: each listed method is changed once.
-/

namespace AsyncLift

/-- The methods after the listed ones were made asynchronous in turn. -/
def liftedMethods (options : Options) (methods : Array Method) (ids : List MethodId) :
    Array Method :=
  ids.foldl (fun methods id => methods.modify id (·.lift options)) methods

theorem getElem?_liftedMethods (options : Options) (methods : Array Method) {ids : List MethodId}
    (hnodup : ids.Nodup) (id : MethodId) :
    (liftedMethods options methods ids)[id]? =
      if id ∈ ids then methods[id]?.map (·.lift options) else methods[id]? := by
  induction ids generalizing methods with
  | nil => rfl
  | cons first ids ih =>
    obtain ⟨hfirst, hrest⟩ := List.nodup_cons.mp hnodup
    simp only [liftedMethods, List.foldl_cons] at ih ⊢
    rw [ih _ hrest, Array.getElem?_modify]
    by_cases hid : first = id
    · subst hid
      simp [hfirst]
    · simp [hid, Ne.symm hid]

theorem liftedMethods_concat (options : Options) (methods : Array Method) (ids : List MethodId)
    (id : MethodId) : liftedMethods options methods (ids ++ [id]) =
      (liftedMethods options methods ids).modify id (·.lift options) :=
  List.foldl_append

theorem size_liftedMethods (options : Options) (methods : Array Method) (ids : List MethodId) :
    (liftedMethods options methods ids).size = methods.size := by
  induction ids generalizing methods with
  | nil => rfl
  | cons first ids ih =>
    simp only [liftedMethods, List.foldl_cons] at ih ⊢
    rw [ih, Array.size_modify]

namespace Conversion

open Pass

variable {options : Options} {search : ReferenceSearch} {planned : List MethodId} {pass : Pass}
  {id : MethodId} {ids : List MethodId}

/-- The warrant to settle anything. -/
def anything : Warrant := fun _ _ _ _ => True

/-- The declarations that are scanned when a method is converted. -/
def declarationsOf (program : Program) (id : MethodId) : List DeclId :=
  (program.methods[id]?.map (·.declarations)).getD []

/-- The pass after each listed method was converted. -/
def passOver (options : Options) (search : ReferenceSearch) (planned : List MethodId) (pass : Pass)
    (ids : List MethodId) : Pass :=
  ids.foldl (fun pass id =>
    convertMethod options search planned pass id (declarationsOf pass.program id)) pass

theorem passOver_cons : passOver options search planned pass (id :: ids) =
    passOver options search planned
      (convertMethod options search planned pass id (declarationsOf pass.program id)) ids := rfl

theorem passOver_append (before after : List MethodId) :
    passOver options search planned pass (before ++ after) =
      passOver options search planned (passOver options search planned pass before) after :=
  List.foldl_append

theorem passOver_concat (ids : List MethodId) (id : MethodId) :
    passOver options search planned pass (ids ++ [id]) =
      convertMethod options search planned (passOver options search planned pass ids) id
        (declarationsOf (passOver options search planned pass ids).program id) :=
  passOver_append ids [id]

/-! ## Invariants -/

theorem convertMethod_steps_anything (options : Options) (search : ReferenceSearch)
    (planned : List MethodId) (pass : Pass) (id : MethodId) (declarations : List DeclId) :
    Steps anything (pass.lift options id)
      (convertMethod options search planned pass id declarations) :=
  convertMethod_steps (fun _ _ _ _ => trivial) (fun _ _ _ _ _ _ _ => trivial) declarations

theorem retargetSites_steps_anything {sites : List CallSite}
    (hknown : ∀ site ∈ sites, site.node < pass.program.nodes.size) :
    Steps anything pass (sites.foldl retargetSite pass) := by
  refine retargetSites_steps fun site hsite _ => ?_
  obtain ⟨reference, hnode⟩ := NodeStore.exists_get? (hknown site hsite)
  exact ⟨reference, hnode, trivial⟩

theorem retargetBodies_steps_anything (options : Options) (planned : List MethodId) (pass : Pass)
    (declarations : List DeclId) :
    Steps anything pass (declarations.foldl
      (fun pass declaration => pass.retargetBody options planned declaration) pass) :=
  retargetBodies_steps (fun _ _ _ _ _ _ _ => trivial) declarations

/-- What every signature change and every step keeps holds after a pass if it held before. -/
theorem passOver_invariant {Inv : Pass → Prop}
    (hlift : ∀ pass id, Inv pass → Inv (pass.lift options id))
    (hstep : ∀ pass pass', Step anything pass pass' → Inv pass → Inv pass')
    (hpass : Inv pass) (ids : List MethodId) :
    Inv (passOver options search planned pass ids) := by
  induction ids generalizing pass with
  | nil => exact hpass
  | cons id ids ih =>
    -- Converting a method is one signature change and then steps.
    have hsteps := convertMethod_steps_anything options search planned pass id
      (declarationsOf pass.program id)
    exact ih (hsteps.invariant hstep (hlift pass id hpass))

/-! ## The tables after a pass -/

theorem convertMethod_program (options : Options) (search : ReferenceSearch)
    (planned : List MethodId) (pass : Pass) (id : MethodId) (declarations : List DeclId) :
    (convertMethod options search planned pass id declarations).program =
      { pass.program with
        methods := pass.program.methods.modify id (·.lift options)
        nodes := (convertMethod options search planned pass id declarations).program.nodes } := by
  have hsteps := convertMethod_steps_anything options search planned pass id declarations
  rw [hsteps.program_eq, lift_program]

theorem passOver_program (options : Options) (search : ReferenceSearch) (planned : List MethodId)
    (pass : Pass) (ids : List MethodId) :
    (passOver options search planned pass ids).program =
      { pass.program with
        methods := liftedMethods options pass.program.methods ids
        nodes := (passOver options search planned pass ids).program.nodes } := by
  induction ids generalizing pass with
  | nil => rfl
  | cons id ids ih =>
    rw [passOver_cons, ih, convertMethod_program]
    rfl

theorem passOver_plan (options : Options) (search : ReferenceSearch) (planned : List MethodId)
    (pass : Pass) (ids : List MethodId) :
    (passOver options search planned pass ids).report.plan = pass.report.plan := by
  let Inv : Pass → Prop := fun pass' => pass'.report.plan = pass.report.plan
  have hlift : ∀ pass' id, Inv pass' → Inv (pass'.lift options id) := by
    intro pass' id h
    unfold lift
    split <;> exact h
  exact passOver_invariant hlift (fun _ _ step h => step.plan_eq.trans h) rfl ids

/-- The report lists the methods of the pass in the order of their conversion. -/
theorem passOver_converted (hknown : ∀ id ∈ ids, id < pass.program.methods.size) :
    (passOver options search planned pass ids).report.convertedMethods =
      pass.report.convertedMethods ++ ids := by
  induction ids generalizing pass with
  | nil => exact (List.append_nil _).symm
  | cons id ids ih =>
    have hmethod := Array.getElem?_eq_getElem (hknown id List.mem_cons_self)
    have hsteps := convertMethod_steps_anything options search planned pass id
      (declarationsOf pass.program id)
    have hfirst : (convertMethod options search planned pass id
        (declarationsOf pass.program id)).report.convertedMethods =
          pass.report.convertedMethods ++ [id] := by
      rw [Report.convertedMethods, hsteps.converted_eq, ← Report.convertedMethods,
        lift_converted hmethod]
    rw [passOver_cons, ih, hfirst, List.append_assoc, List.singleton_append]
    intro later hlater
    rw [convertMethod_program]
    simpa using hknown later (List.mem_cons_of_mem _ hlater)

/-! ## Where a conversion stops -/

theorem declarationsOf_eq_nil {program : Program} (h : program.isDeclared id = false) :
    declarationsOf program id = [] := by
  unfold Program.isDeclared at h
  unfold declarationsOf
  cases hmethod : program.methods[id]? with
  | none => rfl
  | some method =>
    rw [hmethod] at h
    simpa [Method.isDeclared] using h

theorem declarationsOf_ne_nil {program : Program} (h : program.isDeclared id = true) :
    declarationsOf program id ≠ [] := by
  unfold Program.isDeclared at h
  unfold declarationsOf
  cases hmethod : program.methods[id]? with
  | none =>
    rw [hmethod] at h
    cases h
  | some method =>
    rw [hmethod] at h
    simpa [Method.isDeclared] using h

theorem exists_method_of_isDeclared {program : Program} (h : program.isDeclared id = true) :
    ∃ method, program.methods[id]? = some method := by
  unfold Program.isDeclared at h
  cases hmethod : program.methods[id]? with
  | none =>
    rw [hmethod] at h
    cases h
  | some method => exact ⟨method, rfl⟩

/-- A pass gives no method a declaration and takes none away. -/
theorem isDeclared_convertMethod (declarations : List DeclId) (other : MethodId) :
    (convertMethod options search planned pass id declarations).program.isDeclared other =
      pass.program.isDeclared other := by
  rw [convertMethod_program]
  simp only [Program.isDeclared, Array.getElem?_modify]
  by_cases hother : id = other
  · rw [if_pos hother]
    cases pass.program.methods[other]? <;> rfl
  · rw [if_neg hother]

theorem convertAll_eq_ok (h : ∀ id ∈ ids, pass.program.isDeclared id = true) :
    convertAll options search planned pass ids =
      (.ok (passOver options search planned pass ids).report,
        (passOver options search planned pass ids).program) := by
  induction ids generalizing pass with
  | nil => rfl
  | cons id ids ih =>
    have hne := declarationsOf_ne_nil (h id List.mem_cons_self)
    rw [passOver_cons, ← ih fun later hlater => by
      rw [isDeclared_convertMethod]
      exact h later (List.mem_cons_of_mem _ hlater)]
    rw [convertAll]
    split
    · exact absurd ‹_› hne
    · rfl

/-- The conversion stops in front of the first method without a declaration. -/
theorem convertAll_eq_error {rest : List MethodId}
    (h : ∀ id ∈ ids, pass.program.isDeclared id = true)
    (hid : pass.program.isDeclared id = false) :
    convertAll options search planned pass (ids ++ id :: rest) =
      (.error (.unresolvedMember id
          ((passOver options search planned pass ids).program.qualifiedName id)
          (passOver options search planned pass ids).report.convertedMethods),
        (passOver options search planned pass ids).program) := by
  induction ids generalizing pass with
  | nil =>
    have hnil := declarationsOf_eq_nil hid
    rw [List.nil_append, convertAll]
    split
    · rfl
    · exact absurd hnil ‹_›
  | cons first ids ih =>
    have hne := declarationsOf_ne_nil (h first List.mem_cons_self)
    rw [passOver_cons, ← ih (fun later hlater => by
      rw [isDeclared_convertMethod]
      exact h later (List.mem_cons_of_mem _ hlater))
      (by rw [isDeclared_convertMethod]; exact hid)]
    rw [List.cons_append, convertAll]
    split
    · exact absurd ‹_› hne
    · rfl

/-! ## Conversions -/

/-- The pass of a conversion before any method is converted. -/
def outset (program : Program) (root : MethodId) : Pass where
  program := program
  report := { plan := (program.plan root).order }

/-- The pass of a conversion after the listed methods of its plan were converted. -/
def passAfter (options : Options) (search : ReferenceSearch) (program : Program) (root : MethodId)
    (ids : List MethodId) : Pass :=
  passOver options search (program.plan root).order (outset program root) ids

variable {program final : Program} {root : MethodId} {report : Report}

theorem runWith_of_declared (hroot : program.isDeclared root = true)
    (hall : ∀ id ∈ (program.plan root).order, program.isDeclared id = true) :
    runWith options search program root =
      (.ok (passAfter options search program root (program.plan root).order).report,
        (passAfter options search program root (program.plan root).order).program) := by
  rw [runWith, if_pos hroot]
  exact convertAll_eq_ok hall

theorem runWith_of_undeclared {before after : List MethodId}
    (hroot : program.isDeclared root = true)
    (horder : (program.plan root).order = before ++ id :: after)
    (hbefore : ∀ id ∈ before, program.isDeclared id = true)
    (hid : program.isDeclared id = false) :
    runWith options search program root =
      (.error (.unresolvedMember id
          ((passAfter options search program root before).program.qualifiedName id)
          (passAfter options search program root before).report.convertedMethods),
        (passAfter options search program root before).program) := by
  have herror : convertAll options search (program.plan root).order (outset program root)
      (before ++ id :: after) = _ := convertAll_eq_error hbefore hid
  rw [← horder] at herror
  rw [runWith, if_pos hroot]
  exact herror

/-- Either all listed methods are declared, or there is a first one that is not. -/
theorem declared_or_first_undeclared (program : Program) (ids : List MethodId) :
    (∀ id ∈ ids, program.isDeclared id = true) ∨
      ∃ before id after, ids = before ++ id :: after ∧
        (∀ id ∈ before, program.isDeclared id = true) ∧ program.isDeclared id = false := by
  cases hfind : ids.find? (fun id => !program.isDeclared id) with
  | none => exact .inl fun id hid => by simpa using List.find?_eq_none.mp hfind id hid
  | some id =>
    obtain ⟨hid, before, after, hids, hbefore⟩ := List.find?_eq_some_iff_append.mp hfind
    exact .inr ⟨before, id, after, hids, fun id hid => by simpa using hbefore id hid,
      by simpa using hid⟩

/-- A conversion that succeeds has gone over its whole plan. -/
theorem passAfter_of_runWith_ok
    (hrun : runWith options search program root = (.ok report, final)) :
    (∀ id ∈ (program.plan root).order, program.isDeclared id = true) ∧
      report = (passAfter options search program root (program.plan root).order).report ∧
      final = (passAfter options search program root (program.plan root).order).program := by
  cases hroot : program.isDeclared root with
  | false =>
    rw [runWith, hroot] at hrun
    cases hrun
  | true =>
    rcases declared_or_first_undeclared program (program.plan root).order with hall | hfirst
    · rw [runWith_of_declared hroot hall] at hrun
      cases hrun
      exact ⟨hall, rfl, rfl⟩
    · obtain ⟨before, id, after, horder, hbefore, hid⟩ := hfirst
      rw [runWith_of_undeclared hroot horder hbefore hid] at hrun
      cases hrun

end Conversion

end AsyncLift
