import AsyncLift.Program.Basic

/-!
# Supertypes

* `Program.ancestors`: the types above a type, nearest first.
* `Program.checkCycles`: refuses a program in which a type lies above itself.

Both walk along `Program.supertypesOf` and end on every program, also one with cycles or with ids
that lead nowhere: the first type that is new to a walk is taken off a finite stock.
-/

namespace AsyncLift.Program

/-! ## A stock of types -/

/-- The types of the table that a walk has not met, `met` telling which it has. -/
def unmet (program : Program) (met : TypeId → Bool) : List TypeId :=
  program.typeIds.filter fun type => !met type

variable {program : Program}

theorem unmet_length_le {met met' : TypeId → Bool} (h : ∀ t, met t = true → met' t = true) :
    (program.unmet met').length ≤ (program.unmet met).length := by
  simp only [unmet, ← List.countP_eq_length_filter]
  refine List.countP_mono_left fun t _ ht => ?_
  cases hm : met t
  · rfl
  · simp [h t hm] at ht

/-- Meeting a type of the table makes the stock smaller. -/
theorem unmet_length_lt {met met' : TypeId → Bool} {type : TypeId}
    (hsize : type < program.types.size) (hnew : met type = false) (hmet : met' type = true)
    (h : ∀ t, met t = true → met' t = true) :
    (program.unmet met').length < (program.unmet met).length := by
  have hsub : program.unmet met' = (program.unmet met).filter fun t => !met' t := by
    simp only [unmet, List.filter_filter]
    refine List.filter_congr fun t _ => ?_
    cases hm : met t
    · simp
    · simp [h t hm]
  have hmem : type ∈ program.unmet met := by simp [unmet, typeIds, hsize, hnew]
  rw [hsub, List.length_filter_lt_length_iff_exists]
  exact ⟨type, hmem, by simp [hmet]⟩

theorem supertypesOf_eq_nil {type : TypeId} (h : ¬ type < program.types.size) :
    program.supertypesOf type = [] := by
  simp [supertypesOf, Array.getElem?_eq_none (Nat.le_of_not_lt h)]

/-! ## Ancestors -/

/-- Takes types off the front of a queue, lists those that are new, and puts their supertypes at its
end. The types listed so far are in `seen`, last first. -/
def spread (program : Program) (seen : List TypeId) : (queue : List TypeId) → List TypeId
  | [] => seen.reverse
  | type :: queue =>
    if seen.contains type then program.spread seen queue
    else program.spread (type :: seen) (queue ++ program.supertypesOf type)
termination_by queue => ((program.unmet seen.contains).length, queue.length)
decreasing_by
  · exact Prod.Lex.right _ (by simp)
  · have hmono : ∀ t, seen.contains t = true → (type :: seen).contains t = true := by simp_all
    by_cases hsize : type < program.types.size
    · exact Prod.Lex.left _ _ (unmet_length_lt hsize (by simp_all) (by simp) hmono)
    · refine Prod.Lex.right' _ (unmet_length_le hmono) ?_
      simp [supertypesOf_eq_nil hsize]

/-- The types that are reached from a type by supertypes, nearest first. The type itself is among
them only if it lies above itself. -/
def ancestors (program : Program) (type : TypeId) : List TypeId :=
  program.spread [] (program.supertypesOf type)

/-! ## Cycles -/

/-- A type that is being searched, and the supertypes of it that are still to be looked at. -/
abbrev Pending := TypeId × List TypeId

/-- Searches for a cycle above the first type of a path, on which each type is a supertype of the
one after it. The types in `done` are known to have no cycle above them. The result is those types
and what the search went through, or a type that was met again on its own path. -/
def searchCycle (program : Program) (done : List TypeId) :
    (path : List Pending) → Except TypeId (List TypeId)
  | [] => .ok done
  | (type, []) :: path => program.searchCycle (type :: done) path
  | (type, next :: more) :: path =>
    if (type :: path.map (·.1)).contains next then .error next
    else if done.contains next then program.searchCycle done ((type, more) :: path)
    else program.searchCycle done ((next, program.supertypesOf next) :: (type, more) :: path)
termination_by path =>
  ((program.unmet fun t => done.contains t || (path.map (·.1)).contains t).length,
    path.length + 2 * (path.flatMap (·.2)).length)
decreasing_by
  · refine Prod.Lex.right' _ (unmet_length_le fun t ht => ?_)
      (by simp only [List.flatMap_cons, List.length_cons, List.length_append]; omega)
    simp at ht ⊢
    rcases ht with ht | ht | ht <;> simp [ht]
  · exact Prod.Lex.right _ (by
      simp only [List.flatMap_cons, List.length_cons, List.length_append]
      omega)
  · have hmono : ∀ t, (done.contains t || (((type, next :: more) :: path).map (·.1)).contains t) =
        true → (done.contains t ||
          (((next, program.supertypesOf next) :: (type, more) :: path).map (·.1)).contains t) =
        true := by
      intro t ht
      simp at ht ⊢
      rcases ht with ht | ht | ht <;> simp [ht]
    by_cases hsize : next < program.types.size
    · exact Prod.Lex.left _ _ (unmet_length_lt hsize (by simp_all) (by simp) hmono)
    · refine Prod.Lex.right' _ (unmet_length_le hmono) ?_
      simp only [List.flatMap_cons, supertypesOf_eq_nil hsize, List.nil_append, List.length_cons,
        List.length_append]
      omega

/-- Searches above every type in turn. -/
def searchCycles (program : Program) : Except TypeId (List TypeId) :=
  program.typeIds.foldlM
    (fun done type =>
      if done.contains type then .ok done
      else program.searchCycle done [(type, program.supertypesOf type)])
    []

/-- Refuses a program in which some type lies above itself. -/
def checkCycles (program : Program) : Except ProgramError Unit :=
  match program.searchCycles with
  | .ok _ => .ok ()
  | .error type =>
    .error (.cyclicInheritance (program.types[type]?.elim s!"TypeId#{type}" (·.name)))

end AsyncLift.Program
