import AsyncLift.Proofs.SupertypeCycles
import Mathlib.Data.List.Chain

/-!
# Cycles are found exactly

While the search is under way, each type on its path is a supertype of the one after it and what is
still to be looked at are supertypes (`Ascending`). So a type that is met again on the path lies
above itself, and with `not_transGen_inheritsFrom` the search finds a cycle if and only if there is
one.

The search can be driven by a table with one mark for each type and a stack of types in progress,
each with the position among its supertypes that comes next (`searchMarked`). Such a search ends on
every program. It asks for a mark that the table does not have only if some type has a supertype
that is not in the table of types, and where it does not, it comes to the same result as the search
along a path (`searchMarked_eq`).
-/

namespace AsyncLift.Program

variable {program : Program} {type next : TypeId} {done : List TypeId} {path : List Pending}

/-! ## What is met again lies on a cycle -/

/-- Each type on a path is a supertype of the one after it, and what is still to be looked at for a
type are supertypes of it. -/
structure Ascending (program : Program) (path : List Pending) : Prop where
  supertypes : ∀ pending ∈ path, pending.2 ⊆ program.supertypesOf pending.1
  chain : (path.map (·.1)).IsChain fun above below => program.InheritsFrom below above

theorem ascending_singleton (program : Program) (type : TypeId) :
    program.Ascending [(type, program.supertypesOf type)] := by
  refine ⟨fun pending hpending => ?_, List.isChain_singleton _⟩
  rw [List.mem_singleton.mp hpending]
  exact List.Subset.refl _

namespace Ascending

theorem tail {pending : Pending} (h : program.Ascending (pending :: path)) :
    program.Ascending path :=
  ⟨fun other hother => h.supertypes other (List.mem_cons_of_mem _ hother), h.chain.tail⟩

theorem advance {more : List TypeId} (h : program.Ascending ((type, next :: more) :: path)) :
    program.Ascending ((type, more) :: path) := by
  obtain ⟨hfirst, hrest⟩ := List.forall_mem_cons.mp h.supertypes
  exact ⟨List.forall_mem_cons.mpr ⟨(List.cons_subset.mp hfirst).2, hrest⟩, h.chain⟩

theorem inheritsFrom {more : List TypeId} (h : program.Ascending ((type, next :: more) :: path)) :
    program.InheritsFrom type next :=
  h.supertypes _ List.mem_cons_self List.mem_cons_self

theorem push {more : List TypeId} (h : program.Ascending ((type, next :: more) :: path)) :
    program.Ascending ((next, program.supertypesOf next) :: (type, more) :: path) := by
  refine ⟨List.forall_mem_cons.mpr ⟨List.Subset.refl _, h.advance.supertypes⟩, ?_⟩
  exact List.isChain_cons_cons.mpr ⟨h.inheritsFrom, h.chain⟩

/-- The first type of a path is reached from every type on it. -/
theorem reflTransGen {pending : Pending} (h : program.Ascending (pending :: path))
    (hmem : type ∈ (pending :: path).map (·.1)) :
    Relation.ReflTransGen program.InheritsFrom type pending.1 := by
  induction path generalizing pending with
  | nil =>
    rw [List.map_singleton, List.mem_singleton] at hmem
    rw [hmem]
  | cons below path ih =>
    rcases List.mem_cons.mp hmem with rfl | hlater
    · exact .refl
    · have hstep : program.InheritsFrom below.1 pending.1 := (List.isChain_cons_cons.mp h.chain).1
      exact (ih h.tail hlater).tail hstep

end Ascending

/-- A type that the search meets again lies above itself. -/
theorem transGen_of_searchCycle (hpath : program.Ascending path)
    (h : program.searchCycle done path = .error type) :
    Relation.TransGen program.InheritsFrom type type := by
  fun_induction program.searchCycle done path with
  | case1 done => cases h
  | case2 done first path ih => exact ih hpath.tail h
  | case3 done first next more path hmet =>
    have hagain : (first :: path.map (·.1)).contains next = true := by simpa using hmet
    rw [if_pos hagain] at h
    cases h
    exact .tail' (hpath.reflTransGen (List.contains_iff_mem.mp hagain)) hpath.inheritsFrom
  | case4 done first next more path hmet hnext ih =>
    have hagain : ¬ (first :: path.map (·.1)).contains next = true := by simpa using hmet
    rw [if_neg hagain, if_pos hnext] at h
    exact ih hpath.advance h
  | case5 done first next more path hmet hnext ih =>
    have hagain : ¬ (first :: path.map (·.1)).contains next = true := by simpa using hmet
    rw [if_neg hagain, if_neg hnext] at h
    exact ih hpath.push h

/-- The search above the listed types in turn. -/
def searchFrom (program : Program) (starts done : List TypeId) : Except TypeId (List TypeId) :=
  starts.foldlM
    (fun done type =>
      if done.contains type then .ok done
      else program.searchCycle done [(type, program.supertypesOf type)])
    done

theorem searchFrom_cons (program : Program) (start : TypeId) (starts done : List TypeId) :
    program.searchFrom (start :: starts) done =
      if done.contains start then program.searchFrom starts done
      else program.searchCycle done [(start, program.supertypesOf start)] >>=
        program.searchFrom starts := by
  unfold searchFrom
  rw [List.foldlM_cons]
  split <;> rfl

theorem transGen_of_searchFrom {starts : List TypeId}
    (h : program.searchFrom starts done = .error type) :
    Relation.TransGen program.InheritsFrom type type := by
  induction starts generalizing done with
  | nil => cases h
  | cons start starts ih =>
    rw [searchFrom_cons] at h
    split at h
    · exact ih h
    · cases hsearch : program.searchCycle done [(start, program.supertypesOf start)] with
      | ok later =>
        rw [hsearch] at h
        exact ih h
      | error met =>
        rw [hsearch] at h
        cases h
        exact transGen_of_searchCycle (program.ascending_singleton start) hsearch

/-- The search for cycles comes to its end, or it names a type that lies above itself. -/
theorem checkCycles_cases (program : Program) :
    program.checkCycles = .ok () ∧ (∃ done, program.searchCycles = .ok done) ∨
      ∃ type decl, program.searchCycles = .error type ∧ program.types[type]? = some decl ∧
        program.checkCycles = .error (.cyclicInheritance decl.name) ∧
        Relation.TransGen program.InheritsFrom type type := by
  cases hsearch : program.searchCycles with
  | ok done =>
    left
    rw [checkCycles, hsearch]
    exact ⟨rfl, done, rfl⟩
  | error type =>
    right
    have hfrom : program.searchFrom program.typeIds [] = .error type := hsearch
    have hcycle := transGen_of_searchFrom hfrom
    obtain ⟨parent, hparent, -⟩ := Relation.TransGen.head'_iff.mp hcycle
    have hdecl := Array.getElem?_eq_getElem (lt_size_of_inheritsFrom hparent)
    refine ⟨type, _, rfl, hdecl, ?_, hcycle⟩
    rw [checkCycles, hsearch]
    simp only [hdecl, Option.elim_some]

/-! ## A search by marks -/

/-- How far a search has come with a type. -/
inductive Mark where
  | unvisited
  | inProgress
  | done
deriving DecidableEq, Repr

/-- How a search by marks ends. -/
inductive Verdict where
  | acyclic
  /-- The type was met while it was in progress. -/
  | cycle (type : TypeId)
  /-- The table of marks has no place for the type. -/
  | outOfRange (type : TypeId)
deriving DecidableEq, Repr

/-- What the stack stands for: a type, and its supertypes from a position on. -/
def pendingAt (program : Program) (frame : TypeId × Nat) : Pending :=
  (frame.1, (program.supertypesOf frame.1).drop frame.2)

/-- The number of types that are not visited yet. -/
def unvisitedCount (marks : Array Mark) : Nat := marks.count .unvisited

theorem unvisitedCount_le (marks : Array Mark) (type : TypeId) {mark : Mark}
    (hmark : mark ≠ .unvisited) :
    unvisitedCount (marks.setIfInBounds type mark) ≤ unvisitedCount marks := by
  rw [Array.setIfInBounds_def]
  split
  · have hother : ¬ (mark == .unvisited) = true := by simpa using hmark
    rw [unvisitedCount, Array.count_set, if_neg hother, unvisitedCount]
    omega
  · exact Nat.le_refl _

theorem unvisitedCount_lt {marks : Array Mark} {mark : Mark} (h : marks[type]? = some .unvisited)
    (hmark : mark ≠ .unvisited) :
    unvisitedCount (marks.setIfInBounds type mark) < unvisitedCount marks := by
  obtain ⟨hlt, hunvisited⟩ := Array.getElem?_eq_some_iff.mp h
  have hpositive : 0 < marks.count .unvisited := Array.count_pos_iff.mpr (Array.mem_of_getElem? h)
  have hother : ¬ (mark == .unvisited) = true := by simpa using hmark
  rw [Array.setIfInBounds_def, dif_pos hlt, unvisitedCount, Array.count_set, hunvisited,
    if_neg hother, if_pos (beq_self_eq_true _), unvisitedCount]
  omega

/-- Searches for cycles above the types in progress and then above the types to start from. A type
is in progress from when it is met until its supertypes have all been looked at. -/
def searchMarked (program : Program) (marks : Array Mark) :
    (starts : List TypeId) → (stack : List (TypeId × Nat)) → Verdict
  | [], [] => .acyclic
  | start :: starts, [] =>
    match _ : marks[start]? with
    | none => .outOfRange start
    | some .unvisited =>
      program.searchMarked (marks.setIfInBounds start .inProgress) starts [(start, 0)]
    | some _ => program.searchMarked marks starts []
  | starts, (type, position) :: stack =>
    match _ : (program.supertypesOf type)[position]? with
    | none =>
      if type < marks.size then program.searchMarked (marks.setIfInBounds type .done) starts stack
      else .outOfRange type
    | some next =>
      match _ : marks[next]? with
      | none => .outOfRange next
      | some .inProgress => .cycle next
      | some .unvisited =>
        program.searchMarked (marks.setIfInBounds next .inProgress) starts
          ((next, 0) :: (type, position + 1) :: stack)
      | some .done => program.searchMarked marks starts ((type, position + 1) :: stack)
termination_by starts stack =>
  (unvisitedCount marks,
    starts.length + stack.length + (stack.flatMap fun frame => (program.pendingAt frame).2).length)
decreasing_by
  · exact Prod.Lex.left _ _ (unvisitedCount_lt ‹_› nofun)
  · exact Prod.Lex.right _ (by simp)
  · refine Prod.Lex.right' _ (unvisitedCount_le marks type nofun) ?_
    simp only [List.flatMap_cons, List.length_cons, List.length_append]
    omega
  · exact Prod.Lex.left _ _ (unvisitedCount_lt ‹_› nofun)
  · refine Prod.Lex.right _ ?_
    have hlt := (List.getElem?_eq_some_iff.mp ‹_›).1
    simp only [List.flatMap_cons, List.length_cons, List.length_append, pendingAt,
      List.length_drop]
    omega

/-- The search by marks above every type in turn, with no type visited at first. -/
def markedSearch (program : Program) : Verdict :=
  program.searchMarked (Array.replicate program.types.size .unvisited) program.typeIds []

/-- The verdict that a search along a path comes to. -/
def Verdict.ofSearch : Except TypeId (List TypeId) → Verdict
  | .ok _ => .acyclic
  | .error type => .cycle type

/-- Every supertype is in the table of types. -/
def SupertypesKnown (program : Program) : Prop :=
  ∀ type parent, program.InheritsFrom type parent → parent < program.types.size

variable (program) in
/-- The marks tell what a search has done and what it has in progress, and it has nothing twice in
progress. -/
structure MarksTell (marks : Array Mark) (done : List TypeId) (stack : List (TypeId × Nat)) :
    Prop where
  size : marks.size = program.types.size
  mark : ∀ type < program.types.size, marks[type]? =
    some (if type ∈ stack.map (·.1) then .inProgress
      else if type ∈ done then .done else .unvisited)
  known : ∀ type ∈ stack.map (·.1), type < program.types.size
  nodup : (stack.map (·.1)).Nodup

namespace MarksTell

variable {marks : Array Mark} {stack : List (TypeId × Nat)} {position : Nat}

theorem start (program : Program) :
    program.MarksTell (Array.replicate program.types.size .unvisited) [] [] := by
  refine ⟨Array.size_replicate, fun type hlt => ?_, nofun, List.nodup_nil⟩
  rw [Array.getElem?_replicate, if_pos hlt]
  rfl

theorem push (h : program.MarksTell marks done stack) (hlt : type < program.types.size)
    (hnew : type ∉ stack.map (·.1)) (position : Nat) :
    program.MarksTell (marks.setIfInBounds type .inProgress) done ((type, position) :: stack) := by
  refine ⟨by rw [Array.size_setIfInBounds, h.size], fun other hother => ?_,
    List.forall_mem_cons.mpr ⟨hlt, h.known⟩, List.nodup_cons.mpr ⟨hnew, h.nodup⟩⟩
  rw [Array.getElem?_setIfInBounds, h.size, h.mark other hother]
  by_cases heq : type = other
  · simp [← heq, hlt]
  · simp only [heq, if_false, List.map_cons, List.mem_cons, Ne.symm heq, false_or]

theorem finish (h : program.MarksTell marks done ((type, position) :: stack)) :
    program.MarksTell (marks.setIfInBounds type .done) (type :: done) stack := by
  obtain ⟨hlt, hknown⟩ := List.forall_mem_cons.mp h.known
  obtain ⟨hnew, hnodup⟩ := List.nodup_cons.mp h.nodup
  refine ⟨by rw [Array.size_setIfInBounds, h.size], fun other hother => ?_, hknown, hnodup⟩
  rw [Array.getElem?_setIfInBounds, h.size, h.mark other hother]
  by_cases heq : type = other
  · rw [← heq, if_pos rfl, if_pos hlt, if_neg hnew, if_pos List.mem_cons_self]
  · simp only [heq, if_false, List.map_cons, List.mem_cons, Ne.symm heq, false_or]

theorem advance (h : program.MarksTell marks done ((type, position) :: stack)) (later : Nat) :
    program.MarksTell marks done ((type, later) :: stack) :=
  ⟨h.size, h.mark, h.known, h.nodup⟩

theorem mem_of_inProgress (h : program.MarksTell marks done stack)
    (hlt : type < program.types.size) (hmark : marks[type]? = some .inProgress) :
    type ∈ stack.map (·.1) := by
  by_contra hnew
  rw [h.mark type hlt, if_neg hnew] at hmark
  split at hmark <;> cases hmark

theorem not_mem_of_other {mark : Mark} (h : program.MarksTell marks done stack)
    (hlt : type < program.types.size) (hmark : marks[type]? = some mark)
    (hother : mark ≠ .inProgress) :
    type ∉ stack.map (·.1) ∧ (type ∈ done ↔ mark = .done) := by
  have hnew : type ∉ stack.map (·.1) := by
    intro hmem
    rw [h.mark type hlt, if_pos hmem] at hmark
    exact hother (Option.some.inj hmark).symm
  refine ⟨hnew, ?_⟩
  rw [h.mark type hlt, if_neg hnew] at hmark
  by_cases hdone : type ∈ done
  · rw [if_pos hdone] at hmark
    exact ⟨fun _ => (Option.some.inj hmark).symm, fun _ => hdone⟩
  · rw [if_neg hdone] at hmark
    cases hmark
    exact ⟨fun hmem => absurd hmem hdone, nofun⟩

end MarksTell

theorem map_pendingAt (program : Program) (stack : List (TypeId × Nat)) :
    (stack.map program.pendingAt).map (·.1) = stack.map (·.1) := by
  rw [List.map_map]
  rfl

/-- A type all of whose supertypes have been looked at is done. -/
theorem searchCycle_of_looked_at {position : Nat} (stack : List (TypeId × Nat))
    (h : (program.supertypesOf type)[position]? = none) :
    program.searchCycle done (((type, position) :: stack).map program.pendingAt) =
      program.searchCycle (type :: done) (stack.map program.pendingAt) := by
  have hpending : program.pendingAt (type, position) = (type, []) := by
    rw [pendingAt, List.drop_eq_nil_of_le (List.getElem?_eq_none_iff.mp h)]
  rw [List.map_cons, hpending, searchCycle]

/-- The supertype at a position is met again, is done already, or is searched first. -/
theorem searchCycle_of_next {position : Nat} (stack : List (TypeId × Nat))
    (h : (program.supertypesOf type)[position]? = some next) :
    program.searchCycle done (((type, position) :: stack).map program.pendingAt) =
      if next ∈ ((type, position) :: stack).map (·.1) then .error next
      else if next ∈ done then
        program.searchCycle done (((type, position + 1) :: stack).map program.pendingAt)
      else
        program.searchCycle done
          (((next, 0) :: (type, position + 1) :: stack).map program.pendingAt) := by
  have hpending : program.pendingAt (type, position) =
      (type, next :: (program.pendingAt (type, position + 1)).2) := by
    obtain ⟨hlt, rfl⟩ := List.getElem?_eq_some_iff.mp h
    rw [pendingAt, List.drop_eq_getElem_cons hlt]
    rfl
  rw [List.map_cons, hpending, searchCycle, map_pendingAt]
  simp only [List.contains_iff_mem]
  rfl

/-- Marks tell all that the search along a path looks at, and none is missing. -/
theorem searchMarked_eq {marks : Array Mark} {starts : List TypeId} {stack : List (TypeId × Nat)}
    (hknown : program.SupertypesKnown) (hstarts : ∀ start ∈ starts, start < program.types.size)
    (hmarks : program.MarksTell marks done stack) :
    program.searchMarked marks starts stack = .ofSearch
      (program.searchCycle done (stack.map program.pendingAt) >>= program.searchFrom starts) := by
  fun_induction program.searchMarked marks starts stack generalizing done with
  | case1 marks =>
    rw [List.map_nil, searchCycle]
    rfl
  | case2 marks start starts hmark =>
    rw [hmarks.mark start (hstarts start List.mem_cons_self)] at hmark
    cases hmark
  | case3 marks start starts hmark ih =>
    obtain ⟨hlt, hlater⟩ := List.forall_mem_cons.mp hstarts
    obtain ⟨hnew, hdone⟩ := hmarks.not_mem_of_other hlt hmark (by decide)
    have hfresh : ¬ done.contains start = true := by simp [hdone]
    rw [ih hlater (hmarks.push hlt hnew 0), List.map_nil, searchCycle]
    show _ = Verdict.ofSearch (program.searchFrom (start :: starts) done)
    rw [searchFrom_cons, if_neg hfresh]
    rfl
  | case4 marks start starts mark hvisited hmark ih =>
    obtain ⟨hlt, hlater⟩ := List.forall_mem_cons.mp hstarts
    have hother : mark ≠ .inProgress := by
      rintro rfl
      cases hmarks.mem_of_inProgress hlt hmark
    obtain ⟨-, hdone⟩ := hmarks.not_mem_of_other hlt hmark hother
    have hlisted : done.contains start = true := by
      cases mark <;> simp_all
    rw [ih hlater hmarks, List.map_nil, searchCycle]
    show _ = Verdict.ofSearch (program.searchFrom (start :: starts) done)
    rw [searchFrom_cons, if_pos hlisted]
    rfl
  | case5 marks starts type position stack hnext hlt ih =>
    rw [ih hstarts hmarks.finish, searchCycle_of_looked_at stack hnext]
  | case6 marks starts type position stack hnext hlt =>
    rw [hmarks.size] at hlt
    exact absurd (hmarks.known type List.mem_cons_self) hlt
  | case7 marks starts type position stack next hnext hmark =>
    rw [hmarks.mark next (hknown type next (List.mem_of_getElem? hnext))] at hmark
    cases hmark
  | case8 marks starts type position stack next hnext hmark =>
    have hlt := hknown type next (List.mem_of_getElem? hnext)
    rw [searchCycle_of_next stack hnext, if_pos (hmarks.mem_of_inProgress hlt hmark)]
    rfl
  | case9 marks starts type position stack next hnext hmark ih =>
    have hlt := hknown type next (List.mem_of_getElem? hnext)
    obtain ⟨hnew, hdone⟩ := hmarks.not_mem_of_other hlt hmark (by decide)
    rw [ih hstarts ((hmarks.advance (position + 1)).push hlt hnew 0),
      searchCycle_of_next stack hnext, if_neg hnew, if_neg (by simp [hdone])]
  | case10 marks starts type position stack next hnext hmark ih =>
    have hlt := hknown type next (List.mem_of_getElem? hnext)
    obtain ⟨hnew, hdone⟩ := hmarks.not_mem_of_other hlt hmark (by decide)
    rw [ih hstarts (hmarks.advance (position + 1)), searchCycle_of_next stack hnext, if_neg hnew,
      if_pos (hdone.mpr rfl)]

theorem supertypesKnown_of_checkType
    (h : ∀ type ∈ program.types.toList, program.checkType type = .ok ()) :
    program.SupertypesKnown := by
  intro type parent hparent
  obtain ⟨decl, hdecl⟩ : ∃ decl, program.types[type]? = some decl :=
    ⟨_, Array.getElem?_eq_getElem (lt_size_of_inheritsFrom hparent)⟩
  obtain ⟨-, hbase, hinterfaces⟩ :=
    checkType_eq_ok.mp (h decl (Array.mem_toList_iff.mpr (Array.mem_of_getElem? hdecl)))
  rw [InheritsFrom, supertypesOf, hdecl] at hparent
  rcases List.mem_append.mp hparent with hclass | hlisted
  · obtain ⟨row, hrow, -⟩ := checkBaseClass_eq_ok.mp (hbase parent (Option.mem_toList.mp hclass))
    exact (Array.getElem?_eq_some_iff.mp hrow).1
  · obtain ⟨row, hrow, -⟩ := checkInterface_eq_ok.mp (hinterfaces parent hlisted)
    exact (Array.getElem?_eq_some_iff.mp hrow).1

theorem markedSearch_eq (hknown : program.SupertypesKnown) :
    program.markedSearch = .ofSearch program.searchCycles := by
  have hstarts : ∀ start ∈ program.typeIds, start < program.types.size := fun _ hstart =>
    List.mem_range.mp hstart
  rw [markedSearch, searchMarked_eq hknown hstarts (.start program), List.map_nil, searchCycle]
  rfl

/-! ## Validation -/

/-- If all other checks pass, then a program is valid if and only if no type lies above itself, and
the complaint about a program that is not names a type that does. The search by marks has a mark
for every type that it asks for, and comes to the same end. -/
theorem validate_detects_cycles (htypes : program.types.toList.forM program.checkType = .ok ())
    (hmethods : program.checkMethods [] program.methods.toList = .ok ())
    (htargets :
      (program.nodes.entries.toList.forM fun entry => program.checkTarget entry.node) = .ok ()) :
    (program.validate = .ok () ↔
      ∀ type, ¬ Relation.TransGen program.InheritsFrom type type) ∧
    (∀ fault, program.validate = .error fault →
      ∃ type decl, program.types[type]? = some decl ∧ fault = .cyclicInheritance decl.name ∧
        Relation.TransGen program.InheritsFrom type type) ∧
    (program.validate = .ok () ∧ program.markedSearch = .acyclic ∨
      ∃ type decl, program.types[type]? = some decl ∧
        program.validate = .error (.cyclicInheritance decl.name) ∧
        program.markedSearch = .cycle type) := by
  have hvalidate : program.validate = program.checkCycles := by
    rw [validate, htypes, hmethods, htargets]
    rfl
  have hmarked :=
    markedSearch_eq (supertypesKnown_of_checkType fun type => forM_eq_ok.mp htypes type)
  rw [hvalidate]
  rcases program.checkCycles_cases with
    ⟨hok, done, hsearch⟩ | ⟨type, decl, hsearch, hdecl, herror, hcycle⟩
  · rw [hsearch] at hmarked
    rw [hok]
    exact ⟨⟨fun _ => not_transGen_inheritsFrom hok, fun _ => rfl⟩, nofun, .inl ⟨rfl, hmarked⟩⟩
  · rw [hsearch] at hmarked
    rw [herror]
    refine ⟨⟨nofun, fun hacyclic => absurd hcycle (hacyclic type)⟩, fun fault hfault => ?_,
      .inr ⟨type, decl, hdecl, rfl, hmarked⟩⟩
    cases hfault
    exact ⟨type, decl, hdecl, rfl, hcycle⟩

/-- A class that implements two interfaces with a common one above them, which one of them lists
twice. The common one lies below two interfaces that list each other. -/
def entangledSources : Program :=
  (Builder.withMain.run
    [.addType .ofClass "FileSource", .addType .ofInterface "IReader",
      .addType .ofInterface "IWriter", .addType .ofInterface "ISource",
      .addType .ofInterface "IStream", .addType .ofInterface "IBuffer",
      .listInterface 0 1, .listInterface 0 2, .listInterface 1 3, .listInterface 1 3,
      .listInterface 2 3, .listInterface 3 4, .listInterface 4 5, .listInterface 5 4]).program

theorem validate_detects_cycles_entangledSources :
    entangledSources.types.toList.forM entangledSources.checkType = .ok () ∧
      ∃ type decl, entangledSources.types[type]? = some decl ∧
        entangledSources.validate = .error (.cyclicInheritance decl.name) ∧
        Relation.TransGen entangledSources.InheritsFrom type type ∧
        ∃ met, entangledSources.markedSearch = .cycle met := by
  have htypes : entangledSources.types.toList.forM entangledSources.checkType = .ok () := by
    decide +kernel
  obtain ⟨hvalid, hfaults, hmarked⟩ :=
    validate_detects_cycles htypes (by decide +kernel) (by decide +kernel)
  have hstream : entangledSources.InheritsFrom 4 5 := by
    unfold InheritsFrom
    decide +kernel
  have hbuffer : entangledSources.InheritsFrom 5 4 := by
    unfold InheritsFrom
    decide +kernel
  have hinvalid : entangledSources.validate ≠ .ok () := fun hok =>
    hvalid.mp hok 4 (.tail (.single hstream) hbuffer)
  rcases hmarked with ⟨hok, -⟩ | ⟨met, row, -, hfault, hmet⟩
  · exact absurd hok hinvalid
  · obtain ⟨type, decl, hdecl, hname, hcycle⟩ := hfaults _ hfault
    exact ⟨htypes, type, decl, hdecl, hname ▸ hfault, hcycle, met, hmet⟩

end AsyncLift.Program
