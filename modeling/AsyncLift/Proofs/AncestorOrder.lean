import AsyncLift.Proofs.Counterparts
import AsyncLift.Proofs.SupertypeCycles
import Mathlib.Order.Lattice.Nat

/-!
# The types above a type, nearest first

The queue of the walk along supertypes may hold a type many times, and a type is listed when it is
taken off the queue for the first time. The queue goes over two distances at most: in front are
types reached by so many steps, behind them types reached by one step more, and whatever is nearer
is listed already (`Front`). So what is new at the front of the queue lies at just that distance.

`ancestors_nearest_first`: the types above a type are listed once each and by distance, on every
program. The search for a counterpart stops at the first type of that list with a member of the
name, whatever rule it then goes by.
-/

namespace AsyncLift.Program

variable {program : Program} {origin type above : TypeId} {steps : Nat}
  {seen near far queue : List TypeId}

/-! ## Distances -/

/-- The second type is reached from the first by so many steps to a supertype. -/
def InheritsIn (program : Program) : (steps : Nat) → (type above : TypeId) → Prop
  | 0, type, above => type = above
  | steps + 1, type, above =>
    ∃ below, program.InheritsIn steps type below ∧ program.InheritsFrom below above

/-- The least number of steps, one or more, that lead from a type up to another one. -/
noncomputable def distance (program : Program) (type above : TypeId) : Nat :=
  sInf {steps | 0 < steps ∧ program.InheritsIn steps type above}

/-- The shortest way up from the one type to the other has so many steps. -/
def LiesAt (program : Program) (steps : Nat) (type above : TypeId) : Prop :=
  IsLeast {steps | 0 < steps ∧ program.InheritsIn steps type above} steps

theorem LiesAt.distance_eq (h : program.LiesAt steps type above) :
    program.distance type above = steps := h.csInf_eq

theorem InheritsIn.liesAt (h : program.InheritsIn steps type above) (hpositive : 0 < steps) :
    program.LiesAt (program.distance type above) type above ∧
      program.distance type above ≤ steps :=
  ⟨⟨Nat.sInf_mem ⟨steps, hpositive, h⟩, fun _ hother => Nat.sInf_le hother⟩,
    Nat.sInf_le ⟨hpositive, h⟩⟩

theorem inheritsIn_one (h : program.InheritsFrom type above) : program.InheritsIn 1 type above :=
  ⟨type, rfl, h⟩

theorem InheritsIn.transGen (h : program.InheritsIn (steps + 1) type above) :
    Relation.TransGen program.InheritsFrom type above := by
  induction steps generalizing above with
  | zero =>
    obtain ⟨below, rfl, hstep⟩ := h
    exact .single hstep
  | succ steps ih =>
    obtain ⟨below, hbelow, hstep⟩ := h
    exact .tail (ih hbelow) hstep

theorem exists_liesAt_iff : (∃ steps, program.LiesAt steps type above) ↔
    Relation.TransGen program.InheritsFrom type above := by
  constructor
  · rintro ⟨steps, ⟨hpositive, hsteps⟩, -⟩
    obtain ⟨fewer, rfl⟩ := Nat.exists_eq_succ_of_ne_zero (Nat.pos_iff_ne_zero.mp hpositive)
    exact hsteps.transGen
  · intro h
    suffices ∃ steps, 0 < steps ∧ program.InheritsIn steps type above by
      obtain ⟨steps, hpositive, hsteps⟩ := this
      exact ⟨_, (hsteps.liesAt hpositive).1⟩
    induction h with
    | single hstep => exact ⟨1, Nat.one_pos, inheritsIn_one hstep⟩
    | tail _ hstep ih =>
      obtain ⟨steps, -, hsteps⟩ := ih
      exact ⟨steps + 1, Nat.succ_pos _, _, hsteps, hstep⟩

/-- A shortest way of more than one step is a shortest way with one step more. -/
theorem LiesAt.exists_below (h : program.LiesAt (steps + 1) type above) (hpositive : 0 < steps) :
    ∃ below, program.LiesAt steps type below ∧ program.InheritsFrom below above := by
  obtain ⟨⟨-, below, hbelow, hstep⟩, hleast⟩ := h
  refine ⟨below, ⟨⟨hpositive, hbelow⟩, ?_⟩, hstep⟩
  rintro fewer ⟨-, hfewer⟩
  exact Nat.le_of_succ_le_succ (hleast ⟨Nat.succ_pos fewer, below, hfewer, hstep⟩)

/-! ## The queue -/

variable (program origin) in
/-- What the walk from a type has come to: the types that it has listed, last first, and the two
parts of the queue, reached by so many steps and by one step more. -/
structure Front (steps : Nat) (seen near far : List TypeId) : Prop where
  positive : 0 < steps
  reached_near : ∀ type ∈ near, program.InheritsIn steps origin type
  reached_far : ∀ type ∈ far, program.InheritsIn (steps + 1) origin type
  nearer : ∀ fewer < steps, ∀ type, program.LiesAt fewer origin type → type ∈ seen
  here : ∀ type, program.LiesAt steps origin type → type ∈ seen ∨ type ∈ near
  beyond : ∀ type ∈ seen, ∀ parent, program.InheritsFrom type parent →
    (parent ∈ seen ∨ parent ∈ near) ∨ parent ∈ far
  within : ∀ type ∈ seen, ∃ fewer ≤ steps, program.LiesAt fewer origin type
  nodup : seen.Nodup
  sorted : seen.Pairwise fun type earlier =>
    program.distance origin earlier ≤ program.distance origin type

namespace Front

theorem start (program : Program) (origin : TypeId) :
    program.Front origin 1 [] (program.supertypesOf origin) [] where
  positive := Nat.one_pos
  reached_near _ htype := inheritsIn_one htype
  reached_far := nofun
  nearer fewer hfewer _ h := absurd h.1.1 (by omega)
  here type h := by
    obtain ⟨⟨-, _, rfl, hstep⟩, -⟩ := h
    exact .inr hstep
  beyond := nofun
  within := nofun
  nodup := List.nodup_nil
  sorted := List.Pairwise.nil

/-- When the front part of the queue is used up, all types at its distance are listed. -/
theorem advance (h : program.Front origin steps seen [] far) :
    program.Front origin (steps + 1) seen far [] where
  positive := Nat.succ_pos steps
  reached_near := h.reached_far
  reached_far := nofun
  nearer fewer hfewer type htype := by
    rcases Nat.lt_succ_iff_lt_or_eq.mp hfewer with hlt | rfl
    · exact h.nearer fewer hlt type htype
    · exact (h.here type htype).resolve_right List.not_mem_nil
  here type htype := by
    obtain ⟨below, hbelow, hstep⟩ := htype.exists_below h.positive
    have hseen := (h.here below hbelow).resolve_right List.not_mem_nil
    simpa using h.beyond below hseen type hstep
  beyond type htype parent hparent := by simpa using h.beyond type htype parent hparent
  within type htype := by
    obtain ⟨fewer, hle, hlies⟩ := h.within type htype
    exact ⟨fewer, Nat.le_succ_of_le hle, hlies⟩
  nodup := h.nodup
  sorted := h.sorted

/-- A type that goes over from the queue to the list, or is there already, is still in one of
them. -/
theorem mem_of_taken {listed : List TypeId} (hlisted : seen ⊆ listed) (htype : type ∈ listed)
    (h : above ∈ seen ∨ above ∈ type :: near) : above ∈ listed ∨ above ∈ near := by
  rcases h with hseen | hqueue
  · exact .inl (hlisted hseen)
  · rcases List.mem_cons.mp hqueue with rfl | hlater
    · exact .inl htype
    · exact .inr hlater

/-- A type that is listed already is passed over. -/
theorem skip (h : program.Front origin steps seen (type :: near) far) (hseen : type ∈ seen) :
    program.Front origin steps seen near far where
  positive := h.positive
  reached_near := (List.forall_mem_cons.mp h.reached_near).2
  reached_far := h.reached_far
  nearer := h.nearer
  here other hother := mem_of_taken (List.Subset.refl _) hseen (h.here other hother)
  beyond other hother parent hparent :=
    (h.beyond other hother parent hparent).imp_left (mem_of_taken (List.Subset.refl _) hseen)
  within := h.within
  nodup := h.nodup
  sorted := h.sorted

/-- What is new at the front of the queue lies at its distance. -/
theorem liesAt (h : program.Front origin steps seen (type :: near) far) (hnew : type ∉ seen) :
    program.LiesAt steps origin type := by
  obtain ⟨hlies, hle⟩ := (h.reached_near type List.mem_cons_self).liesAt h.positive
  rcases Nat.lt_or_eq_of_le hle with hlt | heq
  · exact absurd (h.nearer _ hlt type hlies) hnew
  · exact heq ▸ hlies

theorem list (h : program.Front origin steps seen (type :: near) far) (hnew : type ∉ seen) :
    program.Front origin steps (type :: seen) near (far ++ program.supertypesOf type) where
  positive := h.positive
  reached_near := (List.forall_mem_cons.mp h.reached_near).2
  reached_far := List.forall_mem_append.mpr
    ⟨h.reached_far, fun parent hparent => ⟨type, h.reached_near type List.mem_cons_self, hparent⟩⟩
  nearer fewer hfewer other hother := List.mem_cons_of_mem _ (h.nearer fewer hfewer other hother)
  here other hother :=
    mem_of_taken (List.subset_cons_self _ _) List.mem_cons_self (h.here other hother)
  beyond other hother parent hparent := by
    rcases List.mem_cons.mp hother with rfl | hlisted
    · exact .inr (List.mem_append_right _ hparent)
    · exact (h.beyond other hlisted parent hparent).imp
        (mem_of_taken (List.subset_cons_self _ _) List.mem_cons_self) (List.mem_append_left _)
  within := List.forall_mem_cons.mpr ⟨⟨steps, Nat.le_refl _, h.liesAt hnew⟩, h.within⟩
  nodup := List.nodup_cons.mpr ⟨hnew, h.nodup⟩
  sorted := by
    refine List.pairwise_cons.mpr ⟨fun earlier hearlier => ?_, h.sorted⟩
    obtain ⟨fewer, hle, hlies⟩ := h.within earlier hearlier
    rw [hlies.distance_eq, (h.liesAt hnew).distance_eq]
    exact hle

/-- What is taken off the queue comes from its front part, if need be after a step on. -/
theorem exists_head (h : program.Front origin steps seen near far)
    (hqueue : type :: queue = near ++ far) :
    ∃ steps near far, program.Front origin steps seen (type :: near) far ∧ queue = near ++ far := by
  cases near with
  | nil =>
    rw [List.nil_append] at hqueue
    rw [← hqueue] at h
    exact ⟨steps + 1, queue, [], h.advance, (List.append_nil _).symm⟩
  | cons first near =>
    obtain ⟨rfl, rfl⟩ := List.cons_eq_cons.mp hqueue
    exact ⟨steps, near, far, h, rfl⟩

/-- When the queue is empty, everything above the type is listed. -/
theorem mem_of_liesAt (h : program.Front origin steps seen [] []) {others : Nat}
    (hlies : program.LiesAt others origin type) : type ∈ seen := by
  induction others generalizing type with
  | zero => exact absurd hlies.1.1 (Nat.lt_irrefl 0)
  | succ others ih =>
    rcases Nat.lt_trichotomy (others + 1) steps with hlt | rfl | hgt
    · exact h.nearer _ hlt type hlies
    · exact (h.here type hlies).resolve_right List.not_mem_nil
    · have hpositive := h.positive
      obtain ⟨below, hbelow, hstep⟩ := hlies.exists_below (by omega)
      have hqueue := h.beyond below (ih hbelow) type hstep
      simpa using hqueue

end Front

/-! ## The walk -/

theorem spread_spec (hfront : program.Front origin steps seen near far)
    (hqueue : queue = near ++ far) :
    (program.spread seen queue).Nodup ∧
      (∀ type, type ∈ program.spread seen queue ↔ ∃ steps, program.LiesAt steps origin type) ∧
      (program.spread seen queue).Pairwise fun type later =>
        program.distance origin type ≤ program.distance origin later := by
  fun_induction program.spread seen queue generalizing steps near far with
  | case1 seen =>
    obtain ⟨rfl, rfl⟩ := List.append_eq_nil_iff.mp hqueue.symm
    refine ⟨List.nodup_reverse.mpr hfront.nodup, fun type => ?_,
      List.pairwise_reverse.mpr hfront.sorted⟩
    rw [List.mem_reverse]
    constructor
    · intro hseen
      obtain ⟨fewer, -, hlies⟩ := hfront.within type hseen
      exact ⟨fewer, hlies⟩
    · rintro ⟨steps, hlies⟩
      exact hfront.mem_of_liesAt hlies
  | case2 seen type queue hseen ih =>
    obtain ⟨steps, near, far, hfront, rfl⟩ := hfront.exists_head hqueue
    exact ih (hfront.skip (List.contains_iff_mem.mp hseen)) rfl
  | case3 seen type queue hseen ih =>
    obtain ⟨steps, near, far, hfront, rfl⟩ := hfront.exists_head hqueue
    have hnew : type ∉ seen := fun hmem => hseen (List.contains_iff_mem.mpr hmem)
    exact ih (hfront.list hnew) (List.append_assoc ..)

theorem nodup_ancestors (program : Program) (type : TypeId) : (program.ancestors type).Nodup :=
  (spread_spec (.start program type) (List.append_nil _).symm).1

theorem mem_ancestors :
    above ∈ program.ancestors type ↔ Relation.TransGen program.InheritsFrom type above := by
  rw [← exists_liesAt_iff]
  exact (spread_spec (.start program type) (List.append_nil _).symm).2.1 above

theorem sorted_ancestors (program : Program) (type : TypeId) :
    (program.ancestors type).Pairwise fun above further =>
      program.distance type above ≤ program.distance type further :=
  (spread_spec (.start program type) (List.append_nil _).symm).2.2

/-! ## The search for a counterpart -/

variable {options : Options} {id strict loose : MethodId} {method : Method} {name : String}

/-- The type has a member of the name other than the given one. -/
def DeclaresOther (program : Program) (id : MethodId) (name : String) (type : TypeId) : Prop :=
  ∃ other ∈ program.membersNamed type name, other ≠ id

/-- The type is the first one, from a method's own type up, with another member of the name. -/
def DeclaresFirst (program : Program) (id : MethodId) (method : Method) (name : String)
    (type : TypeId) : Prop :=
  program.DeclaresOther id name type ∧
    ∃ nearer further, method.owner :: program.ancestors method.owner = nearer ++ type :: further ∧
      ∀ other ∈ nearer, ¬ program.DeclaresOther id name other

theorem othersNamed?_eq_none :
    program.othersNamed? id name type = none ↔ ¬ program.DeclaresOther id name type := by
  unfold othersNamed? DeclaresOther
  cases hothers : (program.membersNamed type name).filter (· != id) with
  | nil =>
    have hnone := List.filter_eq_nil_iff.mp hothers
    simpa using hnone
  | cons other others =>
    have hmem : other ∈ (program.membersNamed type name).filter (· != id) := by
      rw [hothers]
      exact List.mem_cons_self
    obtain ⟨hmember, hne⟩ := List.mem_filter.mp hmem
    simpa using ⟨other, hmember, bne_iff_ne.mp hne⟩

theorem mem_of_othersNamed? {others : List MethodId}
    (h : program.othersNamed? id name type = some others) (hmem : strict ∈ others) :
    strict ∈ program.membersNamed type name ∧ strict ≠ id := by
  unfold othersNamed? at h
  split at h
  · cases h
  · cases h
    exact ⟨(List.mem_filter.mp hmem).1, bne_iff_ne.mp (List.mem_filter.mp hmem).2⟩

/-- All that the search finds it finds in the first type with another member of the name. -/
theorem declaresFirst_of_mem_nearestNamed (h : strict ∈ program.nearestNamed id method name) :
    ∃ type, program.DeclaresFirst id method name type ∧
      ∀ found ∈ program.nearestNamed id method name,
        found ∈ program.membersNamed type name ∧ found ≠ id := by
  rw [nearestNamed_eq] at h ⊢
  cases hfound : (program.searchPath method).findSome? (program.othersNamed? id name) with
  | none =>
    rw [hfound] at h
    cases h
  | some others =>
    rw [hfound] at h
    obtain ⟨nearer, type, further, hpath, htype, hnearer⟩ := List.findSome?_eq_some_iff.mp hfound
    refine ⟨type, ⟨⟨strict, mem_of_othersNamed? htype h⟩, nearer, further, hpath, ?_⟩,
      fun found hmem => mem_of_othersNamed? htype hmem⟩
    exact fun other hother => othersNamed?_eq_none.mp (hnearer other hother)

theorem counterpart?_nameOnly (hmethod : program.methods[id]? = some method) :
    program.counterpart? { options with counterpart := .nameOnly } id =
      (program.nearestNamed id method (options.asyncName method.name)).head? := by
  rw [counterpart?, hmethod]
  rfl

/-- The types above a type are listed once each, nearest first, and a type of a valid program is not
among those above it. If a method has a strict counterpart, then it has one by name only, and the
two are members of one type, the first one from the method's own type up with another member of the
name. -/
theorem ancestors_nearest_first (program : Program) :
    (∀ type, (program.ancestors type).Nodup ∧
      (∀ above, above ∈ program.ancestors type ↔
        Relation.TransGen program.InheritsFrom type above) ∧
      ((program.ancestors type).Pairwise fun above further =>
        program.distance type above ≤ program.distance type further) ∧
      (program.validate = .ok () → type ∉ program.ancestors type)) ∧
    ∀ (options : Options) (id strict : MethodId),
      program.counterpart? { options with counterpart := .strict } id = some strict →
      ∃ method loose type, program.methods[id]? = some method ∧
        program.counterpart? { options with counterpart := .nameOnly } id = some loose ∧
        program.DeclaresFirst id method (options.asyncName method.name) type ∧
        ∀ found ∈ [strict, loose],
          found ∈ program.membersNamed type (options.asyncName method.name) ∧ found ≠ id := by
  refine ⟨fun type => ⟨nodup_ancestors program type, fun _ => mem_ancestors,
    sorted_ancestors program type, fun hvalid hmem => ?_⟩, fun options id strict h => ?_⟩
  · obtain ⟨-, -, -, hcycles⟩ := validate_eq_ok.mp hvalid
    exact not_transGen_inheritsFrom hcycles type (mem_ancestors.mp hmem)
  · obtain ⟨method, hmethod, hstrict⟩ := mem_nearestNamed_of_counterpart? h
    obtain ⟨type, hfirst, hmembers⟩ := declaresFirst_of_mem_nearestNamed hstrict
    obtain ⟨loose, hloose⟩ := Option.ne_none_iff_exists'.mp fun hnone =>
      List.ne_nil_of_mem hstrict (List.head?_eq_none_iff.mp hnone)
    refine ⟨method, loose, type, hmethod, (counterpart?_nameOnly hmethod).trans hloose, hfirst, ?_⟩
    simpa using ⟨hmembers strict hstrict, hmembers loose (List.mem_of_head? hloose)⟩

/-- A class that lists two interfaces with a common one above them. The second interface has two
methods of the asynchronous name, and the common one has another. -/
def overloadedCounterpart : Program :=
  (Builder.withMain.run
    [.addType .ofInterface "ISource", .addType .ofInterface "IReader",
      .addType .ofInterface "ILoader", .addType .ofClass "FileSource",
      .listInterface 1 0, .listInterface 2 0, .listInterface 3 1, .listInterface 3 2,
      .addMethod 3 { name := "Load" },
      .addMethod 2 { name := "LoadAsync" },
      .addMethod 2 { name := "LoadAsync", returnType := .named "Task" [] },
      .addMethod 0 { name := "LoadAsync", returnType := .named "Task" [] }]).program

/-- The common interface is listed once and last. The strict counterpart is the second method of the
other one, and by name only it is the first. -/
theorem ancestors_nearest_first_overloadedCounterpart :
    overloadedCounterpart.validate = .ok () ∧
      overloadedCounterpart.ancestors 3 = [1, 2, 0] ∧
      overloadedCounterpart.distance 3 2 ≤ overloadedCounterpart.distance 3 0 ∧
      3 ∉ overloadedCounterpart.ancestors 3 ∧
      overloadedCounterpart.counterpart? { ({} : Options) with counterpart := .strict } 0 = some 2 ∧
      ∃ loose type,
        overloadedCounterpart.counterpart? { ({} : Options) with counterpart := .nameOnly } 0 =
          some loose ∧
        2 ∈ overloadedCounterpart.membersNamed type "LoadAsync" ∧
        loose ∈ overloadedCounterpart.membersNamed type "LoadAsync" := by
  have hancestors : overloadedCounterpart.ancestors 3 = [1, 2, 0] := by
    have hclass : overloadedCounterpart.supertypesOf 3 = [1, 2] := by decide +kernel
    have hreader : overloadedCounterpart.supertypesOf 1 = [0] := by decide +kernel
    have hloader : overloadedCounterpart.supertypesOf 2 = [0] := by decide +kernel
    have hcommon : overloadedCounterpart.supertypesOf 0 = [] := by decide +kernel
    simp [ancestors, spread, hclass, hreader, hloader, hcommon]
  have hvalid : overloadedCounterpart.validate = .ok () :=
    validate_eq_ok.mpr ⟨by decide +kernel, by decide +kernel,
      checkTargets_eq_ok.mp (by decide +kernel), checkCycles_of_ordered (by decide +kernel)⟩
  have hmethod : overloadedCounterpart.methods[0]? =
      some { owner := 3, name := "Load", declarations := [0] } := by decide +kernel
  have hstrict : overloadedCounterpart.counterpart?
      { ({} : Options) with counterpart := .strict } 0 = some 2 := by
    simp only [counterpart?, nearestNamed, searchPath, hmethod, hancestors, Option.bind_eq_bind,
      Option.bind_some]
    decide +kernel
  obtain ⟨hlist, hcounterparts⟩ := ancestors_nearest_first overloadedCounterpart
  obtain ⟨-, -, hsorted, hself⟩ := hlist 3
  obtain ⟨method, loose, type, hmethod', hloose, -, hmembers⟩ := hcounterparts {} 0 2 hstrict
  cases hmethod.symm.trans hmethod'
  rw [hancestors] at hsorted
  refine ⟨hvalid, hancestors, ?_, hself hvalid, hstrict, loose, type, hloose,
    (hmembers 2 (by simp)).1, (hmembers loose (by simp)).1⟩
  exact (List.pairwise_cons.mp (List.pairwise_cons.mp hsorted).2).1 0 List.mem_cons_self

end AsyncLift.Program
