import AsyncLift.Proofs.ImplementingMembers
import AsyncLift.Proofs.OverrideTargets
import AsyncLift.Proofs.PlanOrder

/-!
# What a plan lists

Above the root a plan lists what is reached by going from methods to their bases, and it lists a
method after its bases (`BasesFirst`). The walk puts a method into the order when it leaves it, so
it may come by a method that it has entered and not listed yet; where override chains are bounded
there is no cycle, and this never happens. Below the root it lists the implementing members. The two
parts meet nowhere, since a method in both would lie above itself.

`plan_lists_closure`: the plan is the bases, the implementing members and the root, in this order.
-/

namespace AsyncLift

variable {xs ys : List MethodId} {x y : MethodId}

theorem mem_appendNew : y ∈ appendNew xs x ↔ y ∈ xs ∨ y = x := by
  unfold appendNew
  split
  · rename_i hx
    constructor
    · exact .inl
    · rintro (hy | rfl)
      · exact hy
      · exact List.contains_iff_mem.mp hx
  · simp

theorem mem_foldl_appendNew : y ∈ ys.foldl appendNew xs ↔ y ∈ xs ∨ y ∈ ys := by
  induction ys generalizing xs with
  | nil => simp
  | cons z ys ih =>
    rw [List.foldl_cons, ih, mem_appendNew, List.mem_cons, or_assoc]

/-- What is new is appended as it stands. -/
theorem foldl_appendNew_eq_append (hnodup : ys.Nodup) (hnew : xs.Disjoint ys) :
    ys.foldl appendNew xs = xs ++ ys := by
  induction ys generalizing xs with
  | nil => simp
  | cons y ys ih =>
    obtain ⟨hy, hys⟩ := List.nodup_cons.mp hnodup
    have hfirst : appendNew xs y = xs ++ [y] := by
      have hmem : y ∉ xs := fun hxs => hnew hxs List.mem_cons_self
      simp [appendNew, hmem]
    rw [List.foldl_cons, hfirst, ih hys, List.append_assoc, List.singleton_append]
    intro z hz hzs
    rcases List.mem_append.mp hz with hxs | hlast
    · exact hnew hxs (List.mem_cons_of_mem _ hzs)
    · exact hy (List.mem_singleton.mp hlast ▸ hzs)

namespace Program

variable {program : Program} {root id base : MethodId} {order : List MethodId} {levels : Nat}

/-- The method is declared, and it overrides or implements the base. -/
def HasBase (program : Program) (id base : MethodId) : Prop :=
  base ∈ program.immediateBases id

theorem HasBase.overrides (h : program.HasBase id base) : program.Overrides id base := by
  unfold HasBase immediateBases at h
  split at h
  · exact h
  · cases h

theorem transGen_overrides_of_hasBase (h : Relation.TransGen program.HasBase id base) :
    Relation.TransGen program.Overrides id base :=
  Relation.TransGen.mono (r := program.HasBase) (fun _ _ hbase => hbase.overrides) _ _ h

/-! ## Bases -/

/-- Adds a base to an order, after its own bases, unless it is there. -/
def addBase (program : Program) (levels : Nat) (order : List MethodId) (base : MethodId) :
    List MethodId :=
  if order.contains base then order else appendNew (program.addBases levels order base) base

theorem addBases_succ : program.addBases (levels + 1) order id =
    (program.immediateBases id).foldl (program.addBase levels) order := rfl

theorem foldl_bases_sound {step : List MethodId → MethodId → List MethodId}
    (hstep : ∀ order base, x ∈ step order base →
      x ∈ order ∨ Relation.ReflTransGen program.HasBase base x)
    {bases : List MethodId} (h : x ∈ bases.foldl step order) :
    x ∈ order ∨ ∃ base ∈ bases, Relation.ReflTransGen program.HasBase base x := by
  induction bases generalizing order with
  | nil => exact .inl h
  | cons base bases ih =>
    rcases ih h with hfirst | ⟨later, hlater, hpath⟩
    · rcases hstep order base hfirst with hbefore | hpath
      · exact .inl hbefore
      · exact .inr ⟨base, List.mem_cons_self, hpath⟩
    · exact .inr ⟨later, List.mem_cons_of_mem _ hlater, hpath⟩

/-- Only what is reached is added. -/
theorem addBases_sound (h : x ∈ program.addBases levels order id) :
    x ∈ order ∨ Relation.TransGen program.HasBase id x := by
  induction levels generalizing order id with
  | zero => exact .inl h
  | succ levels ih =>
    have hstep : ∀ order base, x ∈ program.addBase levels order base →
        x ∈ order ∨ Relation.ReflTransGen program.HasBase base x := by
      intro order base hx
      unfold addBase at hx
      split at hx
      · exact .inl hx
      · rcases mem_appendNew.mp hx with hadded | rfl
        · exact (ih hadded).imp_right Relation.TransGen.to_reflTransGen
        · exact .inr .refl
    rw [addBases_succ] at h
    rcases foldl_bases_sound hstep h with hbefore | ⟨base, hbase, hpath⟩
    · exact .inl hbefore
    · exact .inr (.head' hbase hpath)

theorem hasBase_of_mem_addBases (h : x ∈ program.addBases levels [] id) :
    Relation.TransGen program.HasBase id x := by
  rcases addBases_sound h with hnil | hpath
  · cases hnil
  · exact hpath

/-- Every listed method has its bases before it. -/
def BasesFirst (program : Program) (order : List MethodId) : Prop :=
  ∀ before id after, order = before ++ id :: after →
    ∀ base, program.HasBase id base → base ∈ before

theorem BasesFirst.appendNew (h : program.BasesFirst order)
    (hbases : ∀ base, program.HasBase id base → base ∈ order) :
    program.BasesFirst (appendNew order id) := by
  unfold AsyncLift.appendNew
  split
  · exact h
  · intro before other after hsplit
    rcases List.eq_nil_or_concat after with rfl | ⟨init, last, rfl⟩
    · obtain ⟨rfl, hid⟩ := List.append_inj' hsplit rfl
      cases hid
      exact hbases
    · rw [List.concat_eq_append, ← List.cons_append, ← List.append_assoc] at hsplit
      obtain ⟨horder, -⟩ := List.append_inj' hsplit rfl
      exact h before other init horder

/-- What is reached from a listed method stands before it. -/
theorem BasesFirst.mem_of_transGen (h : program.BasesFirst order) {before after : List MethodId}
    (hsplit : order = before ++ id :: after) (hpath : Relation.TransGen program.HasBase id base) :
    base ∈ before := by
  induction hpath with
  | single hbase => exact h before id after hsplit _ hbase
  | @tail middle base _ hbase ih =>
    obtain ⟨first, rest, rfl⟩ := List.append_of_mem ih
    have hmiddle : order = first ++ middle :: (rest ++ id :: after) := by
      rw [hsplit, List.append_assoc, List.cons_append]
    exact List.mem_append_left _ (h first middle _ hmiddle base hbase)

variable (program) in
/-- An order that goes on from an earlier one, has bases first, and has the given methods in it. -/
structure Completes (order : List MethodId) (bases result : List MethodId) : Prop where
  basesFirst : program.BasesFirst result
  subset : order ⊆ result
  listed : ∀ base ∈ bases, base ∈ result

theorem foldl_completes {step : List MethodId → MethodId → List MethodId} {bases : List MethodId}
    (hstep : ∀ order, program.BasesFirst order → ∀ base ∈ bases,
      program.Completes order [base] (step order base)) (h : program.BasesFirst order) :
    program.Completes order bases (bases.foldl step order) := by
  induction bases generalizing order with
  | nil => exact ⟨h, List.Subset.refl _, fun _ hbase => nomatch hbase⟩
  | cons base bases ih =>
    have hfirst := hstep order h base List.mem_cons_self
    have hrest := ih
      (fun order horder later hlater => hstep order horder later (List.mem_cons_of_mem _ hlater))
      hfirst.basesFirst
    refine ⟨hrest.basesFirst, List.Subset.trans hfirst.subset hrest.subset, ?_⟩
    intro other hother
    rcases List.mem_cons.mp hother with rfl | hlater
    · exact hrest.subset (hfirst.listed other List.mem_cons_self)
    · exact hrest.listed other hlater

/-- Where chains of bases end in time, the bases of a method are all added, each after its own. -/
theorem addBases_completes (hends : EndsWithin program.HasBase levels id)
    (h : program.BasesFirst order) :
    program.Completes order (program.immediateBases id) (program.addBases levels order id) := by
  induction levels generalizing order id with
  | zero => exact hends.elim
  | succ levels ih =>
    have hstep : ∀ order, program.BasesFirst order → ∀ base ∈ program.immediateBases id,
        program.Completes order [base] (program.addBase levels order base) := by
      intro order horder base hbase
      unfold addBase
      split
      · rename_i hmem
        refine ⟨horder, List.Subset.refl _, ?_⟩
        intro other hother
        rw [List.mem_singleton.mp hother]
        exact List.contains_iff_mem.mp hmem
      · have hown := ih (hends base hbase) horder
        refine ⟨hown.basesFirst.appendNew hown.listed, ?_, ?_⟩
        · intro other hother
          exact mem_appendNew.mpr (.inl (hown.subset hother))
        · intro other hother
          exact mem_appendNew.mpr (.inr (List.mem_singleton.mp hother))
    rw [addBases_succ]
    exact foldl_completes hstep h

theorem basesFirst_nil : program.BasesFirst [] := by
  intro before id after hsplit
  simp at hsplit

theorem mem_addBases (hends : EndsWithin program.HasBase levels id) :
    x ∈ program.addBases levels [] id ↔ Relation.TransGen program.HasBase id x := by
  obtain ⟨hfirst, -, hown⟩ := addBases_completes hends basesFirst_nil
  constructor
  · exact hasBase_of_mem_addBases
  · intro hpath
    obtain ⟨base, hbase, hrest⟩ := Relation.TransGen.head'_iff.mp hpath
    obtain ⟨before, after, hsplit⟩ := List.append_of_mem (hown base hbase)
    rcases Relation.reflTransGen_iff_eq_or_transGen.mp hrest with rfl | hrest
    · exact hown _ hbase
    · rw [hsplit]
      exact List.mem_append_left _ (hfirst.mem_of_transGen hsplit hrest)

/-! ## The plan -/

/-- A planned method is tied to the root by overriding, upwards or downwards. -/
theorem overrides_of_mem_plan (h : x ∈ (program.plan root).order) :
    x = root ∨ Relation.TransGen program.Overrides root x ∨
      Relation.TransGen program.Overrides x root := by
  rw [plan_order_eq, List.mem_append, List.mem_singleton] at h
  rcases h with hother | rfl
  · rcases mem_foldl_appendNew.mp (List.mem_of_mem_erase hother) with habove | hbelow
    · have hpath := hasBase_of_mem_addBases (List.mem_of_mem_erase habove)
      exact .inr (.inl (transGen_overrides_of_hasBase hpath))
    · exact .inr (.inr (implementingMembers_sound hbelow).2)
  · exact .inl rfl

variable (program root) in
/-- The bases of the root as the plan walks them. -/
def basesOfRoot : List MethodId := program.addBases (maxHierarchyDepth + 1) [] root

/-- Without a cycle the root is in neither part, the parts are disjoint, and so nothing is dropped
when they are put together. -/
theorem plan_parts (hacyclic : ∀ id, ¬ Relation.TransGen program.Overrides id id)
    (root : MethodId) :
    root ∉ program.basesOfRoot root ∧
      root ∉ program.implementingMembers root ∧
      (program.basesOfRoot root).Disjoint (program.implementingMembers root) ∧
      (program.plan root).order =
        program.basesOfRoot root ++ program.implementingMembers root ++ [root] ∧
      (program.plan root).upward = (program.basesOfRoot root).length := by
  have habove : ∀ x ∈ program.basesOfRoot root, Relation.TransGen program.Overrides root x :=
    fun x hx => transGen_overrides_of_hasBase (hasBase_of_mem_addBases hx)
  have hroot : root ∉ program.basesOfRoot root := fun hx => hacyclic root (habove root hx)
  have hroot' : root ∉ program.implementingMembers root :=
    fun hx => (implementingMembers_sound hx).1 rfl
  have hdisjoint : (program.basesOfRoot root).Disjoint (program.implementingMembers root) :=
    fun x hx hx' => hacyclic root ((habove x hx).trans (implementingMembers_sound hx').2)
  have hwhole : (program.implementingMembers root).foldl appendNew (program.basesOfRoot root) =
      program.basesOfRoot root ++ program.implementingMembers root :=
    foldl_appendNew_eq_append (nodup_implementingMembers program root) hdisjoint
  have hothers : root ∉ program.basesOfRoot root ++ program.implementingMembers root := by
    rw [List.mem_append]
    exact not_or.mpr ⟨hroot, hroot'⟩
  refine ⟨hroot, hroot', hdisjoint, ?_, ?_⟩
  · rw [plan_order_eq, plannedOthers, ← basesOfRoot, List.erase_of_not_mem hroot, hwhole,
      List.erase_of_not_mem hothers]
  · show ((program.basesOfRoot root).erase root).length = _
    rw [List.erase_of_not_mem hroot]

/-- The head of the order is what the plan has above the root, and what stands between it and the
root is what the plan has below. -/
theorem plan_ancestors_descendants (hacyclic : ∀ id, ¬ Relation.TransGen program.Overrides id id)
    (root : MethodId) :
    (program.plan root).ancestors = program.basesOfRoot root ∧
      (program.plan root).descendants = program.implementingMembers root := by
  obtain ⟨-, -, -, horder, hupward⟩ := plan_parts hacyclic root
  constructor
  · rw [Plan.ancestors, horder, hupward, List.append_assoc, List.take_left]
  · have hlength : max ((program.plan root).order.length - 1) (program.plan root).upward =
        (program.basesOfRoot root ++ program.implementingMembers root).length := by
      rw [horder, hupward, List.length_append, List.length_singleton, List.length_append]
      omega
    rw [Plan.descendants, hlength, horder, hupward, List.take_left, List.drop_left]

/-- In an order without repetition that has bases first, a method stands behind what it reaches. -/
theorem BasesFirst.idxOf_lt (h : program.BasesFirst order) (hnodup : order.Nodup)
    (hid : id ∈ order) (hpath : Relation.TransGen program.HasBase id base) :
    order.idxOf base < order.idxOf id := by
  obtain ⟨before, after, rfl⟩ := List.append_of_mem hid
  have hbase : base ∈ before := h.mem_of_transGen rfl hpath
  have hfresh : id ∉ before :=
    fun hmem => (List.nodup_append.mp hnodup).2.2 id hmem id List.mem_cons_self rfl
  rw [List.idxOf_append_of_mem hbase, List.idxOf_append_of_notMem hfresh]
  exact Nat.lt_add_right _ (List.idxOf_lt_length_of_mem hbase)

/-- Where no chain of overriding has more than 256 steps, a plan lists the bases of the root, each
after its own bases, then the implementing members, and then the root, all of them once. -/
theorem plan_lists_closure (hchains : ChainsWithin program.Overrides 256) (root : MethodId) :
    (program.plan root).order.Nodup ∧
      (program.plan root).order =
        (program.plan root).ancestors ++ program.implementingMembers root ++ [root] ∧
      (program.plan root).descendants = program.implementingMembers root ∧
      (program.plan root).ancestors.Disjoint (program.plan root).descendants ∧
      root ∉ (program.plan root).ancestors ∧
      root ∉ (program.plan root).descendants ∧
      (program.plan root).order.length =
        (program.plan root).ancestors.length + (program.implementingMembers root).length + 1 ∧
      (∀ id, id ∈ (program.plan root).ancestors ↔ Relation.TransGen program.HasBase root id) ∧
      ∀ above ∈ (program.plan root).ancestors, ∀ below ∈ (program.plan root).ancestors,
        Relation.TransGen program.HasBase below above →
          (program.plan root).ancestors.idxOf above <
            (program.plan root).ancestors.idxOf below := by
  have hacyclic : ∀ id, ¬ Relation.TransGen program.Overrides id id :=
    fun id => (hchains.endsWithin id).not_transGen_self
  have hbases : EndsWithin program.HasBase (maxHierarchyDepth + 1) root :=
    (hchains.mono fun _ _ hbase => hbase.overrides).endsWithin root
  obtain ⟨hroot, hroot', hdisjoint, horder, -⟩ := plan_parts hacyclic root
  obtain ⟨hancestors, hdescendants⟩ := plan_ancestors_descendants hacyclic root
  rw [hancestors, hdescendants]
  refine ⟨program.nodup_plan_order root, horder, rfl, hdisjoint, hroot, hroot', ?_, ?_, ?_⟩
  · rw [horder, List.length_append, List.length_append, List.length_singleton]
  · exact fun _ => mem_addBases hbases
  · intro above _ below hbelow hpath
    have hfirst : program.BasesFirst (program.basesOfRoot root) :=
      (addBases_completes hbases basesFirst_nil).basesFirst
    exact hfirst.idxOf_lt (program.nodup_addBases _ List.nodup_nil root) hbelow hpath

/-- A method that reaches the interface member both directly and through the class above, and a
method that overrides it. -/
def overriddenTwice : Program :=
  (Builder.withMain.run
    [.addType .ofInterface "ISource", .addType .ofClass "Source", .addType .ofClass "FileSource",
      .addType .ofClass "CachedSource", .listInterface 1 0, .setBaseClass 2 1, .listInterface 2 0,
      .setBaseClass 3 2,
      .addMethod 0 { name := "Load" },
      .addMethod 1 { name := "Load", modifiers := { isVirtual := true } },
      .addMethod 2 { name := "Load", modifiers := { isOverride := true } },
      .addMethod 3 { name := "Load", modifiers := { isOverride := true } }]).program

theorem plan_lists_closure_overriddenTwice :
    ChainsWithin overriddenTwice.Overrides 256 ∧
      (overriddenTwice.plan 2).ancestors = [0, 1] ∧
      (overriddenTwice.plan 2).order = [0, 1] ++ [3] ++ [2] ∧
      Relation.TransGen overriddenTwice.HasBase 2 0 ∧
      (overriddenTwice.plan 2).ancestors.idxOf 0 < (overriddenTwice.plan 2).ancestors.idxOf 1 := by
  have hchains : ChainsWithin overriddenTwice.Overrides 256 := by
    apply chainsWithin_of_lt
    intro id target hoverrides
    have hknown : id < 4 := lt_size_of_overrides hoverrides
    have hfalls : ∀ id < 4, ∀ target ∈ overriddenTwice.overrideTargets id, target < id := by
      decide +kernel
    exact ⟨hfalls id hknown target hoverrides, by omega⟩
  have hancestors : (overriddenTwice.plan 2).ancestors = [0, 1] := by decide +kernel
  have himplementing : overriddenTwice.implementingMembers 2 = [3] := by decide +kernel
  have hbase : overriddenTwice.HasBase 1 0 := by unfold HasBase; decide +kernel
  obtain ⟨-, horder, -, -, -, -, -, hreached, hsorted⟩ := plan_lists_closure hchains 2
  rw [hancestors, himplementing] at horder
  refine ⟨hchains, hancestors, horder, (hreached 0).mp ?_, hsorted 0 ?_ 1 ?_ (.single hbase)⟩
  all_goals simp [hancestors]

end Program

end AsyncLift
