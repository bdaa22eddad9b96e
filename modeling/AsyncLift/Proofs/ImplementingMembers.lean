import AsyncLift.Override.Implementers
import AsyncLift.Program.Builder
import Mathlib.Data.List.Nodup
import Mathlib.Logic.Relation
import Mathlib.Order.Lattice.Nat

/-!
# Implementing members and their distance

The search for implementing members goes down from the root level by level. After so many levels it
has found exactly the methods with a chain of at most so many steps of overriding up to the root,
and its frontier is those whose shortest chain has just that length (`Level`). A level is made of
the methods that override one of the frontier and are new; that nothing is at the next distance is
seen when it is empty, and then nothing lies further away either.

`implementingMembers_by_distance`: the members are those within 256 steps, nearest first. Nothing is
asked of the program, so the chains may run in circles, also through the root.
-/

namespace AsyncLift

theorem nodup_eraseDups (xs : List MethodId) : xs.eraseDups.Nodup := by
  induction hlength : xs.length using Nat.strongRecOn generalizing xs with
  | ind length ih =>
    cases xs with
    | nil => simp
    | cons x xs =>
      rw [List.eraseDups_cons, List.nodup_cons]
      constructor
      · simp
      · refine ih _ ?_ _ rfl
        rw [← hlength, List.length_cons]
        exact Nat.lt_succ_of_le (List.length_filter_le ..)

namespace Program

variable {program : Program} {root id target : MethodId} {steps levels : Nat}
  {found frontier : List MethodId}

/-- The method overrides or implements the target. -/
def Overrides (program : Program) (id target : MethodId) : Prop :=
  target ∈ program.overrideTargets id

theorem lt_size_of_overrides (h : program.Overrides id target) : id < program.methods.size := by
  by_contra hle
  have hnone : program.methods[id]? = none := Array.getElem?_eq_none (Nat.le_of_not_lt hle)
  simp [Overrides, overrideTargets, hnone] at h

theorem mem_overriders :
    id ∈ overriders program.overrideEdges target ↔ program.Overrides id target := by
  constructor
  · intro h
    obtain ⟨edge, hedge, rfl⟩ := List.mem_map.mp h
    obtain ⟨hmem, htarget⟩ := List.mem_filter.mp hedge
    obtain ⟨id, -, rfl⟩ := List.mem_map.mp hmem
    exact List.contains_iff_mem.mp htarget
  · intro h
    have hedge : (id, program.overrideTargets id) ∈ program.overrideEdges :=
      List.mem_map_of_mem (List.mem_range.mpr (lt_size_of_overrides h))
    exact List.mem_map.mpr
      ⟨_, List.mem_filter.mpr ⟨hedge, List.contains_iff_mem.mpr h⟩, rfl⟩

/-! ## Chains -/

/-- The root is reached from the method by a chain of so many steps of overriding. -/
def OverridesIn (program : Program) : (steps : Nat) → (id root : MethodId) → Prop
  | 0, id, root => id = root
  | steps + 1, id, root =>
    ∃ target, program.Overrides id target ∧ program.OverridesIn steps target root

/-- The length of the shortest chain from a method to the root. -/
noncomputable def chainLength (program : Program) (id root : MethodId) : Nat :=
  sInf {steps | program.OverridesIn steps id root}

/-- The shortest chain from the method to the root has so many steps. -/
def AtDistance (program : Program) (steps : Nat) (id root : MethodId) : Prop :=
  IsLeast {steps | program.OverridesIn steps id root} steps

theorem AtDistance.le {fewer : Nat} (h : program.AtDistance steps id root)
    (hchain : program.OverridesIn fewer id root) : steps ≤ fewer := h.2 hchain

theorem AtDistance.chainLength_eq (h : program.AtDistance steps id root) :
    program.chainLength id root = steps := h.csInf_eq

theorem OverridesIn.atDistance (h : program.OverridesIn steps id root) :
    program.chainLength id root ≤ steps ∧
      program.AtDistance (program.chainLength id root) id root :=
  ⟨Nat.sInf_le h, Nat.sInf_mem ⟨steps, h⟩, fun _ hchain => Nat.sInf_le hchain⟩

theorem OverridesIn.transGen (h : program.OverridesIn steps id root) (hne : id ≠ root) :
    Relation.TransGen program.Overrides id root := by
  induction steps generalizing id with
  | zero => exact absurd h hne
  | succ steps ih =>
    obtain ⟨target, hoverrides, hchain⟩ := h
    by_cases htarget : target = root
    · exact .single (htarget ▸ hoverrides)
    · exact .head hoverrides (ih hchain htarget)

/-- A shortest chain goes on from its second method as a shortest chain. -/
theorem AtDistance.exists_target (h : program.AtDistance (steps + 1) id root) :
    ∃ target, program.Overrides id target ∧ program.AtDistance steps target root := by
  obtain ⟨target, hoverrides, hchain⟩ := h.1
  refine ⟨target, hoverrides, hchain, fun fewer hfewer => ?_⟩
  exact Nat.le_of_succ_le_succ (h.le ⟨target, hoverrides, hfewer⟩)

/-- No distance is left out on the way to a method. -/
theorem AtDistance.exists_of_le {least : Nat} (h : program.AtDistance least id root)
    (hle : steps ≤ least) : ∃ other, program.AtDistance steps other root := by
  induction least generalizing id with
  | zero => exact ⟨id, Nat.le_zero.mp hle ▸ h⟩
  | succ least ih =>
    rcases Nat.lt_or_eq_of_le hle with hlt | rfl
    · obtain ⟨target, -, htarget⟩ := h.exists_target
      exact ih htarget (Nat.le_of_lt_succ hlt)
    · exact ⟨id, h⟩

/-! ## Levels -/

/-- The methods of the next level: they override one of the frontier, and they are new. -/
def nextLevel (edges : List (MethodId × List MethodId)) (root : MethodId)
    (found frontier : List MethodId) : List MethodId :=
  ((frontier.flatMap (overriders edges)).filter fun id =>
    id != root && !found.contains id).eraseDups

theorem mem_nextLevel : id ∈ nextLevel program.overrideEdges root found frontier ↔
    (∃ target ∈ frontier, program.Overrides id target) ∧ id ≠ root ∧ id ∉ found := by
  simp [nextLevel, mem_overriders]

variable (program root) in
/-- What the search has come to after so many levels. -/
structure Level (steps : Nat) (found frontier : List MethodId) : Prop where
  mem_found : ∀ id, id ∈ found ↔ id ≠ root ∧ ∃ fewer ≤ steps, program.OverridesIn fewer id root
  mem_frontier : ∀ id, id ∈ frontier ↔ program.AtDistance steps id root
  nodup : found.Nodup
  sorted : found.Pairwise fun a b => program.chainLength a root ≤ program.chainLength b root

namespace Level

theorem start (program : Program) (root : MethodId) : program.Level root 0 [] [root] := by
  refine ⟨fun id => ?_, fun id => ?_, List.nodup_nil, List.Pairwise.nil⟩
  · constructor
    · intro h
      cases h
    · rintro ⟨hne, fewer, hle, hchain⟩
      rw [Nat.le_zero.mp hle] at hchain
      exact absurd hchain hne
  · constructor
    · intro h
      exact ⟨List.mem_singleton.mp h, fun _ _ => Nat.zero_le _⟩
    · exact fun h => List.mem_singleton.mpr h.1

/-- The next level is what is one step further away. -/
theorem mem_nextLevel_iff (h : program.Level root steps found frontier) (id : MethodId) :
    id ∈ nextLevel program.overrideEdges root found frontier ↔
      program.AtDistance (steps + 1) id root := by
  rw [mem_nextLevel]
  constructor
  · rintro ⟨⟨target, htarget, hoverrides⟩, hne, hnew⟩
    have hchain := ((h.mem_frontier target).mp htarget).1
    refine ⟨⟨target, hoverrides, hchain⟩, fun fewer hfewer => ?_⟩
    -- A shorter chain would have put the method among those that are found.
    by_contra hlt
    exact hnew ((h.mem_found id).mpr ⟨hne, fewer, by omega, hfewer⟩)
  · intro hdistance
    obtain ⟨target, hoverrides, htarget⟩ := hdistance.exists_target
    refine ⟨⟨target, (h.mem_frontier target).mpr htarget, hoverrides⟩, ?_, ?_⟩
    · rintro rfl
      have hself : program.OverridesIn 0 id id := rfl
      exact Nat.not_succ_le_zero steps (hdistance.le hself)
    · intro hfound
      obtain ⟨-, fewer, hle, hchain⟩ := (h.mem_found id).mp hfound
      exact Nat.not_succ_le_self steps (Nat.le_trans (hdistance.le hchain) hle)

theorem next (h : program.Level root steps found frontier) :
    program.Level root (steps + 1) (found ++ nextLevel program.overrideEdges root found frontier)
      (nextLevel program.overrideEdges root found frontier) := by
  refine ⟨fun id => ?_, h.mem_nextLevel_iff, ?_, ?_⟩
  · rw [List.mem_append, h.mem_nextLevel_iff, h.mem_found]
    constructor
    · rintro (⟨hne, fewer, hle, hchain⟩ | hdistance)
      · exact ⟨hne, fewer, by omega, hchain⟩
      · have hnew := mem_nextLevel.mp ((h.mem_nextLevel_iff id).mpr hdistance)
        exact ⟨hnew.2.1, steps + 1, Nat.le_refl _, hdistance.1⟩
    · rintro ⟨hne, fewer, hle, hchain⟩
      obtain ⟨hlength, hdistance⟩ := hchain.atDistance
      rcases Nat.lt_or_eq_of_le (Nat.le_trans hlength hle) with hlt | heq
      · exact .inl ⟨hne, _, Nat.le_of_lt_succ hlt, hdistance.1⟩
      · exact .inr (heq ▸ hdistance)
  · refine List.nodup_append.mpr ⟨h.nodup, nodup_eraseDups _, ?_⟩
    rintro a ha b hb rfl
    exact (mem_nextLevel.mp hb).2.2 ha
  · have hlevel : ∀ id ∈ nextLevel program.overrideEdges root found frontier,
        program.chainLength id root = steps + 1 := fun id hid =>
      ((h.mem_nextLevel_iff id).mp hid).chainLength_eq
    refine List.pairwise_append.mpr ⟨h.sorted, ?_, ?_⟩
    · refine List.Pairwise.imp_of_mem (fun ha hb _ => ?_) (nodup_eraseDups _)
      rw [hlevel _ ha, hlevel _ hb]
    · intro a ha b hb
      obtain ⟨-, fewer, hle, hchain⟩ := (h.mem_found a).mp ha
      have hlength := hchain.atDistance.1
      rw [hlevel b hb]
      omega

/-- Beyond an empty level there is nothing. -/
theorem of_nextLevel_eq_nil (h : program.Level root steps found frontier)
    (hnil : nextLevel program.overrideEdges root found frontier = []) (more : Nat) :
    program.Level root (steps + 1 + more) found [] := by
  have hnone : ∀ id least, program.AtDistance least id root → least ≤ steps := by
    intro id least hdistance
    by_contra hlt
    obtain ⟨other, hother⟩ := hdistance.exists_of_le (Nat.lt_of_not_le hlt)
    rw [← h.mem_nextLevel_iff, hnil] at hother
    cases hother
  refine ⟨fun id => ?_, fun id => ?_, h.nodup, h.sorted⟩
  · rw [h.mem_found]
    constructor
    · rintro ⟨hne, fewer, hle, hchain⟩
      exact ⟨hne, fewer, by omega, hchain⟩
    · rintro ⟨hne, fewer, -, hchain⟩
      have hdistance := hchain.atDistance.2
      exact ⟨hne, _, hnone id _ hdistance, hdistance.1⟩
  · constructor
    · intro hmem
      cases hmem
    · intro hdistance
      have hle := hnone id _ hdistance
      omega

theorem spreadDown (h : program.Level root steps found frontier) :
    ∃ last, program.Level root (steps + levels)
      (spreadDown program.overrideEdges root levels found frontier) last := by
  induction levels generalizing steps found frontier with
  | zero => exact ⟨frontier, h⟩
  | succ levels ih =>
    rw [Program.spreadDown, Nat.add_comm levels, ← Nat.add_assoc]
    split
    · exact ⟨[], h.of_nextLevel_eq_nil ‹_› levels⟩
    · exact ih h.next

end Level

/-! ## Implementing members -/

theorem level_implementingMembers (h : program.isDeclared root = true) :
    ∃ last, program.Level root maxHierarchyDepth (program.implementingMembers root) last := by
  rw [implementingMembers, if_pos h, ← Nat.zero_add maxHierarchyDepth]
  exact (Level.start program root).spreadDown

theorem implementingMembers_sound (h : id ∈ program.implementingMembers root) :
    id ≠ root ∧ Relation.TransGen program.Overrides id root := by
  by_cases hdeclared : program.isDeclared root = true
  · obtain ⟨last, hlevel⟩ := level_implementingMembers hdeclared
    obtain ⟨hne, steps, -, hchain⟩ := (hlevel.mem_found id).mp h
    exact ⟨hne, hchain.transGen hne⟩
  · rw [implementingMembers, if_neg hdeclared] at h
    cases h

theorem nodup_implementingMembers (program : Program) (root : MethodId) :
    (program.implementingMembers root).Nodup := by
  by_cases hdeclared : program.isDeclared root = true
  · obtain ⟨last, hlevel⟩ := level_implementingMembers hdeclared
    exact hlevel.nodup
  · rw [implementingMembers, if_neg hdeclared]
    exact List.nodup_nil

/-- The implementing members of a declared method are the other methods from which it is reached by
a chain of one to 256 steps of overriding. They are listed once each, those with a shorter shortest
chain first. -/
theorem implementingMembers_by_distance (h : program.isDeclared root = true) :
    (program.implementingMembers root).Nodup ∧
      (∀ id, id ∈ program.implementingMembers root ↔
        id ≠ root ∧ ∃ steps, 1 ≤ steps ∧ steps ≤ 256 ∧ program.OverridesIn steps id root) ∧
      (program.implementingMembers root).Pairwise fun id other =>
        program.chainLength id root ≤ program.chainLength other root := by
  obtain ⟨last, hlevel⟩ := level_implementingMembers h
  refine ⟨hlevel.nodup, fun id => ?_, hlevel.sorted⟩
  rw [hlevel.mem_found]
  constructor
  · rintro ⟨hne, steps, hle, hchain⟩
    have hpositive : steps ≠ 0 := by
      rintro rfl
      exact hne hchain
    exact ⟨hne, steps, Nat.one_le_iff_ne_zero.mpr hpositive, hle, hchain⟩
  · rintro ⟨hne, steps, -, hle, hchain⟩
    exact ⟨hne, steps, hle, hchain⟩

/-- An interface with a class that implements it, an outside class derived from that one, and a
class derived from the outside one that lists the interface again. -/
def implementedAgain : Program :=
  (Builder.withMain.run
    [.addType .ofInterface "ISource", .addType .ofClass "Source", .addType .ofClass "FileSource",
      .addType .ofClass "CachedSource", .listInterface 1 0, .setBaseClass 2 1, .setBaseClass 3 2,
      .listInterface 3 0,
      .addMethod 0 { name := "Load" },
      .addMethod 1 { name := "Load", modifiers := { isVirtual := true } },
      .addMethod 2 { name := "Load", modifiers := { isOverride := true }, isExternal := true },
      .addMethod 3 { name := "Load", modifiers := { isOverride := true } }]).program

/-- The last class is as near to the interface as the first one, and nearer than the outside class
between them. To the first class it is tied through the outside class only. -/
theorem implementingMembers_by_distance_implementedAgain :
    implementedAgain.isDeclared 0 = true ∧ implementedAgain.isDeclared 1 = true ∧
      implementedAgain.isDeclared 2 = false ∧
      implementedAgain.implementingMembers 0 = [1, 3, 2] ∧
      implementedAgain.chainLength 3 0 ≤ implementedAgain.chainLength 2 0 ∧
      implementedAgain.implementingMembers 1 = [2, 3] ∧
      ∃ steps, 1 ≤ steps ∧ steps ≤ 256 ∧ implementedAgain.OverridesIn steps 3 1 := by
  have hroot : implementedAgain.isDeclared 0 = true := by decide +kernel
  have hclass : implementedAgain.isDeclared 1 = true := by decide +kernel
  have hmembers : implementedAgain.implementingMembers 0 = [1, 3, 2] := by decide +kernel
  have hbelow : implementedAgain.implementingMembers 1 = [2, 3] := by decide +kernel
  obtain ⟨-, -, hsorted⟩ := implementingMembers_by_distance hroot
  obtain ⟨-, hreached, -⟩ := implementingMembers_by_distance hclass
  rw [hmembers] at hsorted
  refine ⟨hroot, hclass, by decide +kernel, hmembers, ?_, hbelow, ?_⟩
  · exact (List.pairwise_cons.mp (List.pairwise_cons.mp hsorted).2).1 2 List.mem_cons_self
  · exact ((hreached 3).mp (by simp [hbelow])).2

end Program

end AsyncLift
