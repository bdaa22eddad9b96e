import AsyncLift.Plan
import Mathlib.Data.List.Nodup

/-!
# The order of a plan

No method stands twice in a plan, and the root stands last. This holds of every program: the plan
is put together by `appendNew`, which never adds what is there, however the hierarchy looks.
-/

namespace AsyncLift

theorem nodup_appendNew {xs : List MethodId} (h : xs.Nodup) (x : MethodId) :
    (appendNew xs x).Nodup := by
  unfold appendNew
  split
  · exact h
  · rename_i hx
    refine List.nodup_append.mpr ⟨h, List.nodup_singleton x, ?_⟩
    rintro y hy z hz rfl
    exact hx (List.contains_iff_mem.mpr (List.mem_singleton.mp hz ▸ hy))

theorem nodup_foldl_appendNew {xs : List MethodId} (h : xs.Nodup) (ys : List MethodId) :
    (ys.foldl appendNew xs).Nodup := by
  induction ys generalizing xs with
  | nil => exact h
  | cons y ys ih => exact ih (nodup_appendNew h y)

namespace Program

theorem nodup_addBases (program : Program) (levels : Nat) {order : List MethodId}
    (h : order.Nodup) (id : MethodId) : (program.addBases levels order id).Nodup := by
  induction levels generalizing order id with
  | zero => exact h
  | succ levels ih =>
    rw [addBases]
    generalize program.immediateBases id = bases
    induction bases generalizing order with
    | nil => exact h
    | cons base bases ihbases =>
      rw [List.foldl_cons]
      split
      · exact ihbases h
      · exact ihbases (nodup_appendNew (ih h base) base)

variable (program : Program) (root : MethodId)

/-- The planned methods other than the root, in their order. -/
def plannedOthers : List MethodId :=
  ((program.implementingMembers root).foldl appendNew
    ((program.addBases (maxHierarchyDepth + 1) [] root).erase root)).erase root

theorem plan_order_eq : (program.plan root).order = program.plannedOthers root ++ [root] := rfl

theorem nodup_plan_order : (program.plan root).order.Nodup := by
  have habove : ((program.addBases (maxHierarchyDepth + 1) [] root).erase root).Nodup :=
    (program.nodup_addBases _ List.nodup_nil root).erase root
  have hothers := nodup_foldl_appendNew habove (program.implementingMembers root)
  rw [plan_order_eq]
  refine List.nodup_append.mpr ⟨hothers.erase root, List.nodup_singleton root, ?_⟩
  rintro x hx y hy rfl
  rw [List.mem_singleton.mp hy] at hx
  exact hothers.not_mem_erase hx

variable {program root}

theorem mem_of_plan_order_eq {before after : List MethodId} {id : MethodId}
    (h : (program.plan root).order = before ++ id :: after) : id ∈ (program.plan root).order := by
  rw [h]
  exact List.mem_append_right _ List.mem_cons_self

theorem nodup_of_plan_order_eq {before after : List MethodId} {id : MethodId}
    (h : (program.plan root).order = before ++ id :: after) : (before ++ [id]).Nodup := by
  have hnodup := program.nodup_plan_order root
  rw [h, List.append_cons] at hnodup
  exact (List.nodup_append.mp hnodup).1

/-- The root is planned after every other method. -/
theorem root_mem_of_plan_order_eq {before after : List MethodId} {id : MethodId}
    (h : (program.plan root).order = before ++ id :: after) : root ∈ id :: after := by
  have hlast : (before ++ id :: after).getLast (by simp) = root := by
    simp only [← h, plan_order_eq, List.getLast_append_singleton]
  rw [List.getLast_append_of_ne_nil _ (List.cons_ne_nil id after)] at hlast
  exact hlast ▸ List.getLast_mem _

/-- What stands in a plan from some point on does not stand before it. -/
theorem not_mem_of_plan_order_eq {before after : List MethodId} {id other : MethodId}
    (h : (program.plan root).order = before ++ id :: after) (hother : other ∈ id :: after) :
    other ∉ before := by
  have hnodup := program.nodup_plan_order root
  rw [h] at hnodup
  exact fun hbefore => (List.nodup_append.mp hnodup).2.2 other hbefore other hother rfl

end Program

end AsyncLift
