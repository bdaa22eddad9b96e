import AsyncLift.Ids

/-!
# Registers of root nodes

What is known about the roots of bodies and initializers: for each registered node one value.
-/

namespace AsyncLift

structure Register (α : Type) where
  entries : List (NodeId × α) := []
deriving DecidableEq, Repr, Inhabited

namespace Register

variable {α : Type}

def find? (register : Register α) (node : NodeId) : Option α := register.entries.lookup node

def erase (register : Register α) (node : NodeId) : Register α where
  entries := register.entries.filter (·.1 != node)

def insert (register : Register α) (node : NodeId) (value : α) : Register α where
  entries := (node, value) :: (register.erase node).entries

@[simp]
theorem find?_empty (node : NodeId) : (({} : Register α).find? node) = none := rfl

theorem lookup_cons_of_ne {entries : List (NodeId × α)} {key node : NodeId} {value : α}
    (h : node ≠ key) : ((key, value) :: entries).lookup node = entries.lookup node := by
  rw [List.lookup_cons, beq_false_of_ne h]

theorem find?_erase (register : Register α) (erased node : NodeId) :
    (register.erase erased).find? node = if node = erased then none else register.find? node := by
  simp only [find?, erase]
  induction register.entries with
  | nil => simp
  | cons entry entries ih =>
    obtain ⟨key, value⟩ := entry
    by_cases hk : key = erased
    · rw [List.filter_cons_of_neg (by simpa using hk), ih]
      by_cases hn : node = erased
      · simp [hn]
      · rw [lookup_cons_of_ne fun h => hn (h.trans hk)]
    · rw [List.filter_cons_of_pos (by simpa using hk)]
      by_cases hn : node = key
      · subst hn
        simp [hk]
      · rw [lookup_cons_of_ne hn, lookup_cons_of_ne hn, ih]

theorem find?_insert (register : Register α) (inserted node : NodeId) (value : α) :
    (register.insert inserted value).find? node =
      if node = inserted then some value else register.find? node := by
  have herase := find?_erase register inserted node
  by_cases h : node = inserted
  · subst h
    simp [find?, insert]
  · rw [if_neg h] at herase ⊢
    rw [← herase]
    exact lookup_cons_of_ne h

end Register

end AsyncLift
