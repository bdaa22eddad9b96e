import AsyncLift.Program.Builder
import AsyncLift.Proofs.PassRun
import Mathlib.Data.List.Nodup

/-!
# What a pass does to the nodes

A pass edits the node store and reports each edit. `Pass.Traces` relates the store that a pass
started from to the pass as it stands: which nodes are settled, which entries the report has, and
what has become of every old node. It holds at the outset and is kept by every step
(`Traces.step`), so it holds of every pass, whatever search finds the references
(`passOver_traces`).

An entry tells of an old call in one of two ways:

* `RetargetedCall.Kept`: the call stands in its old place, with the entry's target;
* `RetargetedCall.Wrapped`: an `await` stands there, and the call below it in a fresh place.

`runWith_edits_nodes`: each old node either is as it was and no entry accounts for it, or is told of
by exactly one entry in exactly one of these ways, and every fresh node comes from the second.
-/

namespace AsyncLift

/-- Exactly one of three statements holds. -/
def ExactlyOne (p q r : Prop) : Prop := p ∧ ¬ q ∧ ¬ r ∨ ¬ p ∧ q ∧ ¬ r ∨ ¬ p ∧ ¬ q ∧ r

namespace RetargetedCall

variable {entry other : RetargetedCall} {old new : NodeStore} {id : NodeId}

/-- The call stands where it stood, with its receiver and arguments and the entry's target. -/
def Kept (entry : RetargetedCall) (old new : NodeStore) (id : NodeId) : Prop :=
  entry.node = id ∧ ∃ receiver name target args name',
    old.get? id = some (.call receiver name target args) ∧
      new.get? id = some (.call receiver name' (some entry.target) args)

/-- The call is awaited and has moved to a fresh place, with its receiver and arguments and the
entry's target; an `await` of it stands in its old place. -/
def Wrapped (entry : RetargetedCall) (old new : NodeStore) (id : NodeId) : Prop :=
  entry.awaited = true ∧ old.size ≤ entry.node ∧ ∃ receiver name target args name',
    old.get? id = some (.call receiver name target args) ∧
      new.get? id = some (.await (some entry.node)) ∧
        new.get? entry.node = some (.call receiver name' (some entry.target) args)

/-- The entry is about the place of an old node, or about a call that an `await` in the place of an
old call waits for. -/
def AccountsFor (entry : RetargetedCall) (old new : NodeStore) (id : NodeId) : Prop :=
  entry.node = id ∨
    (old.get? id).any (·.isCall) = true ∧ new.get? id = some (.await (some entry.node))

theorem Kept.get?_call (h : entry.Kept old new id) :
    ∃ receiver name args, new.get? id = some (.call receiver name (some entry.target) args) := by
  obtain ⟨-, receiver, -, -, args, name', -, hnew⟩ := h
  exact ⟨receiver, name', args, hnew⟩

theorem Wrapped.get?_await (h : entry.Wrapped old new id) :
    new.get? id = some (.await (some entry.node)) := by
  obtain ⟨-, -, receiver, name, target, args, name', -, hawait, -⟩ := h
  exact hawait

/-- Two entries that tell of a call moved from the same place tell of the same call. -/
theorem Wrapped.node_eq (h : entry.Wrapped old new id)
    (hawait : new.get? id = some (.await (some other.node))) : other.node = entry.node := by
  rw [h.get?_await] at hawait
  injection hawait with hnode
  injection hnode with hoperand
  exact (Option.some.inj hoperand).symm

theorem Kept.accountsFor (h : entry.Kept old new id) : entry.AccountsFor old new id := .inl h.1

theorem Wrapped.accountsFor (h : entry.Wrapped old new id) : entry.AccountsFor old new id := by
  obtain ⟨-, -, receiver, name, target, args, name', hold, hawait, -⟩ := h
  exact .inr ⟨by rw [hold]; rfl, hawait⟩

theorem Kept.not_wrapped (h : entry.Kept old new id) : ¬ other.Wrapped old new id := by
  intro hwrapped
  obtain ⟨receiver, name, args, hcall⟩ := h.get?_call
  rw [hwrapped.get?_await] at hcall
  cases hcall

theorem Kept.congr {new' : NodeStore} (h : entry.Kept old new id)
    (hid : new'.get? id = new.get? id) : entry.Kept old new' id := by
  obtain ⟨hnode, receiver, name, target, args, name', hold, hnew⟩ := h
  exact ⟨hnode, receiver, name, target, args, name', hold, hid.trans hnew⟩

theorem Wrapped.congr {new' : NodeStore} (h : entry.Wrapped old new id)
    (hid : new'.get? id = new.get? id) (hnode : new'.get? entry.node = new.get? entry.node) :
    entry.Wrapped old new' id := by
  obtain ⟨hawaited, hfresh, receiver, name, target, args, name', hold, hawait, hcall⟩ := h
  exact ⟨hawaited, hfresh, receiver, name, target, args, name', hold, hid.trans hawait,
    hnode.trans hcall⟩

end RetargetedCall

namespace Pass

/-! ## The invariant -/

/-- How a pass relates to the node store that it started from. -/
structure Traces (old : NodeStore) (pass : Pass) : Prop where
  size_le : old.size ≤ pass.program.nodes.size
  visited_known : ∀ id ∈ pass.visited, id < pass.program.nodes.size
  /-- An old node that is not settled is as it was. -/
  untouched : ∀ id < old.size, id ∉ pass.visited →
    pass.program.nodes.get? id = old.get? id
  /-- An old node is as it was, or an entry tells what has become of it. -/
  told : ∀ id < old.size, pass.program.nodes.get? id = old.get? id ∨
    ∃ entry ∈ pass.report.retargeted,
      entry.Kept old pass.program.nodes id ∨ entry.Wrapped old pass.program.nodes id
  /-- Every entry tells of an old node. -/
  entries : ∀ entry ∈ pass.report.retargeted, entry.node ∈ pass.visited ∧
    ∃ id < old.size, id ∈ pass.visited ∧
      (entry.Kept old pass.program.nodes id ∨ entry.Wrapped old pass.program.nodes id)
  /-- Every fresh node is the call of an entry. -/
  fresh : ∀ id, old.size ≤ id → id < pass.program.nodes.size →
    ∃ entry ∈ pass.report.retargeted, entry.node = id
  nodup : (pass.report.retargeted.map (·.node)).Nodup
  skipped_visited : ∀ skipped ∈ pass.report.skipped, skipped.node ∈ pass.visited

namespace Traces

variable {old : NodeStore} {pass pass' : Pass} {admits : Warrant} {id : NodeId}
  {entry other : RetargetedCall}

theorem start (program : Program) (order : List MethodId) :
    Traces program.nodes { program, report := { plan := order } } where
  size_le := Nat.le_refl _
  visited_known _ h := nomatch h
  untouched _ _ _ := rfl
  told _ _ := .inl rfl
  entries _ h := nomatch h
  fresh _ hle hlt := absurd hlt (Nat.not_lt.mpr hle)
  nodup := List.nodup_nil
  skipped_visited _ h := nomatch h

theorem fresh_visited (h : Traces old pass) (hle : old.size ≤ id)
    (hlt : id < pass.program.nodes.size) : id ∈ pass.visited := by
  obtain ⟨entry, hentry, rfl⟩ := h.fresh id hle hlt
  exact (h.entries entry hentry).1

/-- What is not settled is an old node, still as it was. -/
theorem get?_of_not_visited (h : Traces old pass) {node : Node} (hnew : id ∉ pass.visited)
    (hnode : pass.program.nodes.get? id = some node) :
    id < old.size ∧ old.get? id = some node := by
  have hold : id < old.size := by
    by_contra hge
    exact hnew (h.fresh_visited (Nat.le_of_not_lt hge) (NodeStore.lt_size_of_get? hnode))
  exact ⟨hold, (h.untouched id hold hnew).symm.trans hnode⟩

/-- The call of an entry stands where the entry says, with the entry's target. -/
theorem get?_entry (h : Traces old pass) (hentry : entry ∈ pass.report.retargeted) :
    ∃ receiver name args,
      pass.program.nodes.get? entry.node = some (.call receiver name (some entry.target) args) := by
  obtain ⟨-, slot, -, -, hkept | hwrapped⟩ := h.entries entry hentry
  · rw [hkept.1]
    exact hkept.get?_call
  · obtain ⟨-, -, receiver, name, target, args, name', -, -, hcall⟩ := hwrapped
    exact ⟨receiver, name', args, hcall⟩

/-- A pass relates to its own nodes as to the ones it started from: the entries so far tell of calls
that stand in their places. -/
theorem restart (h : Traces old pass) : Traces pass.program.nodes pass where
  size_le := Nat.le_refl _
  visited_known := h.visited_known
  untouched _ _ _ := rfl
  told _ _ := .inl rfl
  entries entry hentry := by
    have hvisited := (h.entries entry hentry).1
    obtain ⟨receiver, name, args, hcall⟩ := h.get?_entry hentry
    exact ⟨hvisited, entry.node, h.visited_known _ hvisited, hvisited,
      .inl ⟨rfl, receiver, name, some entry.target, args, name, hcall, hcall⟩⟩
  fresh _ hle hlt := absurd hlt (Nat.not_lt.mpr hle)
  nodup := h.nodup
  skipped_visited := h.skipped_visited

theorem eq_of_node_eq (h : Traces old pass) (hentry : entry ∈ pass.report.retargeted)
    (hother : other ∈ pass.report.retargeted) (hnode : entry.node = other.node) :
    entry = other :=
  List.inj_on_of_nodup_map h.nodup hentry hother hnode

theorem visit (h : Traces old pass) (hid : id < pass.program.nodes.size) :
    Traces old (pass.visit id) where
  size_le := h.size_le
  visited_known other hother := by
    rcases List.mem_cons.mp hother with rfl | hother
    · exact hid
    · exact h.visited_known other hother
  untouched other hlt hother := h.untouched other hlt (List.not_mem_of_not_mem_cons hother)
  told := h.told
  entries entry hentry := by
    obtain ⟨hnode, slot, hslot, hvisited, hfate⟩ := h.entries entry hentry
    exact ⟨List.mem_cons_of_mem _ hnode, slot, hslot, List.mem_cons_of_mem _ hvisited, hfate⟩
  fresh := h.fresh
  nodup := h.nodup
  skipped_visited skipped hskipped := List.mem_cons_of_mem _ (h.skipped_visited skipped hskipped)

theorem skip (h : Traces old pass) {site : CallSite} (hsite : site.node ∈ pass.visited)
    (reason : SkipReason) : Traces old (pass.skip site reason) where
  size_le := h.size_le
  visited_known := h.visited_known
  untouched := h.untouched
  told := h.told
  entries := h.entries
  fresh := h.fresh
  nodup := h.nodup
  skipped_visited skipped hskipped := by
    rcases List.mem_append.mp hskipped with hold | hnew
    · exact h.skipped_visited skipped hold
    · rw [List.mem_singleton.mp hnew]
      exact hsite

/-- Recording an edit: nothing but the edited place and the place of the call changes, the call was
not settled before, and the entry tells of the edit. -/
theorem record (h : Traces old pass) {nodes : NodeStore} (hid : id < old.size)
    (hnew : id ∉ pass.visited) (hentry : entry.node ∉ pass.visited)
    (hsize : pass.program.nodes.size ≤ nodes.size) (hknown : entry.node < nodes.size)
    (hsame : ∀ other, other ≠ id → other ≠ entry.node →
      nodes.get? other = pass.program.nodes.get? other)
    (hgrown : ∀ other, pass.program.nodes.size ≤ other → other < nodes.size → entry.node = other)
    (hfate : entry.Kept old nodes id ∨ entry.Wrapped old nodes id) :
    Traces old (pass.record id nodes entry) := by
  have hvisited : ∀ other ∈ pass.visited, nodes.get? other = pass.program.nodes.get? other :=
    fun other hother => hsame other (fun heq => hnew (heq ▸ hother))
      (fun heq => hentry (heq ▸ hother))
  -- What the earlier entries tell of is settled, so it stays as they tell it.
  have hearlier : ∀ entry ∈ pass.report.retargeted, entry.node ∈ pass.visited ∧
      ∃ id < old.size, id ∈ pass.visited ∧
        (entry.Kept old nodes id ∨ entry.Wrapped old nodes id) := by
    intro entry hmem
    obtain ⟨hnode, slot, hslot, hsettled, hkept | hwrapped⟩ := h.entries entry hmem
    · exact ⟨hnode, slot, hslot, hsettled, .inl (hkept.congr (hvisited slot hsettled))⟩
    · exact ⟨hnode, slot, hslot, hsettled,
        .inr (hwrapped.congr (hvisited slot hsettled) (hvisited entry.node hnode))⟩
  refine ⟨Nat.le_trans h.size_le hsize, ?_, ?_, ?_, ?_, ?_, ?_, ?_⟩
  · intro other hother
    simp only [Pass.record, List.mem_cons] at hother ⊢
    rcases hother with rfl | rfl | hother
    · exact hknown
    · exact Nat.lt_of_lt_of_le hid (Nat.le_trans h.size_le hsize)
    · exact Nat.lt_of_lt_of_le (h.visited_known other hother) hsize
  · intro other hlt hother
    simp only [Pass.record, List.mem_cons, not_or] at hother ⊢
    exact (hsame other hother.2.1 hother.1).trans (h.untouched other hlt hother.2.2)
  · intro other hlt
    simp only [Pass.record, List.mem_append, List.mem_singleton]
    by_cases hother : other = id
    · subst hother
      exact .inr ⟨entry, .inr rfl, hfate⟩
    · by_cases hsettled : other ∈ pass.visited
      · rw [hvisited other hsettled]
        rcases h.told other hlt with hsame | ⟨entry', hmem, hkept | hwrapped⟩
        · exact .inl hsame
        · exact .inr ⟨entry', .inl hmem, .inl (hkept.congr (hvisited other hsettled))⟩
        · have hnode := (h.entries entry' hmem).1
          exact .inr ⟨entry', .inl hmem,
            .inr (hwrapped.congr (hvisited other hsettled) (hvisited entry'.node hnode))⟩
      · by_cases hplace : other = entry.node
        · rcases hfate with hkept | hwrapped
          · exact absurd (hplace.trans hkept.1) hother
          · exact absurd hwrapped.2.1 (Nat.not_le.mpr (hplace ▸ hlt))
        · exact .inl ((hsame other hother hplace).trans (h.untouched other hlt hsettled))
  · intro entry' hmem
    simp only [Pass.record, List.mem_cons] at hmem ⊢
    rcases List.mem_append.mp hmem with hmem | hmem
    · obtain ⟨hnode, slot, hslot, hsettled, hfate'⟩ := hearlier entry' hmem
      exact ⟨.inr (.inr hnode), slot, hslot, .inr (.inr hsettled), hfate'⟩
    · rw [List.mem_singleton.mp hmem]
      exact ⟨.inl rfl, id, hid, .inr (.inl rfl), hfate⟩
  · intro other hle hlt
    simp only [Pass.record, List.mem_append, List.mem_singleton] at hlt ⊢
    by_cases hsize' : pass.program.nodes.size ≤ other
    · exact ⟨entry, .inr rfl, hgrown other hsize' hlt⟩
    · obtain ⟨entry', hmem, hnode⟩ := h.fresh other hle (Nat.lt_of_not_le hsize')
      exact ⟨entry', .inl hmem, hnode⟩
  · simp only [Pass.record, List.map_append, List.map_cons, List.map_nil]
    refine List.nodup_append.mpr ⟨h.nodup, List.nodup_singleton _, ?_⟩
    rintro place hplace place' hplace' rfl
    obtain ⟨entry', hmem, rfl⟩ := List.mem_map.mp hplace
    exact hentry (List.mem_singleton.mp hplace' ▸ (h.entries entry' hmem).1)
  · intro skipped hskipped
    exact List.mem_cons_of_mem _ (List.mem_cons_of_mem _ (h.skipped_visited skipped hskipped))

/-- A call that is replaced in its place is kept. -/
theorem kept_of_inPlace (h : Traces old pass) {receiver : Slot} {name name' : String}
    {target : Option MethodId} {args : List Slot} {nodes : NodeStore} (hnew : id ∉ pass.visited)
    (hnode : pass.program.nodes.get? id = some (.call receiver name target args))
    (hentry : entry.node = id)
    (hnodes : pass.program.nodes.InPlace id (.call receiver name' (some entry.target) args)
      nodes) : entry.Kept old nodes id := by
  have hold := (h.get?_of_not_visited hnew hnode).2
  have hcall : nodes.get? id = some (.call receiver name' (some entry.target) args) :=
    (hnodes.get?_eq id).trans (if_pos rfl)
  exact ⟨hentry, receiver, name, target, args, name', hold, hcall⟩

/-- A call that moves below an `await` is wrapped. -/
theorem wrapped_of_moved (h : Traces old pass) {receiver : Slot} {name name' : String}
    {target : Option MethodId} {args : List Slot} {nodes : NodeStore} (hnew : id ∉ pass.visited)
    (hnode : pass.program.nodes.get? id = some (.call receiver name target args))
    (hentry : entry.node = pass.program.nodes.size) (hasync : entry.awaited = true)
    (hnodes : pass.program.nodes.Moved id (.call receiver name' (some entry.target) args)
      nodes) : entry.Wrapped old nodes id := by
  have hold := (h.get?_of_not_visited hnew hnode).2
  have hne : entry.node ≠ id := by
    rw [hentry]
    exact Nat.ne_of_gt (NodeStore.lt_size_of_get? hnode)
  have hawait : nodes.get? id = some (.await (some entry.node)) := by
    rw [hnodes.get?_eq, if_pos rfl, hentry]
  have hcall : nodes.get? entry.node =
      some (.call receiver name' (some entry.target) args) := by
    rw [hnodes.get?_eq, if_neg hne, if_pos hentry]
  exact ⟨hasync, hentry ▸ h.size_le, receiver, name, target, args, name', hold, hawait, hcall⟩

/-- Every step keeps the relation to the old store. -/
theorem step (hstep : Step admits pass pass') (h : Traces old pass) : Traces old pass' := by
  cases hstep with
  | kept hnew hnode hadmits => exact h.visit (NodeStore.lt_size_of_get? hnode)
  | skipped reason hnew hnode hadmits =>
    exact (h.visit (NodeStore.lt_size_of_get? hnode)).skip List.mem_cons_self reason
  | @renamed node receiver name target args method nodes entry hnew hnode hadmits hmethod hentry
      hawaited hnodes =>
    have hid := (h.get?_of_not_visited hnew hnode).1
    have hknown : entry.node < nodes.size := by
      rw [hentry, hnodes.size_eq]
      exact NodeStore.lt_size_of_get? hnode
    refine h.record hid hnew (hentry ▸ hnew) (Nat.le_of_eq hnodes.size_eq.symm) hknown ?_ ?_
      (.inl (h.kept_of_inPlace hnew hnode hentry hnodes))
    · intro other hother _
      rw [hnodes.get?_eq, if_neg hother]
    · intro other hle hlt
      rw [hnodes.size_eq] at hlt
      exact absurd hlt (Nat.not_lt.mpr hle)
  | @wrapped node receiver name target args method nodes entry hnew hnode hadmits hmethod hentry
      hawaited hasync hnodes =>
    have hid := (h.get?_of_not_visited hnew hnode).1
    have hfresh : entry.node ∉ pass.visited := fun hmem =>
      absurd (h.visited_known _ hmem) (by rw [hentry]; exact Nat.lt_irrefl _)
    have hknown : entry.node < nodes.size := by
      rw [hentry, hnodes.size_eq]
      exact Nat.lt_succ_self _
    refine h.record hid hnew hfresh (by rw [hnodes.size_eq]; exact Nat.le_succ _) hknown ?_ ?_
      (.inr (h.wrapped_of_moved hnew hnode hentry hasync hnodes))
    · intro other hother hplace
      rw [hnodes.get?_eq, if_neg hother, if_neg (hentry ▸ hplace)]
    · intro other hle hlt
      rw [hnodes.size_eq] at hlt
      exact hentry.trans (Nat.le_antisymm hle (Nat.le_of_lt_succ hlt))

theorem steps (hsteps : Steps admits pass pass') (h : Traces old pass) : Traces old pass' :=
  hsteps.invariant (fun _ _ step h => h.step step) h

theorem lift (h : Traces old pass) (options : Options) (id : MethodId) :
    Traces old (pass.lift options id) := by
  constructor <;> simp only [lift_nodes, lift_visited, lift_retargeted, lift_skipped]
  · exact h.size_le
  · exact h.visited_known
  · exact h.untouched
  · exact h.told
  · exact h.entries
  · exact h.fresh
  · exact h.nodup
  · exact h.skipped_visited

/-! ## Which entry accounts for a node -/

/-- An entry that accounts for an old node tells what has become of it. -/
theorem fate_of_accountsFor (h : Traces old pass) (hid : id < old.size)
    (hentry : entry ∈ pass.report.retargeted)
    (haccounts : entry.AccountsFor old pass.program.nodes id) :
    entry.Kept old pass.program.nodes id ∨ entry.Wrapped old pass.program.nodes id := by
  rcases haccounts with hnode | ⟨hcall, hawait⟩
  · obtain ⟨-, slot, -, -, hkept | hwrapped⟩ := h.entries entry hentry
    · have hslot : slot = id := hkept.1.symm.trans hnode
      exact .inl (hslot ▸ hkept)
    · exact absurd hwrapped.2.1 (Nat.not_le.mpr (hnode ▸ hid))
  · rcases h.told id hid with hsame | ⟨other, hother, hkept | hwrapped⟩
    · rw [← hsame, hawait] at hcall
      cases hcall
    · obtain ⟨receiver, name, args, hstill⟩ := hkept.get?_call
      rw [hawait] at hstill
      cases hstill
    · exact .inr (h.eq_of_node_eq hentry hother (hwrapped.node_eq hawait) ▸ hwrapped)

theorem eq_of_accountsFor (h : Traces old pass) (hid : id < old.size)
    (hentry : entry ∈ pass.report.retargeted) (hother : other ∈ pass.report.retargeted)
    (haccounts : entry.AccountsFor old pass.program.nodes id)
    (haccounts' : other.AccountsFor old pass.program.nodes id) : other = entry := by
  rcases h.fate_of_accountsFor hid hentry haccounts with hkept | hwrapped
  · rcases h.fate_of_accountsFor hid hother haccounts' with hkept' | hwrapped'
    · exact h.eq_of_node_eq hother hentry (hkept'.1.trans hkept.1.symm)
    · exact absurd hwrapped' hkept.not_wrapped
  · rcases h.fate_of_accountsFor hid hother haccounts' with hkept' | hwrapped'
    · exact absurd hwrapped hkept'.not_wrapped
    · exact h.eq_of_node_eq hother hentry (hwrapped.node_eq hwrapped'.get?_await)

/-- A node is as it was, or it was a call or not there and is a call or an `await` now. -/
theorem same_or_call (h : Traces old pass) (id : NodeId) :
    pass.program.nodes.get? id = old.get? id ∨
      (old.get? id).all (·.isCall) = true ∧
        ∃ node, pass.program.nodes.get? id = some node ∧
          (node.isCall = true ∨ ∃ operand, node = .await operand) := by
  by_cases hid : id < old.size
  · rcases h.told id hid with hsame | ⟨entry, -, hkept | hwrapped⟩
    · exact .inl hsame
    · obtain ⟨-, receiver, name, target, args, name', hold, hnew⟩ := hkept
      exact .inr ⟨by rw [hold]; rfl, _, hnew, .inl rfl⟩
    · obtain ⟨-, -, receiver, name, target, args, name', hold, hawait, -⟩ := hwrapped
      exact .inr ⟨by rw [hold]; rfl, _, hawait, .inr ⟨_, rfl⟩⟩
  · have hold := NodeStore.get?_eq_none (Nat.le_of_not_lt hid)
    by_cases hnew : id < pass.program.nodes.size
    · obtain ⟨entry, hentry, rfl⟩ := h.fresh id (Nat.le_of_not_lt hid) hnew
      obtain ⟨receiver, name, args, hcall⟩ := h.get?_entry hentry
      exact .inr ⟨by rw [hold]; rfl, _, hcall, .inl rfl⟩
    · rw [hold, NodeStore.get?_eq_none (Nat.le_of_not_lt hnew)]
      exact .inl rfl

/-- A node that is no call stays as it is. -/
theorem get?_of_not_call (h : Traces old pass) {node : Node} (hnode : old.get? id = some node)
    (hcall : node.isCall = false) : pass.program.nodes.get? id = some node := by
  rcases h.same_or_call id with hsame | ⟨hold, -⟩
  · exact hsame.trans hnode
  · rw [hnode] at hold
    exact absurd (hold.symm.trans hcall) (by decide)

theorem wrapped_of_fresh (h : Traces old pass) (hle : old.size ≤ id)
    (hlt : id < pass.program.nodes.size) :
    ∃ slot < old.size, ∃ entry ∈ pass.report.retargeted,
      entry.node = id ∧ entry.Wrapped old pass.program.nodes slot := by
  obtain ⟨entry, hentry, rfl⟩ := h.fresh id hle hlt
  obtain ⟨-, slot, hslot, -, hkept | hwrapped⟩ := h.entries entry hentry
  · exact absurd (hkept.1 ▸ hle) (Nat.not_le.mpr hslot)
  · exact ⟨slot, hslot, entry, hentry, rfl, hwrapped⟩

/-- An old node is as it was and unaccounted for, or it is told of by exactly one entry in exactly
one way. -/
theorem exactlyOne (h : Traces old pass) (hid : id < old.size) : ExactlyOne
    ((∀ entry ∈ pass.report.retargeted, ¬ entry.AccountsFor old pass.program.nodes id) ∧
      pass.program.nodes.get? id = old.get? id)
    (∃ entry ∈ pass.report.retargeted, entry.Kept old pass.program.nodes id ∧
      ∀ other ∈ pass.report.retargeted, other.AccountsFor old pass.program.nodes id →
        other = entry)
    (∃ entry ∈ pass.report.retargeted, entry.Wrapped old pass.program.nodes id ∧
      ∀ other ∈ pass.report.retargeted, other.AccountsFor old pass.program.nodes id →
        other = entry) := by
  by_cases htold : ∃ entry ∈ pass.report.retargeted,
      entry.AccountsFor old pass.program.nodes id
  · obtain ⟨entry, hentry, haccounts⟩ := htold
    have hunique : ∀ other ∈ pass.report.retargeted,
        other.AccountsFor old pass.program.nodes id → other = entry :=
      fun other hother haccounts' => h.eq_of_accountsFor hid hentry hother haccounts haccounts'
    rcases h.fate_of_accountsFor hid hentry haccounts with hkept | hwrapped
    · refine .inr (.inl ⟨fun hnone => hnone.1 entry hentry haccounts,
        ⟨entry, hentry, hkept, hunique⟩, ?_⟩)
      rintro ⟨other, -, hwrapped, -⟩
      exact hkept.not_wrapped hwrapped
    · refine .inr (.inr ⟨fun hnone => hnone.1 entry hentry haccounts, ?_,
        ⟨entry, hentry, hwrapped, hunique⟩⟩)
      rintro ⟨other, -, hkept, -⟩
      exact hkept.not_wrapped hwrapped
  · have hnone : ∀ entry ∈ pass.report.retargeted,
        ¬ entry.AccountsFor old pass.program.nodes id :=
      fun entry hentry haccounts => htold ⟨entry, hentry, haccounts⟩
    refine .inl ⟨⟨hnone, ?_⟩, ?_, ?_⟩
    · rcases h.told id hid with hsame | ⟨entry, hentry, hkept | hwrapped⟩
      · exact hsame
      · exact absurd hkept.accountsFor (hnone entry hentry)
      · exact absurd hwrapped.accountsFor (hnone entry hentry)
    · rintro ⟨entry, hentry, hkept, -⟩
      exact hnone entry hentry hkept.accountsFor
    · rintro ⟨entry, hentry, hwrapped, -⟩
      exact hnone entry hentry hwrapped.accountsFor

end Traces

end Pass

/-! ## Conversions -/

namespace Conversion

open Pass

theorem passOver_traces {options : Options} {search : ReferenceSearch} {planned : List MethodId}
    {old : NodeStore} {pass : Pass} (h : Traces old pass) (ids : List MethodId) :
    Traces old (passOver options search planned pass ids) :=
  passOver_invariant (fun _ id h => h.lift options id) (fun _ _ step h => h.step step) h ids

theorem passAfter_traces (options : Options) (search : ReferenceSearch) (program : Program)
    (root : MethodId) (ids : List MethodId) :
    Traces program.nodes (passAfter options search program root ids) :=
  passOver_traces (Traces.start program _) ids

variable {options : Options} {search : ReferenceSearch} {program final : Program}
  {root : MethodId} {report : Report}

/-- A conversion that succeeds is an exact and fully reported edit of the nodes, whatever search
finds the references. Each old node is as it was and no entry accounts for it; or the only entry
that accounts for it tells that the call stands in its place; or the only one tells that it was
moved below an `await`. Fresh nodes come only from such moves, and what is no call never changes. -/
theorem runWith_edits_nodes
    (hrun : runWith options search program root = (.ok report, final)) :
    program.nodes.size ≤ final.nodes.size ∧
    (report.retargeted.map (·.node)).Nodup ∧
    (∀ id < program.nodes.size, ExactlyOne
      ((∀ entry ∈ report.retargeted, ¬ entry.AccountsFor program.nodes final.nodes id) ∧
        final.nodes.get? id = program.nodes.get? id)
      (∃ entry ∈ report.retargeted, entry.Kept program.nodes final.nodes id ∧
        ∀ other ∈ report.retargeted, other.AccountsFor program.nodes final.nodes id →
          other = entry)
      (∃ entry ∈ report.retargeted, entry.Wrapped program.nodes final.nodes id ∧
        ∀ other ∈ report.retargeted, other.AccountsFor program.nodes final.nodes id →
          other = entry)) ∧
    (∀ id, program.nodes.size ≤ id → id < final.nodes.size →
      ∃ slot < program.nodes.size, ∃ entry ∈ report.retargeted,
        entry.node = id ∧ entry.Wrapped program.nodes final.nodes slot) ∧
    (∀ id node, program.nodes.get? id = some node → node.isCall = false →
      final.nodes.get? id = some node) := by
  obtain ⟨-, rfl, rfl⟩ := passAfter_of_runWith_ok hrun
  have htraces := passAfter_traces options search program root (program.plan root).order
  exact ⟨htraces.size_le, htraces.nodup, fun id hid => htraces.exactlyOne hid,
    fun id hle hlt => htraces.wrapped_of_fresh hle hlt,
    fun id node hnode hcall => htraces.get?_of_not_call hnode hcall⟩

/-- A method that is overridden, with references to both methods: a call in the overridden method, a
call and a method group in a method that is not planned, and a call in an initializer. -/
def overriddenLoad : Program :=
  (Builder.withMain.run
    [.addType .ofClass "Source", .addType .ofClass "FileSource", .setBaseClass 1 0,
      .addMethod 0 { name := "Load", modifiers := { isVirtual := true } },
      .addMethod 1 { name := "Load", modifiers := { isOverride := true } },
      .addMethod 0 { name := "Run" },
      .call none 1 [], .exprStatement (some 0), .setBody 0 [some 1],
      .call none 0 [], .methodGroup 1, .localVar "load" (some 4), .exprStatement (some 3),
      .setBody 2 [some 6, some 5],
      .call none 0 [], .addField 0 "first" (some 8)]).program

theorem runWith_edits_nodes_overriddenLoad :
    ∃ report final, run {} overriddenLoad 1 = (.ok report, final) ∧
      (∃ slot < 10, ∃ entry ∈ report.retargeted,
        entry.node = 10 ∧ entry.Wrapped overriddenLoad.nodes final.nodes slot) ∧
      final.nodes.get? 4 = some (.methodGroup none "Load" (some 1)) := by
  have hrun : run {} overriddenLoad 1 = _ :=
    runWith_of_declared (by decide +kernel) (by decide +kernel)
  obtain ⟨-, -, -, hfresh, hothers⟩ := runWith_edits_nodes hrun
  exact ⟨_, _, hrun, hfresh 10 (by decide +kernel) (by decide +kernel),
    hothers 4 _ (by decide +kernel) rfl⟩

end Conversion

end AsyncLift
