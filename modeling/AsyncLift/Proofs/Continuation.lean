import AsyncLift.Proofs.StoreEdits

/-!
# What stays once a node is settled

`Pass.Continues` relates two points of a pass. From the earlier to the later, settled nodes stay as
they are, the report only grows, and what is added to it is about nodes that were not settled. So
what a pass says of a node when it settles it is what the report says of it in the end
(`skipped_once`, `mem_retargeted`).

The second half turns to the point itself: how a pass comes to settle a node that the search finds
(`convertMethod_turn`), and what it then does (`retargetSite_eq_skip`, `retargetSite_eq_record`).
-/

namespace AsyncLift

namespace Pass

/-- The later pass goes on from the earlier one. -/
structure Continues (earlier later : Pass) : Prop where
  size_le : earlier.program.nodes.size ≤ later.program.nodes.size
  visited : earlier.visited ⊆ later.visited
  settled : ∀ id ∈ earlier.visited,
    later.program.nodes.get? id = earlier.program.nodes.get? id
  retargeted : ∃ more, later.report.retargeted = earlier.report.retargeted ++ more ∧
    ∀ entry ∈ more, entry.node ∉ earlier.visited
  skipped : ∃ more, later.report.skipped = earlier.report.skipped ++ more ∧
    ∀ skipped ∈ more, skipped.node ∉ earlier.visited

variable {admits : Warrant} {earlier later pass pass' : Pass} {old : NodeStore} {node : NodeId}

namespace Continues

theorem refl (pass : Pass) : Continues pass pass where
  size_le := Nat.le_refl _
  visited := List.Subset.refl _
  settled _ _ := rfl
  retargeted := ⟨[], (List.append_nil _).symm, fun _ h => nomatch h⟩
  skipped := ⟨[], (List.append_nil _).symm, fun _ h => nomatch h⟩

theorem lift (h : Continues earlier pass) (options : Options) (id : MethodId) :
    Continues earlier (pass.lift options id) := by
  constructor <;> simp only [lift_nodes, lift_visited, lift_retargeted, lift_skipped]
  · exact h.size_le
  · exact h.visited
  · exact h.settled
  · exact h.retargeted
  · exact h.skipped

/-- Recording an edit of nodes that were not settled, at the place of the call and where the entry
says. -/
theorem record (h : Continues earlier pass) {nodes : NodeStore} {entry : RetargetedCall}
    (hsize : pass.program.nodes.size ≤ nodes.size) (hnew : node ∉ earlier.visited)
    (hentry : entry.node ∉ earlier.visited)
    (hsame : ∀ other, other ≠ node → other ≠ entry.node →
      nodes.get? other = pass.program.nodes.get? other) :
    Continues earlier (pass.record node nodes entry) where
  size_le := Nat.le_trans h.size_le hsize
  visited id hid := List.mem_cons_of_mem _ (List.mem_cons_of_mem _ (h.visited hid))
  settled id hid := by
    have hplace : id ≠ node := fun heq => hnew (heq ▸ hid)
    have hcall : id ≠ entry.node := fun heq => hentry (heq ▸ hid)
    exact (hsame id hplace hcall).trans (h.settled id hid)
  retargeted := by
    obtain ⟨more, hmore, hnodes⟩ := h.retargeted
    refine ⟨more ++ [entry], by rw [Pass.record, hmore, List.append_assoc], ?_⟩
    intro other hother
    rcases List.mem_append.mp hother with hother | hother
    · exact hnodes other hother
    · rw [List.mem_singleton.mp hother]
      exact hentry
  skipped := h.skipped

/-- A step settles a node that was not settled, so it does not touch what was settled earlier. -/
theorem step (hknown : ∀ id ∈ earlier.visited, id < earlier.program.nodes.size)
    (hstep : Step admits pass pass') (h : Continues earlier pass) : Continues earlier pass' := by
  cases hstep with
  | kept =>
    exact ⟨h.size_le, List.subset_cons_of_subset _ h.visited, h.settled, h.retargeted, h.skipped⟩
  | @skipped site reference reason hnew _ _ =>
    refine ⟨h.size_le, List.subset_cons_of_subset _ h.visited, h.settled, h.retargeted, ?_⟩
    obtain ⟨more, hmore, hnodes⟩ := h.skipped
    refine ⟨more ++ [⟨site.node, site.method, reason⟩], ?_, ?_⟩
    · simp only [skip, visit, hmore, List.append_assoc]
    · intro other hother
      rcases List.mem_append.mp hother with hother | hother
      · exact hnodes other hother
      · rw [List.mem_singleton.mp hother]
        exact fun hmem => hnew (h.visited hmem)
  | renamed hnew _ _ _ hentry _ hnodes =>
    have hearlier := fun hmem => hnew (h.visited hmem)
    refine h.record (Nat.le_of_eq hnodes.size_eq.symm) hearlier (hentry ▸ hearlier) ?_
    intro other hother _
    rw [hnodes.get?_eq, if_neg hother]
  | @wrapped _ _ _ _ _ _ _ entry hnew _ _ _ hentry _ _ hnodes =>
    have hsize : pass.program.nodes.size ≤ pass.program.nodes.size + 1 := Nat.le_succ _
    refine h.record (hnodes.size_eq ▸ hsize) (fun hmem => hnew (h.visited hmem)) ?_ ?_
    · intro hmem
      have hlt := hknown entry.node hmem
      rw [hentry] at hlt
      exact Nat.not_lt.mpr h.size_le hlt
    · intro other hother hplace
      rw [hnodes.get?_eq, if_neg hother, if_neg (hentry ▸ hplace)]

theorem steps (hknown : ∀ id ∈ earlier.visited, id < earlier.program.nodes.size)
    (hsteps : Steps admits pass pass') (h : Continues earlier pass) : Continues earlier pass' :=
  hsteps.invariant (fun _ _ step h => h.step hknown step) h

theorem mem_retargeted (h : Continues earlier later) {entry : RetargetedCall}
    (hentry : entry ∈ earlier.report.retargeted) : entry ∈ later.report.retargeted := by
  obtain ⟨more, hmore, -⟩ := h.retargeted
  rw [hmore]
  exact List.mem_append_left _ hentry

/-- A node that was skipped is listed once ever after, and it stays as it is. -/
theorem skipped_once {site : CallSite} {reason : SkipReason} (htraces : Traces old pass)
    (hnew : site.node ∉ pass.visited)
    (h : Continues ((pass.visit site.node).skip site reason) later) :
    later.report.skipped.filter (·.node == site.node) = [⟨site.node, site.method, reason⟩] ∧
      later.program.nodes.get? site.node = pass.program.nodes.get? site.node := by
  refine ⟨?_, h.settled site.node List.mem_cons_self⟩
  obtain ⟨more, hmore, hnodes⟩ := h.skipped
  have hbefore : pass.report.skipped.filter (·.node == site.node) = [] := by
    refine List.filter_eq_nil_iff.mpr fun skipped hskipped heq => hnew ?_
    rw [← beq_iff_eq.mp heq]
    exact htraces.skipped_visited skipped hskipped
  have hafter : more.filter (·.node == site.node) = [] := by
    refine List.filter_eq_nil_iff.mpr fun skipped hskipped heq => hnodes skipped hskipped ?_
    rw [beq_iff_eq.mp heq]
    exact List.mem_cons_self
  rw [hmore, List.filter_append, hafter, List.append_nil]
  simp only [skip, visit, List.filter_append, hbefore, List.nil_append]
  exact List.filter_cons_of_pos (beq_self_eq_true _)

end Continues

/-- An entry that was not there comes up at some step. -/
theorem Steps.exists_step_of_entry {entry : RetargetedCall} (hsteps : Steps admits pass pass')
    (hentry : entry ∈ pass'.report.retargeted) : entry ∈ pass.report.retargeted ∨
      ∃ middle next, Steps admits pass middle ∧ Step admits middle next ∧
        Steps admits next pass' ∧ entry ∉ middle.report.retargeted ∧
        entry ∈ next.report.retargeted := by
  induction hsteps with
  | refl => exact .inl hentry
  | @tail last pass' hsteps step ih =>
    by_cases hlast : entry ∈ last.report.retargeted
    · rcases ih hlast with hfirst | ⟨middle, next, hbefore, hstep, hafter, hold, hnew⟩
      · exact .inl hfirst
      · exact .inr ⟨middle, next, hbefore, hstep, hafter.tail step, hold, hnew⟩
    · exact .inr ⟨last, pass', hsteps, step, .refl, hlast, hentry⟩

/-! ## Settling a reference -/

theorem retargetSite_eq_skip {site : CallSite} {reason : SkipReason}
    (hnew : site.node ∉ pass.visited)
    (hreason : site.kind = .methodGroup ∧ reason = .notAnInvocation ∨
      site.kind = .invocation ∧ site.enclosing = none ∧ reason = .noEnclosingFunction) :
    pass.retargetSite site = (pass.visit site.node).skip site reason := by
  have hcontains : pass.visited.contains site.node = false := by
    simpa using hnew
  rcases hreason with ⟨hkind, rfl⟩ | ⟨hkind, hnone, rfl⟩
  · simp only [retargetSite, hcontains, hkind]
    rfl
  · simp only [retargetSite, hcontains, hkind, hnone]
    rfl

/-- A call in a function is pointed at the method under the name that the method has now, and it is
awaited if the function is asynchronous now. -/
theorem retargetSite_eq_record {site : CallSite} {enclosing : EnclosingFunction} {method : Method}
    {receiver : Slot} {name : String} {target : Option MethodId} {args : List Slot}
    (hnew : site.node ∉ pass.visited) (hkind : site.kind = .invocation)
    (henclosing : site.enclosing = some enclosing)
    (hmethod : pass.program.methods[site.method]? = some method)
    (hnode : pass.program.nodes.get? site.node = some (.call receiver name target args)) :
    ∃ nodes entry, pass.retargetSite site = pass.record site.node nodes entry ∧
      entry.target = site.method ∧ entry.enclosing = enclosing ∧
      entry.origin = .referenceSearch ∧ entry.awaited = enclosing.isAsync pass.program ∧
      nodes.get? entry.node = some (.call receiver method.name (some site.method) args) ∧
      (entry.node = site.node ∨ nodes.get? site.node = some (.await (some entry.node))) := by
  have hcontains : pass.visited.contains site.node = false := by
    simpa using hnew
  obtain ⟨placement, result, hcall⟩ := Program.retargetCall_isSome hmethod hnode
    (enclosing.isAsync pass.program)
  obtain ⟨method', receiver', name', target', args', hmethod', hnode', hresult, hawaited,
      hplaced⟩ := Program.retargetCall_cases hcall
  cases hmethod.symm.trans hmethod'
  cases hnode.symm.trans hnode'
  have hknown := NodeStore.lt_size_of_get? hnode
  refine ⟨result.nodes, ⟨placement.call, site.method, enclosing, placement.awaited,
    .referenceSearch⟩, ?_, rfl, rfl, rfl, hawaited, ?_, ?_⟩
  · simp only [retargetSite, hcontains, hkind, henclosing, retarget, visit, record, hcall]
    rw [hresult]
    rfl
  · rcases hplaced with ⟨hplace, -, hnodes⟩ | ⟨hplace, -, hnodes⟩
    · exact (hnodes.get?_eq _).trans (if_pos hplace)
    · have hne : placement.call ≠ site.node := hplace ▸ Nat.ne_of_gt hknown
      exact (hnodes.get?_eq _).trans ((if_neg hne).trans (if_pos hplace))
  · rcases hplaced with ⟨hplace, -⟩ | ⟨hplace, -, hnodes⟩
    · exact .inl hplace
    · exact .inr (by rw [hnodes.get?_eq, if_pos rfl, hplace])

end Pass

namespace Conversion

open Pass

variable {options : Options} {search : ReferenceSearch} {planned : List MethodId} {pass : Pass}
  {id : MethodId} {old : NodeStore} {node : NodeId} {site : CallSite}

theorem passOver_continues {earlier : Pass}
    (hknown : ∀ id ∈ earlier.visited, id < earlier.program.nodes.size)
    (h : Continues earlier pass) (ids : List MethodId) :
    Continues earlier (passOver options search planned pass ids) :=
  passOver_invariant (fun _ id h => h.lift options id) (fun _ _ step h => h.step hknown step) h ids

theorem callSites_eq_append {program : Program} {first rest : List NodeId}
    (hsplit : search program id = first ++ node :: rest)
    (hsite : program.callSite? id node = some site) :
    program.callSites search id = first.filterMap (program.callSite? id) ++
      site :: rest.filterMap (program.callSite? id) := by
  simp only [Program.callSites, hsplit, List.filterMap_append, List.filterMap_cons, hsite]

theorem lt_size_of_callSite? {program : Program} (hsite : program.callSite? id node = some site) :
    site.node < program.nodes.size := by
  obtain ⟨rfl, -, -, reference, hnode⟩ := callSite?_eq_some hsite
  exact NodeStore.lt_size_of_get? hnode

/-- Settling what the search has found before a node does not settle the node. -/
theorem not_visited_of_sites {first : List NodeId} (hknown : node < pass.program.nodes.size)
    (hnew : node ∉ pass.visited) (hfirst : node ∉ first) :
    node ∉ ((first.filterMap (pass.program.callSite? id)).foldl retargetSite pass).visited := by
  let listed : Warrant := fun node _ _ _ => node ∈ first
  have hsteps : Steps listed pass
      ((first.filterMap (pass.program.callSite? id)).foldl retargetSite pass) := by
    refine retargetSites_steps fun site hsite _ => ?_
    obtain ⟨place, hplace, hsome⟩ := List.mem_filterMap.mp hsite
    obtain ⟨rfl, -, -, reference, hnode⟩ := callSite?_eq_some hsome
    exact ⟨reference, hnode, hplace⟩
  exact hsteps.not_visited hknown hnew fun _ _ _ => hfirst

/-- A reference that the search finds once and that is not settled yet is settled as it was found,
after the sites in front of it. -/
theorem convertMethod_turn (htraces : Traces old pass) (hnew : node ∉ pass.visited)
    (hnodup : (search (pass.lift options id).program id).Nodup)
    (hfound : node ∈ search (pass.lift options id).program id)
    (hsite : (pass.lift options id).program.callSite? id node = some site)
    (planned : List MethodId) (declarations : List DeclId) :
    ∃ mid, Steps anything (pass.lift options id) mid ∧ node ∉ mid.visited ∧
      Traces old mid ∧ Traces old (mid.retargetSite site) ∧
      Continues (mid.retargetSite site)
        (convertMethod options search planned pass id declarations) := by
  obtain ⟨first, rest, hsplit⟩ := List.append_of_mem hfound
  have hfirst : node ∉ first := by
    intro hmem
    rw [hsplit] at hnodup
    exact (List.nodup_append.mp hnodup).2.2 node hmem node List.mem_cons_self rfl
  let lifted := pass.lift options id
  let sitesOf : List NodeId → List CallSite := List.filterMap (lifted.program.callSite? id)
  let mid := (sitesOf first).foldl retargetSite lifted
  have hknown : ∀ nodes, ∀ later ∈ sitesOf nodes, later.node < lifted.program.nodes.size := by
    intro nodes later hlater
    obtain ⟨place, -, hsome⟩ := List.mem_filterMap.mp hlater
    exact lt_size_of_callSite? hsome
  -- The sites before the node, the node's own, and the sites after it, one after another.
  have hsteps : Steps anything lifted mid := retargetSites_steps_anything (hknown first)
  have hone : Steps anything mid ([site].foldl retargetSite mid) := by
    refine retargetSites_steps_anything fun later hlater => ?_
    rw [List.mem_singleton.mp hlater]
    exact Nat.lt_of_lt_of_le (lt_size_of_callSite? hsite) hsteps.size_le
  have hrest : Steps anything (mid.retargetSite site)
      ((sitesOf rest).foldl retargetSite (mid.retargetSite site)) :=
    retargetSites_steps_anything fun later hlater =>
      Nat.lt_of_lt_of_le (hknown rest later hlater) (Nat.le_trans hsteps.size_le hone.size_le)
  have hmidTraces := (htraces.lift options id).steps hsteps
  have hsiteTraces : Traces old (mid.retargetSite site) := hmidTraces.steps hone
  refine ⟨mid, hsteps, ?_, hmidTraces, hsiteTraces, ?_⟩
  · obtain ⟨rfl, -, -, -⟩ := callSite?_eq_some hsite
    exact not_visited_of_sites (lt_size_of_callSite? hsite) (by rwa [lift_visited]) hfirst
  · have hend : convertMethod options search planned pass id declarations =
        declarations.foldl (fun pass declaration => pass.retargetBody options planned declaration)
          ((sitesOf rest).foldl retargetSite (mid.retargetSite site)) := by
      change declarations.foldl _ ((lifted.program.callSites search id).foldl retargetSite lifted) =
        _
      rw [callSites_eq_append hsplit hsite, List.foldl_append, List.foldl_cons]
    rw [hend]
    exact (Continues.refl _).steps hsiteTraces.visited_known
      (hrest.trans (retargetBodies_steps_anything options planned _ declarations))

end Conversion

end AsyncLift
