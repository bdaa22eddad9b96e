import AsyncLift.Proofs.Continuation
import AsyncLift.Proofs.MethodTable
import AsyncLift.Proofs.Walks

/-!
# What becomes of references to planned methods

A reference to a planned method is settled when the method's turn comes, and never again. Until then
it is as it was (`get?_passAfter`), the search finds it once, and nothing that the search finds
before it settles it (`settled_at_turn`). From there on what the pass says of it stays.

`run_settles_references`: in a well-formed program of bounded depth every such reference is reported
once, as skipped or as retargeted, and a call is awaited exactly if its enclosing function was
asynchronous at the outset or is a concrete method that is planned no later than the method that is
called (`AsyncAfter`).
-/

namespace AsyncLift.Conversion

open Pass

variable {options : Options} {scope : SearchScope} {anchor : Option ModuleId}
  {search : ReferenceSearch} {program final : Program} {report : Report} {root method : MethodId}
  {before after ids : List MethodId} {node : NodeId} {reference : Node} {site : CallSite}
  {enclosing : EnclosingFunction}

/-! ## The turn of a method -/

/-- The pass of a conversion when the signature of a method has just been changed. -/
def atTurn (options : Options) (search : ReferenceSearch) (program : Program) (root : MethodId)
    (before : List MethodId) (method : MethodId) : Pass :=
  (passAfter options search program root before).lift options method

theorem atTurn_program (options : Options) (search : ReferenceSearch) (program : Program)
    (root : MethodId) (before : List MethodId) (method : MethodId) :
    (atTurn options search program root before method).program =
      { program with
        methods := liftedMethods options program.methods (before ++ [method])
        nodes := (atTurn options search program root before method).program.nodes } := by
  have hlifted : liftedMethods options program.methods (before ++ [method]) =
      (liftedMethods options program.methods before).modify method (·.lift options) :=
    List.foldl_append
  rw [hlifted, atTurn, lift_program, passAfter_program]

theorem getElem?_atTurn {signature : Method} (hnodup : (before ++ [method]).Nodup)
    (hsignature : program.methods[method]? = some signature) :
    (atTurn options search program root before method).program.methods[method]? =
      some (signature.lift options) := by
  have hmem : method ∈ before ++ [method] := List.mem_append_right _ List.mem_cons_self
  rw [atTurn_program]
  dsimp only
  rw [getElem?_liftedMethods options program.methods hnodup, if_pos hmem, hsignature]
  rfl

theorem passAfter_order (horder : (program.plan root).order = before ++ method :: after) :
    passAfter options search program root (program.plan root).order =
      passOver options search (program.plan root).order
        (convertMethod options search (program.plan root).order
          (passAfter options search program root before) method
          (declarationsOf (passAfter options search program root before).program method))
        after := by
  have hsplit := congrArg (passAfter options search program root) horder
  rw [hsplit, passAfter, passOver_append, passOver_cons]
  rfl

section

variable {turn last : Pass}
  (hturn : turn = atTurn options (.inProgram scope anchor) program root before method)
  (hlast : last =
    passAfter options (.inProgram scope anchor) program root (program.plan root).order)
  (horder : (program.plan root).order = before ++ method :: after)
include hturn horder

theorem get?_at_turn (hnode : program.nodes.get? node = some reference)
    (htarget : reference.target? = some method) :
    node ∉ turn.visited ∧ turn.program.nodes.get? node = some reference := by
  have hplanned := Program.mem_of_plan_order_eq horder
  have hbefore := Program.not_mem_of_plan_order_eq horder List.mem_cons_self
  rw [hturn, atTurn, lift_nodes, lift_visited]
  exact ⟨not_visited_passAfter hnode htarget hplanned hbefore,
    get?_passAfter hnode htarget hplanned hbefore⟩

include hlast

/-- A reference to a planned method is settled at the method's turn as it is found then, and the
pass goes on from there. -/
theorem settled_at_turn (hnode : program.nodes.get? node = some reference)
    (htarget : reference.target? = some method)
    (hmodule : ∀ module_, searchedModule? scope anchor turn.program method = some module_ →
      turn.program.moduleOf? node = some module_)
    (hsite : turn.program.callSite? method node = some site) :
    ∃ mid, Steps anything turn mid ∧ node ∉ mid.visited ∧ Traces program.nodes mid ∧
      mid.program.nodes.get? node = some reference ∧ Continues (mid.retargetSite site) last := by
  obtain ⟨hnew, hget⟩ := get?_at_turn hturn horder hnode htarget
  subst hturn hlast
  rw [atTurn, lift_visited] at hnew
  obtain ⟨mid, hsteps, hmid, htraces, hsettled, hcontinues⟩ :=
    convertMethod_turn (passAfter_traces ..) hnew (nodup_inProgram _ _)
      (mem_inProgram.mpr ⟨⟨reference, hget, htarget⟩, hmodule⟩) hsite (program.plan root).order
      (declarationsOf (passAfter options (.inProgram scope anchor) program root before).program
        method)
  refine ⟨mid, hsteps, hmid, htraces, (hsteps.get?_of_not_visited hmid).trans hget, ?_⟩
  rw [passAfter_order horder]
  exact passOver_continues hsettled.visited_known hcontinues after

/-- What is no call in a function at the method's turn is listed once as skipped. -/
theorem skipped_at_turn {reason : SkipReason} (hnode : program.nodes.get? node = some reference)
    (htarget : reference.target? = some method)
    (hmodule : ∀ module_, searchedModule? scope anchor turn.program method = some module_ →
      turn.program.moduleOf? node = some module_)
    (hreason : reference.isCall = false ∧ reason = .notAnInvocation ∨ reference.isCall = true ∧
      turn.program.enclosingFunction? node = none ∧ reason = .noEnclosingFunction) :
    last.report.skipped.filter (·.node == node) = [⟨node, method, reason⟩] ∧
      last.program.nodes.get? node = some reference := by
  obtain ⟨-, hturned⟩ := get?_at_turn hturn horder hnode htarget
  obtain ⟨site, hsite, hkind⟩ : ∃ site, turn.program.callSite? method node = some site ∧
      (site.kind = .methodGroup ∧ reason = .notAnInvocation ∨
        site.kind = .invocation ∧ site.enclosing = none ∧ reason = .noEnclosingFunction) := by
    unfold Program.callSite?
    rw [hturned]
    cases reference with
    | call => exact ⟨_, rfl, by simpa [Node.isCall] using hreason⟩
    | methodGroup => exact ⟨_, rfl, by simpa [Node.isCall] using hreason⟩
    | _ => cases htarget
  obtain ⟨mid, -, hmid, htraces, hget, hcontinues⟩ :=
    settled_at_turn hturn hlast horder hnode htarget hmodule hsite
  obtain ⟨rfl, rfl, -, -⟩ := callSite?_eq_some hsite
  rw [retargetSite_eq_skip hmid hkind] at hcontinues
  obtain ⟨honce, hsame⟩ := hcontinues.skipped_once htraces hmid
  exact ⟨honce, hsame.trans hget⟩

/-- A call that is in a function at the method's turn is retargeted then, and that is how it
stays. -/
theorem retargeted_at_turn {receiver : Slot} {name : String} {args : List Slot}
    {signature : Method}
    (hnode : program.nodes.get? node = some (.call receiver name (some method) args))
    (hmodule : ∀ module_, searchedModule? scope anchor turn.program method = some module_ →
      turn.program.moduleOf? node = some module_)
    (hmethod : turn.program.methods[method]? = some signature)
    (henclosing : turn.program.enclosingFunction? node = some enclosing) :
    ∃ mid, Steps anything turn mid ∧ Traces program.nodes mid ∧
      ∃ entry ∈ last.report.retargeted,
        entry.AccountsFor program.nodes last.program.nodes node ∧
        entry.target = method ∧ entry.enclosing = enclosing ∧ entry.origin = .referenceSearch ∧
        entry.awaited = enclosing.isAsync mid.program ∧
        last.program.nodes.get? entry.node =
          some (.call receiver signature.name (some method) args) := by
  obtain ⟨-, hturned⟩ := get?_at_turn hturn horder hnode rfl
  obtain ⟨site, hsite, hkind, hfunction⟩ : ∃ site, turn.program.callSite? method node = some site ∧
      site.kind = .invocation ∧ site.enclosing = some enclosing :=
    ⟨_, by rw [Program.callSite?, hturned], rfl, henclosing⟩
  obtain ⟨mid, hsteps, hmid, htraces, hget, hcontinues⟩ :=
    settled_at_turn hturn hlast horder hnode rfl hmodule hsite
  obtain ⟨rfl, rfl, -, -⟩ := callSite?_eq_some hsite
  have hsame : mid.program.methods[site.method]? = some signature := by
    rw [hsteps.methods_eq]
    exact hmethod
  obtain ⟨nodes, entry, hrecord, htarget, hwithin, horigin, hawaited, hcall, hplace⟩ :=
    retargetSite_eq_record hmid hkind hfunction hsame hget
  rw [hrecord] at hcontinues
  have hentry : entry ∈ last.report.retargeted :=
    hcontinues.mem_retargeted (List.mem_append_right _ List.mem_cons_self)
  refine ⟨mid, hsteps, htraces, entry, hentry, ?_, htarget, hwithin, horigin, hawaited, ?_⟩
  · rcases hplace with hplace | hawait
    · exact .inl hplace
    · refine .inr ⟨by rw [hnode]; rfl, ?_⟩
      exact (hcontinues.settled site.node (List.mem_cons_of_mem _ List.mem_cons_self)).trans hawait
  · exact (hcontinues.settled entry.node List.mem_cons_self).trans hcall

end

/-! ## When a function is asynchronous -/

/-- The function is asynchronous once the listed methods are converted: it was so at the outset, or
it is a listed method, and a concrete one. -/
def AsyncAfter (program : Program) (ids : List MethodId) (enclosing : EnclosingFunction) : Prop :=
  enclosing.isAsync program = true ∨
    ∃ declaration written signature, enclosing = .method declaration ∧
      program.declarations[declaration]? = some written ∧ written.method ∈ ids ∧
      program.methods[written.method]? = some signature ∧ signature.kind = .concrete

theorem isAsync_localFunction {mid : Pass} (htraces : Traces program.nodes mid) (id : NodeId) :
    (EnclosingFunction.localFunction id).isAsync mid.program =
      (EnclosingFunction.localFunction id).isAsync program := by
  rcases htraces.same_or_call id with hsame | ⟨hold, node, hnew, hnode⟩
  · rw [EnclosingFunction.isAsync, EnclosingFunction.isAsync, hsame]
  · -- Neither a call nor an `await` is a local function.
    have hlater : (EnclosingFunction.localFunction id).isAsync mid.program = false := by
      rw [EnclosingFunction.isAsync, hnew]
      rcases hnode with hcall | ⟨operand, rfl⟩
      · cases node <;> first | rfl | cases hcall
      · rfl
    have hearlier : (EnclosingFunction.localFunction id).isAsync program = false := by
      rw [EnclosingFunction.isAsync]
      cases hget : program.nodes.get? id with
      | none => rfl
      | some call =>
        rw [hget] at hold
        cases call <;> first | rfl | cases hold
    rw [hlater, hearlier]

theorem isAsync_iff_asyncAfter {mid : Pass} (htraces : Traces program.nodes mid)
    (hmethods : mid.program.methods = liftedMethods options program.methods ids)
    (hdeclarations : mid.program.declarations = program.declarations) (hnodup : ids.Nodup)
    (enclosing : EnclosingFunction) :
    enclosing.isAsync mid.program = true ↔ AsyncAfter program ids enclosing := by
  cases enclosing with
  | localFunction id =>
    rw [isAsync_localFunction htraces, AsyncAfter]
    constructor
    · exact .inl
    · rintro (hasync | ⟨_, _, _, hmethod, _⟩)
      · exact hasync
      · cases hmethod
  | method declaration =>
    simp only [AsyncAfter, EnclosingFunction.isAsync, hmethods, hdeclarations]
    cases hwritten : program.declarations[declaration]? with
    | none => simp [hwritten]
    | some written =>
      simp only [Option.bind_some, getElem?_liftedMethods options program.methods hnodup]
      cases hsignature : program.methods[written.method]? with
      | none => simp [hwritten, hsignature]
      | some signature =>
        by_cases hmem : written.method ∈ ids
        · simp [hwritten, hsignature, hmem, lift_eq, Method.isAsync]
        · simp [hwritten, hsignature, hmem]

/-! ## Conversions -/

theorem atTurn_expanding (options : Options) (search : ReferenceSearch)
    (hlinked : program.nodes.Linked) (root : MethodId) (before : List MethodId)
    (method : MethodId) :
    Expanding program.nodes (atTurn options search program root before method) :=
  (passAfter_expanding options search hlinked root before).lift options method

theorem enclosingFunction?_atTurn (options : Options) (search : ReferenceSearch)
    (hlinked : program.nodes.Linked) (hdepth : program.nodes.DepthAtMost 5000)
    (hknown : node < program.nodes.size) (root : MethodId) (before : List MethodId)
    (method : MethodId) :
    (atTurn options search program root before method).program.enclosingFunction? node =
      program.enclosingFunction? node := by
  have howner : (atTurn options search program root before method).program.bodyOwner =
      program.bodyOwner := by
    rw [atTurn_program]
  have hstretches :=
    (atTurn_expanding options search hlinked root before method).stretches howner
  exact hstretches.enclosingFunction?_eq hlinked hdepth (Nat.le_refl _) hknown

theorem moduleOf?_atTurn (options : Options) (search : ReferenceSearch)
    (hlinked : program.nodes.Linked) (hdepth : program.nodes.DepthAtMost 5000)
    (hknown : node < program.nodes.size) (root : MethodId) (before : List MethodId)
    (method : MethodId) :
    (atTurn options search program root before method).program.moduleOf? node =
      program.moduleOf? node := by
  have hmodules : (atTurn options search program root before method).program.rootModule =
      program.rootModule := by
    rw [atTurn_program]
  exact (atTurn_expanding options search hlinked root before method).moduleOf?_eq hlinked
    hmodules hdepth (Nat.le_refl _) hknown

theorem moduleOf?_of_searchedModule? {later : Program} {module_ : ModuleId}
    (hscope : scope = .declaringModule → ∃ own, anchor = some own ∧
      program.moduleOf? node = some own)
    (hsearched : searchedModule? scope anchor later method = some module_) :
    program.moduleOf? node = some module_ := by
  cases scope with
  | solution => cases hsearched
  | declaringModule =>
    obtain ⟨own, rfl, hown⟩ := hscope rfl
    exact hown.trans hsearched

/-- In a well-formed program whose trees have at most 5000 levels, a conversion that succeeds
settles every reference to a planned method that lies in its scope. A method group and a call
outside functions are listed once as skipped and stay as they are. Any other call is accounted for
by exactly one entry: it is pointed at the method under the method's new name, and it is awaited
exactly if its function is asynchronous once the methods up to the called one are converted. -/
theorem run_settles_references (hwellFormed : program.WellFormed)
    (hdepth : program.nodes.DepthAtMost 5000)
    (hrun : run options program root = (.ok report, final))
    (horder : (program.plan root).order = before ++ method :: after)
    (hnode : program.nodes.get? node = some reference)
    (htarget : reference.target? = some method)
    (hscope : options.scope = .declaringModule → ∃ module_,
      program.declaringModule? root = some module_ ∧ program.moduleOf? node = some module_) :
    (reference.isCall = false →
      report.skipped.filter (·.node == node) = [⟨node, method, .notAnInvocation⟩] ∧
        final.nodes.get? node = some reference) ∧
    (reference.isCall = true → program.enclosingFunction? node = none →
      report.skipped.filter (·.node == node) = [⟨node, method, .noEnclosingFunction⟩] ∧
        final.nodes.get? node = some reference) ∧
    (∀ receiver name args enclosing, reference = .call receiver name (some method) args →
      program.enclosingFunction? node = some enclosing →
      ∃ entry ∈ report.retargeted, ∃ signature,
        entry.AccountsFor program.nodes final.nodes node ∧
        (∀ other ∈ report.retargeted, other.AccountsFor program.nodes final.nodes node →
          other = entry) ∧
        entry.origin = .referenceSearch ∧ entry.target = method ∧ entry.enclosing = enclosing ∧
        final.methods[method]? = some signature ∧
        final.nodes.get? entry.node = some (.call receiver signature.name (some method) args) ∧
        (entry.awaited = true ↔ AsyncAfter program (before ++ [method]) enclosing)) := by
  obtain ⟨hdeclared, rfl, rfl⟩ := passAfter_of_runWith_ok hrun
  have hlinked := hwellFormed.forest.linked
  have hknown := NodeStore.lt_size_of_get? hnode
  have hplanned := Program.mem_of_plan_order_eq horder
  have hturned := Program.nodup_of_plan_order_eq horder
  -- Until the method's turn neither the function nor the module around the node has changed, so
  -- what the search finds then can be told from the program at the outset.
  have henclosing := enclosingFunction?_atTurn options (.anchoredAt options.scope program root)
    hlinked hdepth hknown root before method
  have hmodule := moduleOf?_atTurn options (.anchoredAt options.scope program root)
    hlinked hdepth hknown root before method
  have hprogram := atTurn_program options (.anchoredAt options.scope program root) program root
    before method
  generalize hturn : atTurn options (.anchoredAt options.scope program root) program root before
    method = turn at henclosing hmodule hprogram
  have hsearched : ∀ module_, searchedModule? options.scope (program.declaringModule? root)
      turn.program method = some module_ → turn.program.moduleOf? node = some module_ :=
    fun _ hsearched => hmodule.trans (moduleOf?_of_searchedModule? hscope hsearched)
  refine ⟨fun hgroup => ?_, fun hcall hnone => ?_, ?_⟩
  · exact skipped_at_turn hturn.symm rfl horder hnode htarget hsearched (.inl ⟨hgroup, rfl⟩)
  · exact skipped_at_turn hturn.symm rfl horder hnode htarget hsearched
      (.inr ⟨hcall, henclosing.trans hnone, rfl⟩)
  · rintro receiver name args enclosing rfl hsome
    have hmethods : turn.program.methods = _ := congrArg Program.methods hprogram
    obtain ⟨signature, hsignature⟩ := exists_method_of_isDeclared (hdeclared method hplanned)
    have hlifted : turn.program.methods[method]? = some (signature.lift options) :=
      hturn ▸ getElem?_atTurn hturned hsignature
    obtain ⟨mid, hsteps, htraces, entry, hentry, haccounts, htarget, hfunction, horigin, hawaited,
        hcall⟩ :=
      retargeted_at_turn hturn.symm rfl horder hnode hsearched hlifted (henclosing.trans hsome)
    have hlast := passAfter_traces options (.anchoredAt options.scope program root) program root
      (program.plan root).order
    refine ⟨entry, hentry, signature.lift options, haccounts, ?_, horigin, htarget, hfunction, ?_,
      hcall, ?_⟩
    · intro other hother haccounts'
      exact hlast.eq_of_accountsFor hknown hentry hother haccounts haccounts'
    · rw [getElem?_passAfter _ _ _ _ (program.nodup_plan_order root), if_pos hplanned, hsignature]
      rfl
    · rw [hawaited]
      exact isAsync_iff_asyncAfter htraces (hsteps.methods_eq.trans hmethods)
        (by rw [hsteps.program_eq, hprogram]) hturned enclosing

theorem wellFormed_overriddenLoad :
    overriddenLoad.WellFormed ∧ overriddenLoad.nodes.DepthAtMost 5000 := by
  have hdepth : overriddenLoad.nodes.DepthAtMost 5000 := by
    unfold NodeStore.DepthAtMost
    decide +kernel
  exact ⟨⟨NodeStore.forest_of_depth hdepth (by decide +kernel) (by decide +kernel)
    (by decide +kernel), by decide +kernel, by decide +kernel⟩, hdepth⟩

/-- The call in the overridden method, which is synchronous at the outset, is awaited in the end. -/
theorem run_settles_references_overriddenLoad :
    (EnclosingFunction.method 0).isAsync overriddenLoad = false ∧
    ∃ report final, run {} overriddenLoad 1 = (.ok report, final) ∧
      report.skipped.filter (·.node == 4) = [⟨4, 1, .notAnInvocation⟩] ∧
      report.skipped.filter (·.node == 8) = [⟨8, 0, .noEnclosingFunction⟩] ∧
      ∃ entry ∈ report.retargeted, entry.AccountsFor overriddenLoad.nodes final.nodes 0 ∧
        entry.target = 1 ∧ entry.awaited = true := by
  obtain ⟨hwellFormed, hdepth⟩ := wellFormed_overriddenLoad
  have hrun : run {} overriddenLoad 1 = _ :=
    runWith_of_declared (by decide +kernel) (by decide +kernel)
  have hnarrow : ({} : Options).scope ≠ .declaringModule := by decide
  have hroot : (overriddenLoad.plan 1).order = [0] ++ 1 :: [] := by decide +kernel
  have hbase : (overriddenLoad.plan 1).order = [] ++ 0 :: [1] := by decide +kernel
  have hgroup : overriddenLoad.nodes.get? 4 = some (.methodGroup none "Load" (some 1)) := by
    decide +kernel
  have hfield : overriddenLoad.nodes.get? 8 = some (.call none "Load" (some 0) []) := by
    decide +kernel
  have hcall : overriddenLoad.nodes.get? 0 = some (.call none "Load" (some 1) []) := by
    decide +kernel
  obtain ⟨hskipped, -, -⟩ := run_settles_references hwellFormed hdepth hrun hroot hgroup rfl
    (absurd · hnarrow)
  obtain ⟨-, hoff, -⟩ := run_settles_references hwellFormed hdepth hrun hbase hfield rfl
    (absurd · hnarrow)
  obtain ⟨-, -, hretargeted⟩ := run_settles_references hwellFormed hdepth hrun hroot hcall rfl
    (absurd · hnarrow)
  obtain ⟨entry, hentry, signature, haccounts, -, -, htarget, -, -, -, hawaited⟩ :=
    hretargeted none "Load" [] (.method 0) rfl (by decide +kernel)
  refine ⟨by decide +kernel, _, _, hrun, (hskipped rfl).1, (hoff rfl (by decide +kernel)).1,
    entry, hentry, haccounts, htarget, hawaited.mpr (.inr ?_)⟩
  let overridden : Method :=
    { owner := 0, name := "Load", modifiers := { isVirtual := true }, declarations := [0] }
  refine ⟨0, ⟨0, 0, some 2⟩, overridden, rfl, ?_, ?_, ?_, rfl⟩ <;> decide +kernel

end AsyncLift.Conversion
