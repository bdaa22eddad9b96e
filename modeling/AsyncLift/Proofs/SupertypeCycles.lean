import AsyncLift.Proofs.Validation

/-!
# No type of a valid program lies above itself

The search for cycles goes along a path of types and lists a type when it has looked at all its
supertypes. What it has listed is in order: every type has its supertypes behind it
(`SupertypesBehind`). While it is under way, a type on the path has its supertypes listed, still to
be looked at, or next on the path (`Searched`); to the types before it on the path it counts as
listed already.

`not_transGen_inheritsFrom`: if the search comes to its end, chains of supertypes end, and so there
is no cycle.
-/

namespace AsyncLift

theorem EndsWithin.mono {α : Type} {r : α → α → Prop} {levels more : Nat} {a : α}
    (h : EndsWithin r levels a) (hle : levels ≤ more) : EndsWithin r more a := by
  induction levels generalizing a more with
  | zero => exact h.elim
  | succ levels ih =>
    obtain ⟨more, rfl⟩ : ∃ rest, more = rest + 1 := ⟨more - 1, by omega⟩
    intro b hab
    exact ih (h b hab) (by omega)

namespace Program

variable {program : Program} {type : TypeId} {done done' result : List TypeId}
  {path : List Pending}

/-- Every listed type has its supertypes behind it. -/
def SupertypesBehind (program : Program) : List TypeId → Prop
  | [] => True
  | type :: done =>
    (∀ parent, program.InheritsFrom type parent → parent ∈ done) ∧ program.SupertypesBehind done

/-- Each type on a path has its supertypes listed, still to be looked at, or next on the path. -/
def Searched (program : Program) (done : List TypeId) : List Pending → Prop
  | [] => True
  | (type, more) :: path =>
    (∀ parent, program.InheritsFrom type parent → parent ∈ more ∨ parent ∈ done) ∧
      program.Searched (type :: done) path

theorem SupertypesBehind.endsWithin (h : program.SupertypesBehind done) (hmem : type ∈ done) :
    EndsWithin program.InheritsFrom done.length type := by
  induction done generalizing type with
  | nil => cases hmem
  | cons first done ih =>
    obtain ⟨hparents, hrest⟩ := h
    rcases List.mem_cons.mp hmem with rfl | hlater
    · intro parent hparent
      exact ih hrest (hparents parent hparent)
    · exact (ih hrest hlater).mono (Nat.le_succ _)

theorem Searched.mono (h : program.Searched done path) (hle : done ⊆ done') :
    program.Searched done' path := by
  induction path generalizing done done' with
  | nil => trivial
  | cons pending path ih =>
    obtain ⟨hparents, hrest⟩ := h
    refine ⟨fun parent hparent => ?_, ih hrest (List.cons_subset_cons _ hle)⟩
    exact (hparents parent hparent).imp_right fun hdone => hle hdone

/-- A search that comes to its end has listed what was on its path. -/
theorem searchCycle_sound (h : program.searchCycle done path = .ok result)
    (hdone : program.SupertypesBehind done) (hpath : program.Searched done path) :
    program.SupertypesBehind result ∧ done ⊆ result ∧ path.map (·.1) ⊆ result := by
  fun_induction program.searchCycle done path with
  | case1 done =>
    cases h
    exact ⟨hdone, List.Subset.refl _, List.nil_subset _⟩
  | case2 done type path ih =>
    -- All supertypes of the type have been looked at, so it is listed before them.
    obtain ⟨hparents, hrest⟩ := hpath
    have hlisted : ∀ parent, program.InheritsFrom type parent → parent ∈ done := by
      intro parent hparent
      rcases hparents parent hparent with hmore | hbehind
      · cases hmore
      · exact hbehind
    obtain ⟨hresult, hsubset, hothers⟩ := ih h ⟨hlisted, hdone⟩ hrest
    obtain ⟨htype, hbefore⟩ := List.cons_subset.mp hsubset
    exact ⟨hresult, hbefore, List.cons_subset.mpr ⟨htype, hothers⟩⟩
  | case3 done type next more path hmet =>
    have hagain : (type :: path.map (·.1)).contains next = true := by simpa using hmet
    rw [if_pos hagain] at h
    cases h
  | case4 done type next more path hmet hnext ih =>
    have hagain : ¬ (type :: path.map (·.1)).contains next = true := by simpa using hmet
    rw [if_neg hagain, if_pos hnext] at h
    obtain ⟨hparents, hrest⟩ := hpath
    have hstill : ∀ parent, program.InheritsFrom type parent →
        parent ∈ more ∨ parent ∈ done := by
      intro parent hparent
      rcases hparents parent hparent with hmore | hbehind
      · rcases List.mem_cons.mp hmore with rfl | hmore
        · exact .inr (List.contains_iff_mem.mp hnext)
        · exact .inl hmore
      · exact .inr hbehind
    exact ih h hdone ⟨hstill, hrest⟩
  | case5 done type next more path hmet hnext ih =>
    have hagain : ¬ (type :: path.map (·.1)).contains next = true := by simpa using hmet
    rw [if_neg hagain, if_neg hnext] at h
    obtain ⟨hparents, hrest⟩ := hpath
    have hstill : ∀ parent, program.InheritsFrom type parent →
        parent ∈ more ∨ parent ∈ next :: done := by
      intro parent hparent
      rcases hparents parent hparent with hmore | hbehind
      · rcases List.mem_cons.mp hmore with rfl | hmore
        · exact .inr List.mem_cons_self
        · exact .inl hmore
      · exact .inr (List.mem_cons_of_mem _ hbehind)
    have hwider : program.Searched (type :: next :: done) path :=
      hrest.mono (List.cons_subset_cons _ (List.subset_cons_self _ _))
    obtain ⟨hresult, hsubset, hothers⟩ :=
      ih h hdone ⟨fun _ hparent => .inl hparent, hstill, hwider⟩
    exact ⟨hresult, hsubset, (List.cons_subset.mp hothers).2⟩

/-- A search above every type in turn lists them all. -/
theorem searchCycles_sound (h : program.searchCycles = .ok result) :
    program.SupertypesBehind result ∧ program.typeIds ⊆ result := by
  have hturns : ∀ types done, program.SupertypesBehind done →
      types.foldlM (fun done type =>
        if done.contains type then Except.ok done
        else program.searchCycle done [(type, program.supertypesOf type)]) done = .ok result →
      program.SupertypesBehind result ∧ done ⊆ result ∧ types ⊆ result := by
    intro types
    induction types with
    | nil =>
      intro done hdone hresult
      cases hresult
      exact ⟨hdone, List.Subset.refl _, List.nil_subset _⟩
    | cons type types ih =>
      intro done hdone hresult
      rw [List.foldlM_cons] at hresult
      by_cases hmem : done.contains type = true
      · rw [if_pos hmem] at hresult
        obtain ⟨hbehind, hsubset, hlater⟩ := ih done hdone hresult
        exact ⟨hbehind, hsubset,
          List.cons_subset.mpr ⟨hsubset (List.contains_iff_mem.mp hmem), hlater⟩⟩
      · rw [if_neg hmem] at hresult
        cases hsearch : program.searchCycle done [(type, program.supertypesOf type)] with
        | error met =>
          rw [hsearch] at hresult
          cases hresult
        | ok next =>
          rw [hsearch] at hresult
          obtain ⟨hnext, hbefore, htype⟩ :=
            searchCycle_sound hsearch hdone ⟨fun _ hparent => .inl hparent, trivial⟩
          obtain ⟨hbehind, hsubset, hlater⟩ := ih next hnext hresult
          exact ⟨hbehind, List.Subset.trans hbefore hsubset,
            List.cons_subset.mpr ⟨hsubset (htype List.mem_cons_self), hlater⟩⟩
  obtain ⟨hbehind, -, htypes⟩ := hturns program.typeIds [] trivial h
  exact ⟨hbehind, htypes⟩

/-- Where the search for cycles comes to its end, no type lies above itself. -/
theorem not_transGen_inheritsFrom (h : program.checkCycles = .ok ()) (type : TypeId) :
    ¬ Relation.TransGen program.InheritsFrom type type := by
  intro hcycle
  obtain ⟨parent, hparent, -⟩ := Relation.TransGen.head'_iff.mp hcycle
  have hknown : type ∈ program.typeIds := List.mem_range.mpr (lt_size_of_inheritsFrom hparent)
  unfold checkCycles at h
  split at h
  · rename_i done hsearch
    obtain ⟨hbehind, htypes⟩ := searchCycles_sound hsearch
    exact (hbehind.endsWithin (htypes hknown)).not_transGen_self hcycle
  · cases h

end Program

end AsyncLift
