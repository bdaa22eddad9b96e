import AsyncLift.Override.Targets
import AsyncLift.Program.Supertypes
import Mathlib.Data.List.Chain
import Mathlib.Logic.Relation

/-!
# Which members a method overrides

Override targets are found by three searches: along the base classes of the owner, through the
interfaces of the owner, and through the interfaces of classes that inherit the method unchanged.
Here each search is described without the order in which it goes:

* `classMethodTargets_sound`: a target is the overridden member of a base class, or it is the
  matching member of an interface that is reached from one that the method may implement;
* `mem_classMethodTargets`: the search through the interfaces misses none of the latter, provided
  that chains of interfaces are not longer than the search goes.

The search marks an interface when it enters it, so that it passes by interfaces that it has marked
but not finished. What it leaves behind is closed nevertheless: whatever a call marks has all its
parents marked when the call returns (`Settles`).
-/

namespace AsyncLift

/-! ## Bounded chains -/

section

variable {α : Type} {r s : α → α → Prop} {steps levels : Nat} {a : α}

/-- No chain of the relation has more than the given number of steps. -/
def ChainsWithin (r : α → α → Prop) (steps : Nat) : Prop :=
  ∀ chain : List α, chain.IsChain r → chain.length ≤ steps + 1

/-- Chains that start from an element have at most the given number of elements. -/
def EndsWithin (r : α → α → Prop) : (levels : Nat) → α → Prop
  | 0, _ => False
  | levels + 1, a => ∀ b, r a b → EndsWithin r levels b

theorem ChainsWithin.mono (h : ChainsWithin r steps) (hle : ∀ a b, s a b → r a b) :
    ChainsWithin s steps := by
  intro chain hchain
  apply h chain
  exact hchain.imp fun a b => hle a b

theorem ChainsWithin.endsWithin (h : ChainsWithin r steps) (a : α) :
    EndsWithin r (steps + 1) a := by
  -- By induction on the bound, for chains that start from the element.
  have hstart : ∀ levels a, (∀ chain, List.IsChain r (a :: chain) →
      (a :: chain).length ≤ levels) → EndsWithin r levels a := by
    intro levels
    induction levels with
    | zero =>
      intro a hbound
      have hone := hbound [] (List.isChain_singleton a)
      simp at hone
    | succ levels ih =>
      intro a hbound b hab
      apply ih
      intro chain hchain
      have hlonger := hbound (b :: chain) (List.isChain_cons_cons.mpr ⟨hab, hchain⟩)
      rw [List.length_cons] at hlonger
      omega
  exact hstart (steps + 1) a fun chain => h (a :: chain)

/-- Where chains end, nothing is related to itself through others. -/
theorem EndsWithin.not_transGen_self (h : EndsWithin r levels a) :
    ¬ Relation.TransGen r a a := by
  induction levels generalizing a with
  | zero => exact h.elim
  | succ levels ih =>
    intro hcycle
    obtain ⟨b, hab, hba⟩ := Relation.TransGen.head'_iff.mp hcycle
    exact ih (h b hab) (Relation.TransGen.tail' hba hab)

/-- Going down from numbers that are bounded takes no more steps than the bound. -/
theorem chainsWithin_of_lt {r : Nat → Nat → Prop} (hfalls : ∀ a b, r a b → b < a ∧ a ≤ steps) :
    ChainsWithin r steps := by
  have hlength : ∀ chain a, List.IsChain r (a :: chain) → chain.length ≤ min a steps := by
    intro chain
    induction chain with
    | nil => intro a _; exact Nat.zero_le _
    | cons b chain ih =>
      intro a hchain
      obtain ⟨hab, hrest⟩ := List.isChain_cons_cons.mp hchain
      have htail := ih b hrest
      have hlt := hfalls a b hab
      rw [List.length_cons]
      omega
  intro chain hchain
  cases chain with
  | nil => exact Nat.zero_le _
  | cons a chain =>
    have htail := hlength chain a hchain
    rw [List.length_cons]
    omega

end

namespace Program

variable {program : Program} {id found target : MethodId} {method : Method} {type : TypeId}
  {levels classes : Nat}

/-! ## Matching members -/

/-- The members of a type; none for an unknown type. -/
def membersOf (program : Program) (type : TypeId) : List MethodId :=
  match program.types[type]? with
  | some decl => decl.members
  | none => []

theorem membersNamed_eq (program : Program) (type : TypeId) (name : String) :
    program.membersNamed type name =
      (program.membersOf type).filter fun id => program.methods[id]?.any (·.name == name) := by
  unfold membersNamed membersOf
  cases program.types[type]? <;> rfl

/-- Whether a candidate matches a method: it is another one and not static, and name and parameter
types agree. -/
def isMatch (program : Program) (id : MethodId) (method : Method) (candidate : MethodId) : Bool :=
  candidate != id &&
    program.methods[candidate]?.any fun other => !other.isStatic && other.sameSignature method

theorem isMatch_iff {candidate : MethodId} : program.isMatch id method candidate = true ↔
    candidate ≠ id ∧ ∃ other, program.methods[candidate]? = some other ∧ other.isStatic = false ∧
      other.name = method.name ∧ other.paramTypes = method.paramTypes := by
  simp only [isMatch, Bool.and_eq_true, bne_iff_ne, Option.any_eq_true, Bool.not_eq_true',
    Method.sameSignature, beq_iff_eq]

/-- The first member that matches; members of another name need not be passed over first. -/
theorem matchingMember?_eq_find? (program : Program) (id : MethodId) (method : Method)
    (type : TypeId) :
    program.matchingMember? id method type =
      (program.membersOf type).find? (program.isMatch id method) := by
  have hname : ∀ candidate, program.isMatch id method candidate = true →
      program.methods[candidate]?.any (·.name == method.name) = true := by
    intro candidate hmatch
    obtain ⟨-, other, hother, -, hnames, -⟩ := isMatch_iff.mp hmatch
    simp [hother, hnames]
  unfold matchingMember?
  rw [membersNamed_eq, List.find?_filter]
  congr 1
  funext candidate
  rw [← isMatch]
  cases hmatch : program.isMatch id method candidate with
  | false => simp
  | true => simp [hname candidate hmatch]

theorem isMatch_of_matchingMember? (h : program.matchingMember? id method type = some found) :
    program.isMatch id method found = true := by
  rw [matchingMember?_eq_find?] at h
  exact List.find?_some h

/-! ## Base classes -/

theorem isMatch_of_inheritedMember? {start : Option TypeId}
    (h : program.inheritedMember? id method classes start = some found) :
    program.isMatch id method found = true := by
  induction classes generalizing start with
  | zero => cases h
  | succ classes ih =>
    cases start with
    | none => cases h
    | some type =>
      rw [inheritedMember?] at h
      split at h
      · cases h
        exact isMatch_of_matchingMember? ‹_›
      · exact ih h

/-! ## Interfaces -/

/-- The interface is listed on the type. -/
def Lists (program : Program) (type interface : TypeId) : Prop :=
  interface ∈ program.interfacesOf type

/-- The types that a type inherits from directly. -/
def InheritsFrom (program : Program) (child parent : TypeId) : Prop :=
  parent ∈ program.supertypesOf child

theorem supertypesOf_congr {later : Program} (h : later.types = program.types) (type : TypeId) :
    later.supertypesOf type = program.supertypesOf type := by
  simp only [supertypesOf, h]

theorem lt_size_of_inheritsFrom {parent : TypeId} (h : program.InheritsFrom type parent) :
    type < program.types.size := by
  by_contra hle
  rw [InheritsFrom, supertypesOf_eq_nil hle] at h
  cases h

theorem Lists.inheritsFrom {interface : TypeId} (h : program.Lists type interface) :
    program.InheritsFrom type interface := by
  unfold Lists interfacesOf at h
  unfold InheritsFrom supertypesOf
  cases hdecl : program.types[type]? with
  | none =>
    rw [hdecl] at h
    cases h
  | some decl =>
    rw [hdecl] at h
    exact List.mem_append_right _ h

section

variable (program id method)

/-- An interface that is reached from a start has the member as its matching one. -/
def Reaches (start : TypeId) (member : MethodId) : Prop :=
  ∃ interface, Relation.ReflTransGen program.Lists start interface ∧
    program.matchingMember? id method interface = some member

/-- The members found so far, and the matching one of an interface. -/
def foundAt (found : List MethodId) (interface : TypeId) : List MethodId :=
  match program.matchingMember? id method interface with
  | some member => if found.contains member then found else found ++ [member]
  | none => found

variable {program id method}

theorem mem_foundAt {before : List MethodId} :
    found ∈ program.foundAt id method before type ↔
      found ∈ before ∨ program.matchingMember? id method type = some found := by
  unfold foundAt
  cases program.matchingMember? id method type with
  | none => simp
  | some member =>
    by_cases hmember : member ∈ before
    · simp only [List.contains_iff_mem.mpr hmember, if_true, Option.some.injEq]
      constructor
      · exact .inl
      · rintro (h | rfl)
        · exact h
        · exact hmember
    · simp [hmember, eq_comm]

theorem collectMembers_succ {collected : Collected} (hnew : type ∉ collected.visited) :
    program.collectMembers id method (levels + 1) collected type =
      (program.interfacesOf type).foldl (program.collectMembers id method levels)
        { found := program.foundAt id method collected.found type
          visited := type :: collected.visited } := by
  have hcontains : ¬ collected.visited.contains type = true := fun h =>
    hnew (List.contains_iff_mem.mp h)
  rw [collectMembers, if_neg hcontains]
  rfl

/-- What is found along a list of interfaces is found at one of them. -/
theorem foldl_sound {step : Collected → TypeId → Collected}
    (hstep : ∀ collected interface, found ∈ (step collected interface).found →
      found ∈ collected.found ∨ program.Reaches id method interface found)
    {interfaces : List TypeId} {collected : Collected}
    (h : found ∈ (interfaces.foldl step collected).found) :
    found ∈ collected.found ∨
      ∃ interface ∈ interfaces, program.Reaches id method interface found := by
  induction interfaces generalizing collected with
  | nil => exact .inl h
  | cons interface interfaces ih =>
    rcases ih h with hfirst | ⟨later, hlater, hreaches⟩
    · rcases hstep collected interface hfirst with hbefore | hreaches
      · exact .inl hbefore
      · exact .inr ⟨interface, List.mem_cons_self, hreaches⟩
    · exact .inr ⟨later, List.mem_cons_of_mem _ hlater, hreaches⟩

/-- Nothing is collected but what is reached. -/
theorem collectMembers_sound {collected : Collected}
    (h : found ∈ (program.collectMembers id method levels collected type).found) :
    found ∈ collected.found ∨ program.Reaches id method type found := by
  induction levels generalizing collected type with
  | zero => exact .inl h
  | succ levels ih =>
    by_cases hvisited : type ∈ collected.visited
    · rw [collectMembers, if_pos (List.contains_iff_mem.mpr hvisited)] at h
      exact .inl h
    · rw [collectMembers_succ hvisited] at h
      rcases foldl_sound (fun _ _ => ih) h with hown | ⟨interface, hlists, reached, hpath, hmember⟩
      · rcases mem_foundAt.mp hown with hbefore | hmember
        · exact .inl hbefore
        · exact .inr ⟨type, .refl, hmember⟩
      · exact .inr ⟨reached, .head hlists hpath, hmember⟩

variable (program id method)

/-- What a later state of the search has that an earlier one had not: every interface marked since
has its parents marked and its matching member found. -/
structure Settles (earlier later : Collected) : Prop where
  visited : earlier.visited ⊆ later.visited
  found : earlier.found ⊆ later.found
  closed : ∀ type ∈ later.visited, type ∈ earlier.visited ∨
    (∀ interface, program.Lists type interface → interface ∈ later.visited) ∧
      ∀ member, program.matchingMember? id method type = some member → member ∈ later.found

variable {program id method}

theorem Settles.refl (collected : Collected) : program.Settles id method collected collected where
  visited := List.Subset.refl _
  found := List.Subset.refl _
  closed _ h := .inl h

theorem Settles.trans {first second third : Collected}
    (h : program.Settles id method first second) (h' : program.Settles id method second third) :
    program.Settles id method first third where
  visited := List.Subset.trans h.visited h'.visited
  found := List.Subset.trans h.found h'.found
  closed type htype := by
    rcases h'.closed type htype with hsecond | hnew
    · rcases h.closed type hsecond with hfirst | ⟨hparents, hmembers⟩
      · exact .inl hfirst
      · exact .inr ⟨fun interface hlists => h'.visited (hparents interface hlists),
          fun member hmember => h'.found (hmembers member hmember)⟩
    · exact .inr hnew

/-- The interfaces of a list are all marked, one after another. -/
theorem foldl_settles {step : Collected → TypeId → Collected} {interfaces : List TypeId}
    (hstep : ∀ collected, ∀ interface ∈ interfaces,
      program.Settles id method collected (step collected interface) ∧
        interface ∈ (step collected interface).visited) (collected : Collected) :
    program.Settles id method collected (interfaces.foldl step collected) ∧
      ∀ interface ∈ interfaces, interface ∈ (interfaces.foldl step collected).visited := by
  induction interfaces generalizing collected with
  | nil => exact ⟨.refl _, fun _ h => nomatch h⟩
  | cons first interfaces ih =>
    obtain ⟨hfirst, hmarked⟩ := hstep collected first List.mem_cons_self
    obtain ⟨hrest, hlater⟩ :=
      ih (fun collected interface h => hstep collected interface (List.mem_cons_of_mem _ h))
        (step collected first)
    refine ⟨hfirst.trans hrest, ?_⟩
    intro interface hinterface
    rcases List.mem_cons.mp hinterface with rfl | htail
    · exact hrest.visited hmarked
    · exact hlater interface htail

/-- Where chains of interfaces end in time, the search of an interface marks it and leaves nothing
unfinished. -/
theorem collectMembers_settles (hends : EndsWithin program.Lists levels type)
    (collected : Collected) :
    program.Settles id method collected (program.collectMembers id method levels collected type) ∧
      type ∈ (program.collectMembers id method levels collected type).visited := by
  induction levels generalizing collected type with
  | zero => exact hends.elim
  | succ levels ih =>
    by_cases hvisited : type ∈ collected.visited
    · rw [collectMembers, if_pos (List.contains_iff_mem.mpr hvisited)]
      exact ⟨.refl _, hvisited⟩
    · rw [collectMembers_succ hvisited]
      obtain ⟨hrest, hparents⟩ := foldl_settles
        (fun collected interface hlists => ih (hends interface hlists) collected)
        { found := program.foundAt id method collected.found type
          visited := type :: collected.visited }
      refine ⟨⟨?_, ?_, ?_⟩, hrest.visited List.mem_cons_self⟩
      · intro other hother
        exact hrest.visited (List.mem_cons_of_mem _ hother)
      · intro member hmember
        exact hrest.found (mem_foundAt.mpr (.inl hmember))
      · intro other hother
        rcases hrest.closed other hother with hbefore | hclosed
        · rcases List.mem_cons.mp hbefore with rfl | hearlier
          · -- The interface itself is finished only now that its parents are.
            refine .inr ⟨hparents, fun member hmember => ?_⟩
            exact hrest.found (mem_foundAt.mpr (.inr hmember))
          · exact .inl hearlier
        · exact .inr hclosed

end

/-! ## Targets -/

/-- The member of a base class that a method overrides, if it is marked so. -/
def overridden (program : Program) (id : MethodId) (method : Method) : List MethodId :=
  if method.modifiers.isOverride then
    (program.inheritedMember? id method maxHierarchyDepth
      (program.baseClassOf method.owner)).toList
  else []

theorem classMethodTargets_sound (h : target ∈ program.classMethodTargets id method) :
    target ∈ program.overridden id method ∨
      ∃ start ∈ program.implementedInterfaces id method,
        program.Reaches id method start target :=
  foldl_sound (fun _ _ => collectMembers_sound) h

/-- Where chains of interfaces are short enough, the search finds every member that is reached. -/
theorem mem_classMethodTargets
    (hends : ∀ start ∈ program.implementedInterfaces id method,
      EndsWithin program.Lists (maxHierarchyDepth + 1) start) :
    target ∈ program.classMethodTargets id method ↔
      target ∈ program.overridden id method ∨
        ∃ start ∈ program.implementedInterfaces id method,
          program.Reaches id method start target := by
  constructor
  · exact classMethodTargets_sound
  let first : Collected := { found := program.overridden id method }
  let last := (program.implementedInterfaces id method).foldl
    (program.collectMembers id method (maxHierarchyDepth + 1)) first
  have hlast : program.Settles id method first last ∧
      ∀ start ∈ program.implementedInterfaces id method, start ∈ last.visited :=
    foldl_settles (fun collected interface hstart =>
      collectMembers_settles (hends interface hstart) collected) first
  obtain ⟨hsettles, hstarts⟩ := hlast
  -- Nothing was marked at the outset, so in the end everything that is marked is closed.
  have hclosed : ∀ type ∈ last.visited,
      (∀ interface, program.Lists type interface → interface ∈ last.visited) ∧
        ∀ member, program.matchingMember? id method type = some member → member ∈ last.found := by
    intro type htype
    rcases hsettles.closed type htype with hfirst | hclosed
    · cases hfirst
    · exact hclosed
  rintro (hoverridden | ⟨start, hstart, interface, hpath, hmember⟩)
  · exact hsettles.found hoverridden
  · have hreached : interface ∈ last.visited := by
      clear hmember
      induction hpath with
      | refl => exact hstarts start hstart
      | tail _ hlists ih => exact (hclosed _ ih).1 _ hlists
    exact (hclosed interface hreached).2 target hmember

/-- Only class methods that are not static have targets. -/
theorem mem_overrideTargets : target ∈ program.overrideTargets id ↔
    ∃ method, program.methods[id]? = some method ∧ method.isStatic = false ∧
      method.owner < program.types.size ∧ method.kind ≠ .interfaceMember ∧
      target ∈ program.classMethodTargets id method := by
  unfold overrideTargets
  cases program.methods[id]? with
  | none => simp
  | some method =>
    cases hstatic : method.isStatic with
    | true => simp [hstatic]
    | false =>
      by_cases howner : program.types.size ≤ method.owner
      · simp [howner]
      · cases hkind : method.kind <;> simp [hstatic, howner, hkind, Nat.lt_of_not_le howner]

/-- A target matches its method. -/
theorem isMatch_of_mem_classMethodTargets (h : target ∈ program.classMethodTargets id method) :
    program.isMatch id method target = true := by
  rcases classMethodTargets_sound h with hoverridden | ⟨-, -, interface, -, hmember⟩
  · unfold overridden at hoverridden
    split at hoverridden
    · exact isMatch_of_inheritedMember? (Option.mem_toList.mp hoverridden)
    · cases hoverridden
  · exact isMatch_of_matchingMember? hmember

end Program

end AsyncLift
