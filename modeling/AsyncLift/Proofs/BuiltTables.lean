import AsyncLift.Proofs.StoredIds

/-!
# The tables of built programs

Some columns of a program's tables repeat what other tables say: a type lists its members, a method
its declarations, and a declaration tells the module of the type that its method is in.
`Program.TablesAgree` says that they do so faithfully. A list is given by the places of the rows
that call for it (`placesWhere`), so it has these places, each once, in ascending order.

Builders see to this if the ids that they are given are known. For members it is enough that the
types are (`Builder.ownersAgree_perform`); for declarations the methods must be known as well
(`Builder.tablesAgree_perform`).
-/

namespace AsyncLift

/-! ## Places in a table -/

section Places

variable {α β : Type} {rows : Array α} {p : α → Bool} {place : Nat}

/-- The places in a table of the rows of some kind, in ascending order. -/
def placesWhere (rows : Array α) (p : α → Bool) : List Nat :=
  (List.range rows.size).filter fun place => rows[place]?.any p

theorem mem_placesWhere :
    place ∈ placesWhere rows p ↔ ∃ row, rows[place]? = some row ∧ p row = true := by
  rw [placesWhere, List.mem_filter, List.mem_range, Option.any_eq_true]
  refine and_iff_right_of_imp ?_
  rintro ⟨row, hrow, -⟩
  exact (Array.getElem?_eq_some_iff.mp hrow).1

theorem placesWhere_push (rows : Array α) (row : α) (p : α → Bool) :
    placesWhere (rows.push row) p =
      placesWhere rows p ++ if p row then [rows.size] else [] := by
  have hold : (List.range rows.size).filter (fun place => (rows.push row)[place]?.any p) =
      placesWhere rows p := by
    refine List.filter_congr fun place hplace => ?_
    rw [Array.getElem?_push, if_neg (Nat.ne_of_lt (List.mem_range.mp hplace))]
  rw [placesWhere, Array.size_push, List.range_succ, List.filter_append, hold]
  congr 1
  simp [List.filter_singleton]

theorem placesWhere_map (rows : Array α) (f : α → β) (p : β → Bool) :
    placesWhere (rows.map f) p = placesWhere rows fun row => p (f row) := by
  rw [placesWhere, placesWhere, Array.size_map]
  refine List.filter_congr fun place _ => ?_
  rw [Array.getElem?_map, Option.any_map]

end Places

theorem TypeKind.methodKind_eq_interfaceMember {kind : TypeKind} {modifiers : Modifiers} :
    kind.methodKind modifiers = .interfaceMember ↔ kind = .ofInterface := by
  cases kind with
  | ofInterface => simp [TypeKind.methodKind]
  | ofClass =>
    simp only [TypeKind.methodKind]
    split <;> simp

namespace Program

open Conversion (declarationsOf)

variable {program later : Program} {id : MethodId} {module_ : ModuleId}

/-! ## Tables that agree -/

/-- The owner of the method is known, and the method is of the kind that a method of its modifiers
is in such a type. -/
def KindGiven (program : Program) (method : Method) : Prop :=
  ∃ type, program.types[method.owner]? = some type ∧
    method.kind = type.kind.methodKind method.modifiers

/-- Types list the methods that they own, and methods are of the kind that their owner gives
them. -/
structure OwnersAgree (program : Program) : Prop where
  members : ∀ type, program.membersOf type = placesWhere program.methods (·.owner == type)
  kinds : ∀ method ∈ program.methods, program.KindGiven method

/-- Moreover methods list the declarations that are theirs, and declarations stand in the module of
the owner. -/
structure TablesAgree (program : Program) : Prop extends OwnersAgree program where
  declarations : ∀ id, declarationsOf program id =
    placesWhere program.declarations (·.method == id)
  modules : ∀ row ∈ program.declarations, program.LiesIn row.method row.declaredIn

namespace KeepsRows

theorem liesIn (h : program.KeepsRows later) (hlies : program.LiesIn id module_) :
    later.LiesIn id module_ := by
  obtain ⟨method, type, hmethod, htype, hmodule⟩ := hlies
  obtain ⟨method', hmethod', hhead⟩ := h.methods id method hmethod
  obtain ⟨type', htype', -, hmodule', -⟩ := h.types method.owner type htype
  refine ⟨method', type', hmethod', ?_, hmodule'.trans hmodule⟩
  rw [Method.eq_of_head hhead]
  exact htype'

theorem kindGiven (h : program.KeepsRows later) {method method' : Method}
    (hkind : program.KindGiven method) (hhead : method'.head = method.head) :
    later.KindGiven method' := by
  obtain ⟨type, htype, hgiven⟩ := hkind
  obtain ⟨type', htype', -, -, hsame⟩ := h.types method.owner type htype
  rw [Method.eq_of_head hhead]
  exact ⟨type', htype', by rw [hsame]; exact hgiven⟩

end KeepsRows

theorem OwnersAgree.exists_liesIn (h : program.OwnersAgree) (hid : id < program.methods.size) :
    ∃ module_, program.LiesIn id module_ := by
  have hmethod := Array.getElem?_eq_getElem hid
  obtain ⟨type, htype, -⟩ := h.kinds _ (Array.mem_of_getElem? hmethod)
  exact ⟨type.declaredIn, _, type, hmethod, htype, rfl⟩

end Program

/-! ## Builders -/

namespace Builder

open Program

variable {current : ModuleId} {call : Call} {program later : Program} {builder : Builder}

theorem ownersAgree_step (h : program.OwnersAgree) (hstep : Step current call program later)
    (htypes : ∀ type ∈ call.namedTypes, type < program.types.size) : later.OwnersAgree := by
  have hkeeps := hstep.keepsRows
  obtain ⟨hmembers, hheads⟩ | ⟨method, hnamed, hkind, rfl⟩ := hstep.members_cases
  · refine ⟨fun type => ?_, fun method hmethod => ?_⟩
    · have hplaces := congrArg (placesWhere · (·.owner == type)) hheads
      simp only [placesWhere_map] at hplaces
      exact (hmembers type).trans ((h.members type).trans hplaces.symm)
    · obtain ⟨old, hold, heq⟩ := exists_of_map_eq hheads hmethod
      exact hkeeps.kindGiven (h.kinds old hold) heq.symm
  · have howner := htypes method.owner hnamed
    refine ⟨fun type => ?_, fun row hrow => ?_⟩
    · rw [membersOf_addMethod, h.members, Program.addMethod, placesWhere_push]
      congr 1
      by_cases htype : method.owner = type
      · rw [if_pos ⟨htype, htype ▸ howner⟩, if_pos (beq_iff_eq.mpr htype)]
      · rw [if_neg fun hboth => htype hboth.1, if_neg fun heq => htype (beq_iff_eq.mp heq)]
    · rcases Array.mem_push.mp hrow with hold | rfl
      · exact hkeeps.kindGiven (h.kinds row hold) rfl
      · have htype := Array.getElem?_eq_getElem howner
        refine hkeeps.kindGiven ⟨_, htype, ?_⟩ rfl
        rw [hkind, kindOf_of_type htype]

theorem tablesAgree_step (h : program.TablesAgree) (hstep : Step current call program later)
    (htypes : ∀ type ∈ call.namedTypes, type < program.types.size)
    (hmethods : ∀ method ∈ call.bodyOf?, method < program.methods.size) :
    later.TablesAgree := by
  have howners := ownersAgree_step h.toOwnersAgree hstep htypes
  have hkeeps := hstep.keepsRows
  obtain ⟨hlists, hheads⟩ | ⟨row, hknown, hmodule, hrows, hlists⟩ := hstep.declarations_cases
  · refine { howners with declarations := fun id => ?_, modules := fun row hrow => ?_ }
    · have hplaces := congrArg (placesWhere · (·.method == id)) hheads
      simp only [placesWhere_map] at hplaces
      exact (hlists id).trans ((h.declarations id).trans hplaces.symm)
    · obtain ⟨old, hold, heq⟩ := exists_of_map_eq hheads hrow
      obtain ⟨hmethod, hmodule⟩ := Declaration.head_eq_iff.mp heq
      rw [← hmethod, ← hmodule]
      exact hkeeps.liesIn (h.modules old hold)
  · have hmethod : row.method < program.methods.size := hknown.elim id (hmethods row.method)
    obtain ⟨module_, hlies⟩ := h.exists_liesIn hmethod
    have hhome : moduleOfMethod ⟨program, current⟩ row.method = module_ :=
      LiesIn.moduleOfMethod hlies
    refine { howners with declarations := fun id => ?_, modules := fun other hother => ?_ }
    · rw [hlists, h.declarations, hrows, placesWhere_push]
      congr 1
      by_cases hid : row.method = id
      · rw [if_pos ⟨hid, hid ▸ hmethod⟩, if_pos (beq_iff_eq.mpr hid)]
      · rw [if_neg fun hboth => hid hboth.1, if_neg fun heq => hid (beq_iff_eq.mp heq)]
    · rw [hrows] at hother
      rcases Array.mem_push.mp hother with hold | rfl
      · exact hkeeps.liesIn (h.modules other hold)
      · rw [hmodule, hhome]
        exact hkeeps.liesIn hlies

/-- A call keeps members and owners in agreement if the types that it refers to are there. -/
theorem ownersAgree_perform (h : builder.program.OwnersAgree)
    (htypes : ∀ type ∈ call.namedTypes, type < builder.program.types.size) :
    (builder.perform call).2.program.OwnersAgree :=
  perform_invariant OwnersAgree (fun _ _ hkeeps hstep h =>
    ownersAgree_step h hstep fun type htype => (htypes type htype).trans_le hkeeps.types_le) h

/-- A call keeps the tables in agreement if the types that it refers to are there, and the method
that it adds a body for. -/
theorem tablesAgree_perform (h : builder.program.TablesAgree)
    (htypes : ∀ type ∈ call.namedTypes, type < builder.program.types.size)
    (hmethods : ∀ method ∈ call.bodyOf?, method < builder.program.methods.size) :
    (builder.perform call).2.program.TablesAgree :=
  perform_invariant TablesAgree (fun _ _ hkeeps hstep h => tablesAgree_step h hstep
    (fun type htype => (htypes type htype).trans_le hkeeps.types_le)
    fun method hmethod => (hmethods method hmethod).trans_le hkeeps.methods_le) h

theorem tablesAgree_withMain : withMain.program.TablesAgree where
  members _ := rfl
  declarations _ := rfl
  kinds _ hmethod := absurd hmethod (Array.not_mem_empty _)
  modules _ hrow := absurd hrow (Array.not_mem_empty _)

end Builder

end AsyncLift
