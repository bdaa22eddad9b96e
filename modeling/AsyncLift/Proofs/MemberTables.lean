import AsyncLift.Proofs.BuiltTables
import AsyncLift.Proofs.PlantedProjects

/-!
# Members and their owners

In a program that is loaded, or built from types that the builder has made, the members of a type
are the methods that name it as their owner, and these are members of an interface exactly if the
type is one (`Program.MembersAgree`).

That a listed member names the type as its owner holds of every built program
(`Builder.membersKnown_run`). That the owner lists the method needs the owner to be there when the
method is added: a builder takes the id of a type that does not exist yet, and the type that is
made under this id later has no members.
-/

namespace AsyncLift

namespace Program

variable {program : Program}

/-- Every method is listed by its owner, and is a member of an interface if its owner is one. -/
def MethodsListed (program : Program) : Prop :=
  ∀ (id : MethodId) method, program.methods[id]? = some method →
    ∃ decl, program.types[method.owner]? = some decl ∧ id ∈ decl.members ∧
      (method.kind = .interfaceMember ↔ decl.kind = .ofInterface)

/-- The members of a type are the methods that name it as their owner, and members of interfaces are
told from methods of classes. -/
structure MembersAgree (program : Program) : Prop where
  known : program.MembersKnown
  listed : program.MethodsListed

theorem MembersAgree.mem_membersOf (h : program.MembersAgree) {id : MethodId} {method : Method}
    (hmethod : program.methods[id]? = some method) {type : TypeId} :
    id ∈ program.membersOf type ↔ type = method.owner := by
  have howner : program.ownerOf? id = some method.owner := by rw [ownerOf?, hmethod]; rfl
  constructor
  · intro hmember
    exact Option.some.inj ((h.known type id hmember).symm.trans howner)
  · rintro rfl
    obtain ⟨decl, hdecl, hmember, -⟩ := h.listed id method hmethod
    rw [membersOf, hdecl]
    exact hmember

theorem MembersAgree.owner_isClass (h : program.MembersAgree) {id : MethodId} {method : Method}
    (hmethod : program.methods[id]? = some method) (hkind : method.kind ≠ .interfaceMember) :
    ∃ decl, program.types[method.owner]? = some decl ∧ decl.kind = .ofClass := by
  obtain ⟨decl, hdecl, -, hinterface⟩ := h.listed id method hmethod
  refine ⟨decl, hdecl, ?_⟩
  cases hclass : decl.kind with
  | ofClass => rfl
  | ofInterface => exact absurd (hinterface.mpr hclass) hkind

theorem OwnersAgree.membersAgree (h : program.OwnersAgree) : program.MembersAgree where
  known type id hid := by
    rw [h.members] at hid
    obtain ⟨method, hmethod, howner⟩ := mem_placesWhere.mp hid
    rw [ownerOf?, hmethod, ← beq_iff_eq.mp howner]
    rfl
  listed id method hmethod := by
    obtain ⟨decl, hdecl, hkind⟩ := h.kinds method (Array.mem_of_getElem? hmethod)
    have hlisted : id ∈ program.membersOf method.owner := by
      rw [h.members]
      exact mem_placesWhere.mpr ⟨method, hmethod, beq_self_eq_true _⟩
    rw [membersOf, hdecl] at hlisted
    exact ⟨decl, hdecl, hlisted, by rw [hkind, TypeKind.methodKind_eq_interfaceMember]⟩

end Program

/-! ## Built programs -/

namespace Builder

open Program

variable {builder : Builder} {calls : List Call}

/-- Every call refers only to types that the calls before it have made. -/
def NamesMadeTypes (builder : Builder) : List Call → Prop
  | [] => True
  | call :: calls => (∀ type ∈ call.namedTypes, type < builder.program.types.size) ∧
      (builder.perform call).2.NamesMadeTypes calls

instance decidableNamesMadeTypes (builder : Builder) :
    (calls : List Call) → Decidable (builder.NamesMadeTypes calls)
  | [] => .isTrue trivial
  | call :: calls =>
    have := decidableNamesMadeTypes (builder.perform call).2 calls
    inferInstanceAs (Decidable (_ ∧ _))

theorem ownersAgree_run (h : builder.program.OwnersAgree)
    (hnames : builder.NamesMadeTypes calls) : (builder.run calls).program.OwnersAgree := by
  induction calls generalizing builder with
  | nil => exact h
  | cons call calls ih => exact ih (ownersAgree_perform h hnames.1) hnames.2

theorem membersAgree_run (hnames : withMain.NamesMadeTypes calls) :
    (withMain.run calls).program.MembersAgree :=
  (ownersAgree_run tablesAgree_withMain.toOwnersAgree hnames).membersAgree

end Builder

/-! ## Loaded programs -/

namespace ProjectDoc

open Program

variable {doc : ProjectDoc} {program : Program}

theorem membersAgree_load (h : doc.load = .ok program) : program.MembersAgree := by
  obtain ⟨outlined, defined, last, houtlines, -, hdefine, hfields, rfl⟩ := stages_of_load h
  obtain ⟨hheads, -, -⟩ := filled_of_stages houtlines hdefine hfields
  constructor
  · intro type id hid
    unfold membersOf at hid
    split at hid
    · rename_i decl hdecl
      obtain ⟨⟨module_, typeDoc⟩, hplace⟩ := houtlines.exists_place_of_row hheads hdecl
      obtain ⟨decl', hdecl', -, hmembers⟩ := houtlines.exists_type_row hheads hplace
      cases hdecl.symm.trans hdecl'
      rw [hmembers] at hid
      obtain ⟨method, hmethod⟩ := MethodDoc.mem_ownedBy.mp hid
      obtain ⟨row, -, -, hrow, howner, -, -⟩ := houtlines.exists_method_row hheads hmethod
      rw [ownerOf?, hrow, ← howner]
      rfl
    · cases hid
  · intro id row hrow
    obtain ⟨⟨owner, method⟩, hmethod⟩ := houtlines.exists_method_of_row hheads hrow
    obtain ⟨row', module_, type, hrow', rfl, hplace, hkind⟩ :=
      houtlines.exists_method_row hheads hmethod
    cases hrow.symm.trans hrow'
    obtain ⟨decl, hdecl, hkind', hmembers⟩ := houtlines.exists_type_row hheads hplace
    refine ⟨decl, hdecl, ?_, ?_⟩
    · rw [hmembers]
      exact MethodDoc.mem_ownedBy.mpr ⟨_, hmethod⟩
    · rw [hkind, hkind', TypeKind.methodKind_eq_interfaceMember]

end ProjectDoc

end AsyncLift
