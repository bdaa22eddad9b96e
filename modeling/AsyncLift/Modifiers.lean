import AsyncLift.Error

/-!
# Modifiers

The modifiers of a method that matter for overriding and for asynchrony. A method either has a
modifier or not, however often and in whatever order its keywords are given; they are written in one
fixed order.
-/

namespace AsyncLift

structure Modifiers where
  isPublic : Bool := false
  isStatic : Bool := false
  isAbstract : Bool := false
  isVirtual : Bool := false
  isOverride : Bool := false
  isAsync : Bool := false
deriving DecidableEq, Repr, Inhabited

namespace Modifiers

def union (a b : Modifiers) : Modifiers where
  isPublic := a.isPublic || b.isPublic
  isStatic := a.isStatic || b.isStatic
  isAbstract := a.isAbstract || b.isAbstract
  isVirtual := a.isVirtual || b.isVirtual
  isOverride := a.isOverride || b.isOverride
  isAsync := a.isAsync || b.isAsync

instance : Union Modifiers := ⟨union⟩

/-- Every keyword in source order, with whether it is present. -/
def flags (m : Modifiers) : List (String × Bool) :=
  [("public", m.isPublic), ("static", m.isStatic), ("abstract", m.isAbstract),
    ("virtual", m.isVirtual), ("override", m.isOverride), ("async", m.isAsync)]

/-- The keywords that are present, in source order. -/
def keywords (m : Modifiers) : List String := (m.flags.filter (·.2)).map (·.1)

/-- The flags read as a binary number, `public` being the lowest digit. -/
def bits (m : Modifiers) : Nat := m.flags.foldr (fun flag n => 2 * n + flag.2.toNat) 0

def ofKeyword : String → Except ProgramError Modifiers
  | "public" => .ok { isPublic := true }
  | "static" => .ok { isStatic := true }
  | "abstract" => .ok { isAbstract := true }
  | "virtual" => .ok { isVirtual := true }
  | "override" => .ok { isOverride := true }
  | "async" => .ok { isAsync := true }
  | keyword => .error (.unknownModifier keyword)

/-- The modifiers that a list of keywords gives; the first unknown keyword is the complaint. -/
def ofKeywords (keywords : List String) : Except ProgramError Modifiers :=
  keywords.foldlM (fun m keyword => (m ∪ ·) <$> ofKeyword keyword) {}

end Modifiers

end AsyncLift
