/-!
# Ids

Modules, types, methods, declarations and nodes stand in tables of the program and are referred to
by their position there. An id is only a number: it may lie beyond its table, and looking it up then
finds nothing.

A row does not store its own id. Rows are added at the end of a table and are never moved, so that a
stored id would be the position again.

Ids have no largest value. Where they are kept in 32 bits, with the largest value 4294967295 for a
missing id, they are these ids as long as no table has more than 4294967295 rows. Beyond that ids
would be cut off to 32 bits and name other rows, which is not described here.
-/

namespace AsyncLift

abbrev ModuleId := Nat
abbrev TypeId := Nat
abbrev MethodId := Nat
abbrev DeclId := Nat
abbrev NodeId := Nat

/-- A place for a child node; `none` is an empty place, such as the missing receiver of a call. -/
abbrev Slot := Option NodeId

end AsyncLift
