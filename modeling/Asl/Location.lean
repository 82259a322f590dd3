/-!
# Locations

A location is a line and a column, both counted from one, in a file that may or
may not have a name.
-/

namespace Asl

structure Location where
  line : Nat
  column : Nat
  file : Option String := none
deriving DecidableEq

namespace Location

/-- The location of nothing in particular: both counts are out of range. -/
def unknown : Location := ⟨0, 0, none⟩

/-- A file name is written as it stands, so an empty one still leaves its colon. -/
def text (l : Location) : String :=
  match l.file with
  | none => toString l.line ++ ":" ++ toString l.column
  | some f => f ++ ":" ++ toString l.line ++ ":" ++ toString l.column

end Location

end Asl
