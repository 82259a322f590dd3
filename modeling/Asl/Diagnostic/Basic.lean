import Asl.Location
import Asl.Ty.Basic

/-!
# Diagnostics

A complaint says what is wrong with a program, a diagnostic says where. Checking goes
on after either, so diagnostics pile up in the order in which they are found.
-/

namespace Asl

inductive Complaint where
  | undeclared (name : String)
  | redeclared (name : String)
  | notCallable (name : String)
  | noValue (name : String)
  | argumentCount (name : String) (expected found : Nat)
  | argumentType (callee : String) (position : Nat)
  | assignment (expected found : Ty)
  | targetNotAddressable
  | readNotAddressable
  | conditionNotBool (instruction : String)
  | notPrimitive (instruction : String)
  | notArray
  | subscriptNotInt
  | operandType (operator : String)
  | result (expected found : Ty)
  | entryPoint (name : String)
deriving DecidableEq

namespace Complaint

def name : Complaint → String
  | undeclared _ => "UndeclaredIdentifier"
  | redeclared _ => "DeclaredIdentifier"
  | notCallable _ => "NotCallable"
  | noValue _ => "NotAFunctionValue"
  | argumentCount _ _ _ => "WrongParameterCount"
  | argumentType _ _ => "IncompatibleParameterType"
  | assignment _ _ => "IncompatibleAssignment"
  | targetNotAddressable => "NonAddressableAssignmentTarget"
  | readNotAddressable => "NonAddressableReadTarget"
  | conditionNotBool _ => "BooleanConditionRequired"
  | notPrimitive _ => "PrimitiveRequiredForIO"
  | notArray => "NonArrayIndexed"
  | subscriptNotInt => "NonIntegerArrayIndex"
  | operandType _ => "IncompatibleOperator"
  | result _ _ => "IncompatibleReturn"
  | entryPoint _ => "MissingOrMalformedEntryPoint"

def message : Complaint → String
  | undeclared name => "Identifier '" ++ name ++ "' is undeclared."
  | redeclared name => "Identifier '" ++ name ++ "' already declared."
  | notCallable name => "Identifier '" ++ name ++ "' is not callable."
  | noValue name => "Identifier '" ++ name ++ "' is a procedure and does not return a value."
  | argumentCount name expected found =>
      "Call to '" ++ name ++ "' expects " ++ toString expected ++ " parameter(s), found " ++
        toString found ++ "."
  | argumentType callee position =>
      "Parameter #" ++ toString position ++ " with incompatible type in call to '" ++ callee ++
        "'."
  | assignment expected found =>
      "Assignment with incompatible types: cannot store " ++ found.text ++ " into " ++
        expected.text ++ "."
  | targetNotAddressable => "Left expression of assignment is not referenceable."
  | readNotAddressable => "Expression in 'read' is not referenceable."
  | conditionNotBool instruction =>
      "Instruction '" ++ instruction ++ "' requires a boolean condition."
  | notPrimitive instruction => "Basic type required in '" ++ instruction ++ "'."
  | notArray => "Array access to a non array operand."
  | subscriptNotInt => "Array access with non integer index."
  | operandType operator => "Operator '" ++ operator ++ "' with incompatible types."
  | result expected found =>
      "Return with incompatible type: expected " ++ expected.text ++ ", found " ++ found.text ++
        "."
  | entryPoint name => "There is no '" ++ name ++ "' function properly declared."

end Complaint

structure Diagnostic where
  complaint : Complaint
  loc : Location
deriving DecidableEq

namespace Diagnostic

def name (d : Diagnostic) : String := d.complaint.name

def message (d : Diagnostic) : String := d.complaint.message

def text (d : Diagnostic) : String := d.loc.text ++ ": " ++ d.message

end Diagnostic

/-- All diagnostics of a run, in the order in which they were found. -/
structure Diagnostics where
  entries : Array Diagnostic := #[]

namespace Diagnostics

def toList (ds : Diagnostics) : List Diagnostic := ds.entries.toList

def size (ds : Diagnostics) : Nat := ds.entries.size

def isEmpty (ds : Diagnostics) : Bool := ds.entries.isEmpty

def push (ds : Diagnostics) (d : Diagnostic) : Diagnostics := ⟨ds.entries.push d⟩

def append (ds : Diagnostics) (found : List Diagnostic) : Diagnostics :=
  ⟨ds.entries ++ found⟩

/-- How many complaints go by a name. -/
def countOf (ds : Diagnostics) (name : String) : Nat :=
  ds.toList.countP fun d => d.name == name

@[simp] theorem toList_push (ds : Diagnostics) (d : Diagnostic) :
    (ds.push d).toList = ds.toList ++ [d] := by
  simp [push, toList]

@[simp] theorem toList_append (ds : Diagnostics) (found : List Diagnostic) :
    (ds.append found).toList = ds.toList ++ found := by
  simp [append, toList]

theorem size_eq_length (ds : Diagnostics) : ds.size = ds.toList.length := rfl

end Diagnostics

end Asl
