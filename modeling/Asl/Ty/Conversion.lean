import Asl.Syntax.Tree
import Asl.Ty.Basic

/-!
# Storing, comparing and writing types

Equality is the whole of conversion, except that an integer may be stored as a float
and that numbers of either type may be compared.
-/

namespace Asl

namespace Ty

/-- A value of type `source` may be stored where `target` is declared. -/
def admits (target source : Ty) : Bool :=
  target == source || target.isFloat && source.isInt

def comparable (op : RelOp) (a b : Ty) : Bool :=
  a.isNumeric && b.isNumeric || op.isEquality && a.isScalar && a == b

end Ty

def BasicType.type : BasicType → Ty
  | int => .int
  | float => .float
  | bool => .bool
  | char => .char

def TypeSpec.type : TypeSpec → Ty
  | basic b => b.type
  | array n b => .array n b.type

def Literal.type : Literal → Ty
  | int _ => .int
  | float _ => .float
  | bool _ => .bool
  | char _ => .char

/-- A function as its callers see it. -/
def Function.signature (f : Function) : Ty :=
  .func (f.params.map fun p => p.spec.type) (f.result.elim .void TypeSpec.type)

end Asl
