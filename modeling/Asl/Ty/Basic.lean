/-!
# Types

The closed set of types. `error` marks something that has been reported already, and
`void` is the result of a procedure; neither can be written in a program.
-/

namespace Asl

inductive Ty where
  | error
  | void
  | int
  | float
  | bool
  | char
  | array (size : Nat) (element : Ty)
  | func (params : List Ty) (result : Ty)

namespace Ty

mutual
def same : Ty → Ty → Bool
  | .error, .error => true
  | .void, .void => true
  | .int, .int => true
  | .float, .float => true
  | .bool, .bool => true
  | .char, .char => true
  | .array m a, .array n b => m == n && a.same b
  | .func as a, .func bs b => sameAll as bs && a.same b
  | _, _ => false
def sameAll : List Ty → List Ty → Bool
  | [], [] => true
  | a :: as, b :: bs => a.same b && sameAll as bs
  | _, _ => false
end

mutual
theorem same_iff : ∀ a b : Ty, a.same b = true ↔ a = b
  | .array m a, b => by
      cases b with
      | array n b => simp [same, same_iff a b]
      | _ => simp [same]
  | .func as a, b => by
      cases b with
      | func bs b => simp [same, same_iff a b, sameAll_iff as bs]
      | _ => simp [same]
  | .error, b | .void, b | .int, b | .float, b | .bool, b | .char, b => by
      cases b <;> simp [same]
theorem sameAll_iff : ∀ as bs : List Ty, sameAll as bs = true ↔ as = bs
  | [], bs => by cases bs <;> simp [sameAll]
  | _ :: _, [] => by simp [sameAll]
  | a :: as, b :: bs => by simp [sameAll, same_iff a b, sameAll_iff as bs]
end

instance : DecidableEq Ty := fun a b => decidable_of_iff _ (same_iff a b)

def isError : Ty → Bool
  | .error => true
  | _ => false

def isVoid : Ty → Bool
  | .void => true
  | _ => false

def isInt : Ty → Bool
  | .int => true
  | _ => false

def isFloat : Ty → Bool
  | .float => true
  | _ => false

def isBool : Ty → Bool
  | .bool => true
  | _ => false

def isChar : Ty → Bool
  | .char => true
  | _ => false

def isArray : Ty → Bool
  | .array _ _ => true
  | _ => false

def isFunction : Ty → Bool
  | .func _ _ => true
  | _ => false

def isNumeric : Ty → Bool
  | .int | .float => true
  | _ => false

/-- The types without parts; `void` counts as one. -/
def isPrimitive : Ty → Bool
  | .void | .int | .float | .bool | .char => true
  | _ => false

def isScalar (t : Ty) : Bool := t.isPrimitive && !t.isVoid

/-- A function that gives no value back. -/
def isProcedure : Ty → Bool
  | .func _ result => result.isVoid
  | _ => false

def element? : Ty → Option Ty
  | .array _ t => some t
  | _ => none

def size? : Ty → Option Nat
  | .array n _ => some n
  | _ => none

def result? : Ty → Option Ty
  | .func _ t => some t
  | _ => none

def params? : Ty → Option (List Ty)
  | .func ts _ => some ts
  | _ => none

def arity? (t : Ty) : Option Nat := t.params?.map List.length

mutual
def text : Ty → String
  | .error => "error"
  | .void => "void"
  | .int => "int"
  | .float => "float"
  | .bool => "bool"
  | .char => "char"
  | .array n t => "array<" ++ toString n ++ "," ++ t.text ++ ">"
  | .func ts t => "(" ++ textAll ts ++ ")->" ++ t.text
def textAll : List Ty → String
  | [] => ""
  | [t] => t.text
  | t :: ts => t.text ++ "," ++ textAll ts
end

end Ty

end Asl
