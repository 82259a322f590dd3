import Asl.Diagnostic.Basic
import Asl.Ty.Conversion
import Asl.Symbols

/-!
# Typing rules

The rules by themselves, as functions of the types that the parts of a node turned out
to have. A rule gives the type of the whole or the complaints about it. Every rule
tests an operand by `Ty.fails`, so that what is erroneous already is never blamed twice.
-/

namespace Asl

/-- An operand does not meet a demand. An erroneous one meets every demand. -/
def Ty.fails (t : Ty) (demand : Ty → Bool) : Bool := !t.isError && !demand t

@[simp] theorem Ty.fails_error (demand : Ty → Bool) : Ty.error.fails demand = false := rfl

theorem Ty.fails_eq_true_iff {t : Ty} {demand : Ty → Bool} :
    t.fails demand = true ↔ t ≠ .error ∧ demand t = false := by
  cases t <;> simp [fails, isError]

/-- Complains on a condition. -/
def complainIf (wrong : Bool) (complaint : Complaint) (loc : Location) : List Diagnostic :=
  if wrong then [⟨complaint, loc⟩] else []

/-- What a rule makes of a node: its type, and what is wrong with its parts. -/
structure Verdict where
  type : Ty
  found : List Diagnostic

namespace Rule

def nameType (meaning : Option Binding) : Ty := meaning.elim .error Binding.type

/-- An undeclared name passes for a place, lest storing to it be a second mistake. -/
def nameLvalue (meaning : Option Binding) : Bool := meaning.elim true fun b => !b.isFunction

def name (x : Ident) (meaning : Option Binding) : List Diagnostic :=
  complainIf meaning.isNone (.undeclared x.name) x.loc

def subscript (base index : Ty) (loc indexLoc : Location) : List Diagnostic :=
  complainIf (base.fails Ty.isArray) .notArray loc ++
    complainIf (index.fails Ty.isInt) .subscriptNotInt indexLoc

/-- What lies in an array; anything else stays what it is. -/
def element : Ty → Ty
  | .array _ t => t
  | t => t

def elementValue (base index : Ty) : Ty :=
  if base.fails Ty.isArray || index.fails Ty.isInt then .error else element base

/-- Unlike a value, a place under a bad subscript keeps the type of the array. -/
def elementPlace (base index : Ty) : Ty :=
  if base.fails Ty.isArray then .error
  else if index.fails Ty.isInt then base
  else element base

def unary (op : UnaryOp) (operand : Ty) (loc : Location) : Verdict :=
  match op with
  | .not => ⟨.bool, complainIf (operand.fails Ty.isBool) (.operandType op.text) loc⟩
  | .plus | .minus =>
      if operand.fails Ty.isNumeric then ⟨.error, [⟨.operandType op.text, loc⟩]⟩
      else ⟨operand, []⟩

/-- What an operand of an arithmetic operator has to be. -/
def operandOf : ArithOp → Ty → Bool
  | .mod => Ty.isInt
  | _ => Ty.isNumeric

def arith (op : ArithOp) (l r : Ty) (loc : Location) : Verdict :=
  if l.fails (operandOf op) || r.fails (operandOf op) then
    ⟨.error, [⟨.operandType op.text, loc⟩]⟩
  else if l.isError || r.isError then ⟨.error, []⟩
  else if l.isFloat || r.isFloat then ⟨.float, []⟩
  else ⟨.int, []⟩

def rel (op : RelOp) (l r : Ty) (loc : Location) : Verdict :=
  ⟨.bool, complainIf (!l.isError && r.fails (Ty.comparable op l)) (.operandType op.text) loc⟩

def logic (op : LogicOp) (l r : Ty) (loc : Location) : Verdict :=
  ⟨.bool, complainIf (l.fails Ty.isBool || r.fails Ty.isBool) (.operandType op.text) loc⟩

def binary : BinaryOp → Ty → Ty → Location → Verdict
  | .arith op => arith op
  | .rel op => rel op
  | .logic op => logic op

/-- The types that the arguments have to fit. There are none when the callee is no
function or takes another number of them. -/
def params (callee : Ty) (arity : Nat) : List Ty :=
  match callee with
  | .func params _ => if params.length = arity then params else []
  | _ => []

def call (callee : Ident) (type : Ty) (arity : Nat) : List Diagnostic :=
  match type with
  | .error => []
  | .func params _ =>
      complainIf (params.length != arity) (.argumentCount callee.name params.length arity)
        callee.loc
  | _ => [⟨.notCallable callee.name, callee.loc⟩]

/-- Where a value is wanted, a procedure will not do. -/
def valueCall (callee : Ident) (type : Ty) (arity : Nat) : List Diagnostic :=
  complainIf type.isProcedure (.noValue callee.name) callee.loc ++ call callee type arity

def callValue : Ty → Ty
  | .func _ .void => .error
  | .func _ result => result
  | _ => .error

/-- Positions are counted from one. -/
def argument (callee : Ident) (position : Nat) (param arg : Ty) (loc : Location) :
    List Diagnostic :=
  complainIf (arg.fails param.admits) (.argumentType callee.name position) loc

def arguments (callee : Ident) : Nat → List Ty → List (Ty × Location) → List Diagnostic
  | k, param :: params, (arg, loc) :: args =>
      argument callee k param arg loc ++ arguments callee (k + 1) params args
  | _, _, _ => []

def assignment (target value : Ty) (loc : Location) : List Diagnostic :=
  complainIf (!target.isError && value.fails target.admits) (.assignment target value) loc

def addressable (target : Ty) (lvalue : Bool) (complaint : Complaint) (loc : Location) :
    List Diagnostic :=
  complainIf (target.fails fun _ => lvalue) complaint loc

def condition (instruction : String) (t : Ty) (loc : Location) : List Diagnostic :=
  complainIf (t.fails Ty.isBool) (.conditionNotBool instruction) loc

/-- A function name under `read` has another complaint of its own. -/
def readable (t : Ty) (loc : Location) : List Diagnostic :=
  complainIf (t.fails fun t => t.isPrimitive || t.isFunction) (.notPrimitive "read") loc

def writable (t : Ty) (loc : Location) : List Diagnostic :=
  complainIf (t.fails Ty.isPrimitive) (.notPrimitive "write") loc

/-- A procedure returns nothing, not even an erroneous value. -/
def resultValue (declared found : Ty) (loc : Location) : List Diagnostic :=
  complainIf (declared.isVoid || found.fails declared.admits) (.result declared found) loc

def resultNone (declared : Ty) (loc : Location) : List Diagnostic :=
  complainIf (!declared.isVoid) (.result declared .void) loc

end Rule

end Asl
