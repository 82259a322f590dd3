/-!
# Operators

The operators of expressions and how they are written. Binary operators fall into
three families, each with a typing rule of its own.
-/

namespace Asl

inductive UnaryOp where
  | not
  | plus
  | minus
deriving DecidableEq

inductive ArithOp where
  | add
  | sub
  | mul
  | div
  | mod
deriving DecidableEq

inductive RelOp where
  | eq
  | ne
  | lt
  | le
  | gt
  | ge
deriving DecidableEq

inductive LogicOp where
  | and
  | or
deriving DecidableEq

inductive BinaryOp where
  | arith (op : ArithOp)
  | rel (op : RelOp)
  | logic (op : LogicOp)
deriving DecidableEq

namespace UnaryOp

def all : List UnaryOp := [not, plus, minus]

def text : UnaryOp → String
  | not => "not"
  | plus => "+"
  | minus => "-"

end UnaryOp

namespace ArithOp

def all : List ArithOp := [add, sub, mul, div, mod]

def text : ArithOp → String
  | add => "+"
  | sub => "-"
  | mul => "*"
  | div => "/"
  | mod => "%"

end ArithOp

namespace RelOp

def all : List RelOp := [eq, ne, lt, le, gt, ge]

def text : RelOp → String
  | eq => "=="
  | ne => "!="
  | lt => "<"
  | le => "<="
  | gt => ">"
  | ge => ">="

/-- Equality tests apply to more types than the orderings do. -/
def isEquality : RelOp → Bool
  | eq | ne => true
  | _ => false

end RelOp

namespace LogicOp

def all : List LogicOp := [and, or]

def text : LogicOp → String
  | and => "and"
  | or => "or"

end LogicOp

namespace BinaryOp

def text : BinaryOp → String
  | arith op => op.text
  | rel op => op.text
  | logic op => op.text

end BinaryOp

end Asl
