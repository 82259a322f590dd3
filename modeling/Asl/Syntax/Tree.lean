import Asl.Double
import Asl.Location
import Asl.Syntax.Operator

/-!
# Trees

A program is a list of functions, a function is a list of declarations and a body.
Whatever can be annotated is a `Node`: it has an identity of its own, and facts about
it are kept outside the tree under that identity. Statements, parameters and variable
declarations carry no identity.
-/

namespace Asl

abbrev NodeId := Nat

def NodeId.text (n : NodeId) : String := "#" ++ toString n

structure Node where
  id : NodeId
  loc : Location
deriving DecidableEq

/-- An occurrence of a name, declaring or using it. -/
structure Ident extends Node where
  name : String
deriving DecidableEq

inductive BasicType where
  | int
  | float
  | bool
  | char
deriving DecidableEq

inductive TypeSpec where
  | basic (type : BasicType)
  | array (size : Nat) (element : BasicType)
deriving DecidableEq

inductive Literal where
  | int (value : Int)
  | float (value : Double)
  | bool (value : Bool)
  | char (value : Char)
deriving DecidableEq

inductive Expr where
  | lit (node : Node) (value : Literal)
  | var (node : Node) (ident : Ident)
  | paren (node : Node) (inner : Expr)
  | index (node : Node) (array : Ident) (subscript : Expr)
  | call (node : Node) (callee : Ident) (args : List Expr)
  | unary (node : Node) (op : UnaryOp) (operand : Expr)
  | binary (node : Node) (op : BinaryOp) (left right : Expr)

namespace Expr

def node : Expr → Node
  | lit n _ => n
  | var n _ => n
  | paren n _ => n
  | index n _ _ => n
  | call n _ _ => n
  | unary n _ _ => n
  | binary n _ _ _ => n

def loc (e : Expr) : Location := e.node.loc

/-- The same expression at another node. -/
def withNode (n : Node) : Expr → Expr
  | lit _ v => lit n v
  | var _ x => var n x
  | paren _ e => paren n e
  | index _ x e => index n x e
  | call _ f args => call n f args
  | unary _ op e => unary n op e
  | binary _ op l r => binary n op l r

section

variable {motive : Expr → Prop} (lit : ∀ n v, motive (.lit n v)) (var : ∀ n x, motive (.var n x))
  (paren : ∀ n e, motive e → motive (.paren n e))
  (index : ∀ n x e, motive e → motive (.index n x e))
  (call : ∀ n f args, (∀ arg ∈ args, motive arg) → motive (.call n f args))
  (unary : ∀ n op e, motive e → motive (.unary n op e))
  (binary : ∀ n op l r, motive l → motive r → motive (.binary n op l r))

include lit var paren index call unary binary

/-- What holds of an expression if it holds of all its operands holds of every expression. -/
@[elab_as_elim, induction_eliminator]
theorem inductionOn : ∀ e : Expr, motive e
  | .lit n v => lit n v
  | .var n x => var n x
  | .paren n e => paren n e (inductionOn e)
  | .index n x e => index n x e (inductionOn e)
  | .call n f args => call n f args fun arg _ => inductionOn arg
  | .unary n op e => unary n op e (inductionOn e)
  | .binary n op l r => binary n op l r (inductionOn l) (inductionOn r)

end

end Expr

/-- Where an assignment or a `read` stores. -/
structure Target extends Node where
  ident : Ident
  subscript : Option Expr

/-- An absent alternative is not an empty one, though both do nothing. -/
inductive Stmt where
  | assign (loc : Location) (target : Target) (value : Expr)
  | ite (loc : Location) (condition : Expr) (yes : List Stmt) (no : Option (List Stmt))
  | loop (loc : Location) (condition : Expr) (body : List Stmt)
  | call (loc : Location) (callee : Ident) (args : List Expr)
  | read (loc : Location) (target : Target)
  | write (loc : Location) (value : Expr)
  | print (loc : Location) (text : String)
  | ret (loc : Location) (value : Option Expr)

namespace Stmt

def loc : Stmt → Location
  | assign l _ _ => l
  | ite l _ _ _ => l
  | loop l _ _ => l
  | call l _ _ => l
  | read l _ => l
  | write l _ => l
  | print l _ => l
  | ret l _ => l

end Stmt

structure Param where
  name : Ident
  spec : TypeSpec
deriving DecidableEq

/-- Several names may share one written type. -/
structure VarDecl where
  names : List Ident
  spec : TypeSpec
  loc : Location
deriving DecidableEq

/-- A function without a result is a procedure. -/
structure Function extends Node where
  name : Ident
  params : List Param
  result : Option TypeSpec
  vars : List VarDecl
  body : List Stmt

structure Program extends Node where
  functions : List Function

end Asl
