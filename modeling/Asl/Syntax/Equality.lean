import Asl.Syntax.Tree

/-!
# Equality of trees

Trees are compared node by node, identities and locations included. The comparison is
not reflexive: a tree with a literal that is not a number differs from itself.
-/

namespace Asl

def Literal.same : Literal → Literal → Bool
  | .int a, .int b => a == b
  | .float a, .float b => a.same b
  | .bool a, .bool b => a == b
  | .char a, .char b => a == b
  | _, _ => false

mutual
def Expr.same : Expr → Expr → Bool
  | .lit n a, .lit m b => n == m && a.same b
  | .var n x, .var m y => n == m && x == y
  | .paren n a, .paren m b => n == m && a.same b
  | .index n x a, .index m y b => n == m && x == y && a.same b
  | .call n f as, .call m g bs => n == m && f == g && Expr.sameAll as bs
  | .unary n o a, .unary m p b => n == m && o == p && a.same b
  | .binary n o a c, .binary m p b d => n == m && o == p && a.same b && c.same d
  | _, _ => false
def Expr.sameAll : List Expr → List Expr → Bool
  | [], [] => true
  | a :: as, b :: bs => a.same b && Expr.sameAll as bs
  | _, _ => false
end

def Expr.sameOption : Option Expr → Option Expr → Bool
  | none, none => true
  | some a, some b => a.same b
  | _, _ => false

def Target.same (a b : Target) : Bool :=
  a.toNode == b.toNode && a.ident == b.ident && Expr.sameOption a.subscript b.subscript

mutual
def Stmt.same : Stmt → Stmt → Bool
  | .assign l t v, .assign k u w => l == k && t.same u && v.same w
  | .ite l c s none, .ite k d t none => l == k && c.same d && Stmt.sameAll s t
  | .ite l c s (some e), .ite k d t (some f) =>
      l == k && c.same d && Stmt.sameAll s t && Stmt.sameAll e f
  | .loop l c s, .loop k d t => l == k && c.same d && Stmt.sameAll s t
  | .call l f as, .call k g bs => l == k && f == g && Expr.sameAll as bs
  | .read l t, .read k u => l == k && t.same u
  | .write l v, .write k w => l == k && v.same w
  | .print l s, .print k t => l == k && s == t
  | .ret l v, .ret k w => l == k && Expr.sameOption v w
  | _, _ => false
def Stmt.sameAll : List Stmt → List Stmt → Bool
  | [], [] => true
  | s :: ss, t :: ts => s.same t && Stmt.sameAll ss ts
  | _, _ => false
end

def Function.same (f g : Function) : Bool :=
  f.toNode == g.toNode && f.name == g.name && f.params == g.params && f.result == g.result &&
    f.vars == g.vars && Stmt.sameAll f.body g.body

def Program.same (p q : Program) : Bool :=
  p.toNode == q.toNode && p.functions.isEqv q.functions Function.same

end Asl
