import Asl.Checking.Rule
import Asl.Pass

/-!
# Checking expressions

An expression is visited once, its parts before itself and from left to right. Each
node is given its type and whether it can be stored to, and the type is handed up.
-/

namespace Asl

def checkIdent (x : Ident) : Pass Ty := do
  let meaning := (← get).symbols.find? x.name
  Pass.report (Rule.name x meaning)
  Pass.annotate x.id (Rule.nameType meaning) (Rule.nameLvalue meaning)

/-- The value of an operation, which is never a place. -/
def conclude (n : Node) (v : Verdict) : Pass Ty := do
  Pass.report v.found
  Pass.annotate n.id v.type false

mutual
def checkExpr : Expr → Pass Ty
  | .lit n v => Pass.annotate n.id v.type false
  | .var n x => do
      let type ← checkIdent x
      let lvalue ← Pass.lvalueOf x.id
      Pass.annotate n.id type lvalue
  | .paren n e => do
      let type ← checkExpr e
      Pass.annotate n.id type false
  | .index n x e => do
      let base ← checkIdent x
      let lvalue ← Pass.lvalueOf x.id
      let index ← checkExpr e
      Pass.report (Rule.subscript base index n.loc e.loc)
      Pass.annotate n.id (Rule.elementValue base index) lvalue
  | .call n f args => do
      let callee ← checkIdent f
      Pass.report (Rule.valueCall f callee args.length)
      checkArgs f 1 (Rule.params callee args.length) args
      Pass.annotate n.id (Rule.callValue callee) false
  | .unary n op e => do
      let operand ← checkExpr e
      conclude n (Rule.unary op operand n.loc)
  | .binary n op l r => do
      let left ← checkExpr l
      let right ← checkExpr r
      conclude n (Rule.binary op left right n.loc)
/-- The arguments of a call for its value, each held against its parameter before the
next is visited. An argument without a parameter is not visited. -/
def checkArgs (f : Ident) : Nat → List Ty → List Expr → Pass Unit
  | k, param :: params, e :: rest => do
      let arg ← checkExpr e
      Pass.report (Rule.argument f k param arg e.loc)
      checkArgs f (k + 1) params rest
  | _, _, _ => return
end

/-- Expressions that stand side by side, with nothing expected of their types. -/
def checkExprs : List Expr → Pass (List Ty)
  | [] => return []
  | e :: rest => do
      let type ← checkExpr e
      let types ← checkExprs rest
      return type :: types

end Asl
