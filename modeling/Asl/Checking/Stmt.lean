import Asl.Checking.Expr

/-!
# Checking statements

Statements have no types. What they ask of their parts is reported at the statement,
unless the complaint is about one part alone.
-/

namespace Asl

def checkTarget (t : Target) : Pass Ty := do
  let base ← checkIdent t.ident
  let lvalue ← Pass.lvalueOf t.ident.id
  match t.subscript with
  | none => Pass.annotate t.id base lvalue
  | some e => do
      let index ← checkExpr e
      Pass.report (Rule.subscript base index t.loc e.loc)
      Pass.annotate t.id (Rule.elementPlace base index) lvalue

/-- The result that the function around a statement is declared to give. -/
def declaredResult (loc : Location) : Pass Ty := fun t =>
  match t.symbols.signature.bind Ty.result? with
  | some declared => .ok declared t
  | none => .error (.returnOutside loc) t

mutual
def checkStmt : Stmt → Pass Unit
  | .assign loc target value => do
      let place ← checkTarget target
      let type ← checkExpr value
      Pass.report (Rule.assignment place type loc)
      let lvalue ← Pass.lvalueOf target.id
      Pass.report (Rule.addressable place lvalue .targetNotAddressable target.loc)
  | .ite loc condition yes no => do
      let type ← checkExpr condition
      Pass.report (Rule.condition "if" type loc)
      checkBlock yes
      match no with
      | none => pure ()
      | some no => checkBlock no
  | .loop loc condition body => do
      let type ← checkExpr condition
      Pass.report (Rule.condition "while" type loc)
      checkBlock body
  | .call _ f args => do
      let callee ← checkIdent f
      let types ← checkExprs args
      Pass.report (Rule.call f callee args.length)
      Pass.report (Rule.arguments f 1 (Rule.params callee args.length)
        (types.zip (args.map Expr.loc)))
  | .read loc target => do
      let place ← checkTarget target
      Pass.report (Rule.readable place loc)
      let lvalue ← Pass.lvalueOf target.id
      Pass.report (Rule.addressable place lvalue .readNotAddressable loc)
  | .write loc value => do
      let type ← checkExpr value
      Pass.report (Rule.writable type loc)
  | .print _ _ => return
  | .ret loc none => do
      let declared ← declaredResult loc
      Pass.report (Rule.resultNone declared loc)
  | .ret loc (some value) => do
      let declared ← declaredResult loc
      let found ← checkExpr value
      Pass.report (Rule.resultValue declared found loc)
def checkBlock : List Stmt → Pass Unit
  | [] => return
  | s :: rest => do
      checkStmt s
      checkBlock rest
end

end Asl
