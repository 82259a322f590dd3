import Asl.Checking.Stmt

/-!
# Checking programs

The second pass reads every body in the scope that registration gave its function, and
then asks for an entry point. It expects the scopes to be there and makes none.
-/

namespace Asl

structure Config where
  /-- The procedure without parameters at which a program starts. -/
  entryPoint : String := "main"

def checkFunction (f : Function) : Pass Unit := do
  Pass.setSignature (some f.signature)
  let scope ← Pass.scopeOf f.id
  (Pass.within scope (checkBlock f.body)).ensuring (·.withSignature none)

def checkFunctions : List Function → Pass Unit
  | [] => return
  | f :: rest => do
      checkFunction f
      checkFunctions rest

def checkEntryPoint (c : Config) (loc : Location) : Pass Unit := do
  let found := (← get).symbols.hasEntryPoint c.entryPoint
  Pass.report (complainIf (!found) (.entryPoint c.entryPoint) loc)

/-- Gives the number of diagnostics found. -/
def checkProgram (c : Config) (p : Program) : Pass Nat := do
  let before := (← get).diagnostics.size
  let scope ← Pass.scopeOf p.id
  Pass.within scope do
    checkFunctions p.functions
    checkEntryPoint c p.loc
  return (← get).diagnostics.size - before

end Asl
