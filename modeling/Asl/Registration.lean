import Asl.Checking.Rule
import Asl.Pass

/-!
# Registration

The first pass makes one scope for the program and one for each function, and enters
every declaration into the scope it belongs to. Functions are known throughout the
program, parameters and variables in their own function. A name declared twice in one
scope keeps its first meaning and is reported where it is declared again.
-/

namespace Asl

/-- The scope of a program, under a name that no function can have. -/
def globalScope : String := "$global$"

namespace Function

def paramDecls (f : Function) : List (Ident × Binding) :=
  f.params.map fun p => (p.name, ⟨p.spec.type, .parameter⟩)

def varDecls (f : Function) : List (Ident × Binding) :=
  f.vars.flatMap fun d => d.names.map fun x => (x, ⟨d.spec.type, .variable⟩)

/-- What a function declares for its own body, in order. -/
def decls (f : Function) : List (Ident × Binding) := f.paramDecls ++ f.varDecls

end Function

def registerName (x : Ident) (b : Binding) : Pass Unit := do
  if (← get).symbols.declaredHere x.name then
    Pass.report [⟨.redeclared x.name, x.loc⟩]
  else
    Pass.declare x.name b

def registerNames : List (Ident × Binding) → Pass Unit
  | [] => return
  | (x, b) :: rest => do
      registerName x b
      registerNames rest

def registerFunction (f : Function) : Pass Unit := do
  registerName f.name ⟨f.signature, .function⟩
  let scope ← Pass.newScope f.name.name
  Pass.put f.id (.scope scope)
  Pass.within scope (registerNames f.decls)

def registerFunctions : List Function → Pass Unit
  | [] => return
  | f :: rest => do
      registerFunction f
      registerFunctions rest

def registerProgram (p : Program) : Pass Unit := do
  let scope ← Pass.newScope globalScope
  Pass.put p.id (.scope scope)
  Pass.within scope (registerFunctions p.functions)

end Asl
