import Asl.Checking.Program
import Asl.Registration

/-!
# Analysis

Registration followed by checking, on tables of their own.
-/

namespace Asl

def version : String := "0.1.0"

def analysis (c : Config) (p : Program) : Pass Nat := do
  registerProgram p
  checkProgram c p

/-- Fails only on a fault. What is wrong with the program is among the diagnostics. -/
def analyse (p : Program) (c : Config := {}) : Except Fault Tables :=
  match analysis c p {} with
  | .ok _ t => .ok t
  | .error fault _ => .error fault

end Asl
