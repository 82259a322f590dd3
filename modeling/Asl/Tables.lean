import Asl.Annotation
import Asl.Diagnostic.Basic
import Asl.Symbols

/-!
# Tables

All that the passes over a program read and write, apart from the program itself.
-/

namespace Asl

structure Tables where
  symbols : Symbols := {}
  annotations : Annotations := {}
  diagnostics : Diagnostics := {}

namespace Tables

/-- Nothing has been found wrong with the program. -/
def isOk (t : Tables) : Bool := t.diagnostics.isEmpty

def withSignature (t : Tables) (signature : Option Ty) : Tables :=
  { t with symbols := { t.symbols with signature } }

def leave (t : Tables) : Tables := { t with symbols := t.symbols.leave }

def report (t : Tables) (found : List Diagnostic) : Tables :=
  { t with diagnostics := t.diagnostics.append found }

end Tables

end Asl
