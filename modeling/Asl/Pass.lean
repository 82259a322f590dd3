import Asl.Tables

/-!
# Passes

A pass is a run over the tables that may meet a fault. What it has written by then
stays written, and the scopes it has entered are left all the same.
-/

namespace Asl

abbrev Pass := EStateM Fault Tables

namespace Pass

/-- Makes a scope and gives its number. -/
def newScope (name : String) : Pass ScopeId :=
  modifyGet fun t => (t.symbols.scopes.size, { t with symbols := t.symbols.newScope name })

def enter (scope : ScopeId) : Pass Unit := fun t =>
  match t.symbols.enter scope with
  | .ok symbols => .ok () { t with symbols }
  | .error fault => .error fault t

def declare (name : String) (b : Binding) : Pass Unit := fun t =>
  match t.symbols.declare name b with
  | .ok symbols => .ok () { t with symbols }
  | .error fault => .error fault t

def setSignature (signature : Option Ty) : Pass Unit := modify (·.withSignature signature)

def put (node : NodeId) (fact : Fact) : Pass Unit := fun t =>
  match t.annotations.put node fact with
  | .ok annotations => .ok () { t with annotations }
  | .error fault => .error fault t

/-- The scope that a node was given before. -/
def scopeOf (node : NodeId) : Pass ScopeId := fun t =>
  match t.annotations.scope? node with
  | some scope => .ok scope t
  | none => .error (.missing node .scope) t

/-- Whether a node checked before can be stored to. -/
def lvalueOf (node : NodeId) : Pass Bool := fun t =>
  match t.annotations.lvalue? node with
  | some lvalue => .ok lvalue t
  | none => .error (.missing node .lvalue) t

/-- Settles the type of a node and whether it can be stored to, and hands the type on. -/
def annotate (node : NodeId) (type : Ty) (lvalue : Bool) : Pass Ty := do
  put node (.type type)
  put node (.lvalue lvalue)
  return type

def report (found : List Diagnostic) : Pass Unit := modify (·.report found)

/-- Runs a pass and tidies the tables after it, also when it ends in a fault. -/
def ensuring (tidy : Tables → Tables) (body : Pass α) : Pass α := fun t =>
  match body t with
  | .ok a t => .ok a (tidy t)
  | .error fault t => .error fault (tidy t)

/-- Runs a pass with a scope active. -/
def within (scope : ScopeId) (body : Pass α) : Pass α := do
  enter scope
  body.ensuring Tables.leave

end Pass

end Asl
