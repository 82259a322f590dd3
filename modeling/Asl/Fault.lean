import Asl.Syntax.Tree

/-!
# Faults

A fault is a broken contract between a tree and the tables it is checked against. It
says nothing about the program under check, and it ends the pass that meets it.
-/

namespace Asl

abbrev ScopeId := Nat

/-- The facts that a node may carry. -/
inductive Field where
  | scope
  | type
  | lvalue
deriving DecidableEq

def Field.text : Field → String
  | scope => "scope"
  | type => "type"
  | lvalue => "lvalue"

inductive Fault where
  | missing (node : NodeId) (field : Field)
  | rewritten (node : NodeId) (field : Field)
  | unknownScope (scope : ScopeId)
  | noActiveScope (name : String)
  | returnOutside (loc : Location)
deriving DecidableEq

namespace Fault

def name : Fault → String
  | missing _ _ => "MissingAnnotation"
  | rewritten _ _ => "AnnotationRewritten"
  | unknownScope _ => "UnknownScope"
  | noActiveScope _ => "NoActiveScope"
  | returnOutside _ => "ReturnOutsideFunction"

def message : Fault → String
  | missing node field => "node " ++ node.text ++ " has no " ++ field.text ++ " annotation"
  | rewritten node field => field.text ++ " annotation of node " ++ node.text ++ " written twice"
  | unknownScope scope =>
      "scope " ++ toString scope ++ " was never created by this symbol table"
  | noActiveScope name => "declaration of '" ++ name ++ "' with no active scope"
  | returnOutside loc => "return statement at " ++ loc.text ++ " is outside of any function"

end Fault

end Asl
