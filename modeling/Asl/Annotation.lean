import Std.Data.TreeMap
import Asl.Fault
import Asl.Ty.Basic

/-!
# Annotations

What is known about the nodes of a tree: the scope that a node opens, the type of its
value, and whether it denotes a place that can be stored to. Each fact is written at
most once.
-/

namespace Asl

inductive Fact where
  | scope (id : ScopeId)
  | type (type : Ty)
  | lvalue (lvalue : Bool)
deriving DecidableEq

def Fact.field : Fact → Field
  | scope _ => .scope
  | type _ => .type
  | lvalue _ => .lvalue

structure Annotation where
  scope : Option ScopeId := none
  type : Option Ty := none
  lvalue : Option Bool := none
deriving DecidableEq

namespace Annotation

def has (a : Annotation) : Field → Bool
  | .scope => a.scope.isSome
  | .type => a.type.isSome
  | .lvalue => a.lvalue.isSome

def learn (a : Annotation) : Fact → Annotation
  | .scope id => { a with scope := some id }
  | .type type => { a with type := some type }
  | .lvalue lvalue => { a with lvalue := some lvalue }

end Annotation

structure Annotations where
  records : Std.TreeMap NodeId Annotation := ∅

namespace Annotations

def get? (a : Annotations) (node : NodeId) : Option Annotation := a.records[node]?

theorem get?_empty (node : NodeId) : (⟨∅⟩ : Annotations).get? node = none := by
  simp [get?]

/-- The number of nodes about which anything is known. -/
def size (a : Annotations) : Nat := a.records.size

def isEmpty (a : Annotations) : Bool := a.records.isEmpty

/-- All that is known, in the order of the nodes. -/
def toList (a : Annotations) : List (NodeId × Annotation) := a.records.toList

def put (a : Annotations) (node : NodeId) (fact : Fact) : Except Fault Annotations :=
  let known := (a.get? node).getD {}
  if known.has fact.field then .error (.rewritten node fact.field)
  else .ok ⟨a.records.insert node (known.learn fact)⟩

theorem put_eq_error {a : Annotations} {node : NodeId} {fact : Fact}
    (h : ((a.get? node).getD {}).has fact.field = true) :
    a.put node fact = .error (.rewritten node fact.field) := by
  simp [put, h]

theorem put_eq_ok {a : Annotations} {node : NodeId} {fact : Fact}
    (h : ((a.get? node).getD {}).has fact.field = false) :
    a.put node fact = .ok ⟨a.records.insert node (((a.get? node).getD {}).learn fact)⟩ := by
  simp [put, h]

/-- A write shows at its own node, as one fact more, and nowhere else. -/
theorem get?_of_put {a b : Annotations} {node : NodeId} {fact : Fact}
    (h : a.put node fact = .ok b) (other : NodeId) :
    b.get? other =
      if node = other then some (((a.get? node).getD {}).learn fact) else a.get? other := by
  cases hk : ((a.get? node).getD {}).has fact.field with
  | true => simp [put_eq_error hk] at h
  | false =>
      rw [put_eq_ok hk, Except.ok.injEq] at h
      subst h
      simp only [get?, Std.TreeMap.getElem?_insert, Nat.compare_eq_eq]

def scope? (a : Annotations) (node : NodeId) : Option ScopeId :=
  (a.get? node).bind Annotation.scope

def type? (a : Annotations) (node : NodeId) : Option Ty := (a.get? node).bind Annotation.type

def lvalue? (a : Annotations) (node : NodeId) : Option Bool :=
  (a.get? node).bind Annotation.lvalue

end Annotations

end Asl
