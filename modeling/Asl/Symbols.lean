import Asl.Fault
import Asl.Ty.Basic

/-!
# Symbols

Scopes are numbered in the order they are made and are never removed. Which of them
are active is a stack of their numbers; a name means its first declaration in the
innermost active scope that declares it. Beside the scopes stands the signature of the
function whose body is being read, if any.
-/

namespace Asl

/-- How a name came to be declared. -/
inductive Role where
  | function
  | parameter
  | variable
deriving DecidableEq

structure Binding where
  type : Ty
  role : Role
deriving DecidableEq

/-- Declared as a function, whatever its type. -/
def Binding.isFunction (b : Binding) : Bool := b.role == .function

structure Scope where
  name : String
  bindings : List (String × Binding) := []

namespace Scope

def find? (s : Scope) (x : String) : Option Binding := s.bindings.lookup x

/-- The first declaration of a name stands; later ones change nothing. -/
def declare (s : Scope) (x : String) (b : Binding) : Scope :=
  if (s.find? x).isSome then s else { s with bindings := s.bindings ++ [(x, b)] }

/-- A declaration shows under its own name, unless an earlier one stands, and under no
other. -/
theorem find?_declare (s : Scope) (x y : String) (b : Binding) :
    (s.declare x b).find? y = if x = y then some ((s.find? x).getD b) else s.find? y := by
  unfold declare
  by_cases hxy : x = y
  · subst hxy
    cases h : s.find? x with
    | some c => simp [h]
    | none =>
        simp only [Option.isSome_none, Bool.false_eq_true, ↓reduceIte, Option.getD_none]
        unfold find? at h ⊢
        simp [List.lookup_append, h]
  · have hyx : (y == x) = false := by simpa using Ne.symm hxy
    simp only [hxy, ↓reduceIte]
    split
    · rfl
    · simp [find?, List.lookup_append, List.lookup_cons, hyx]

end Scope

structure Symbols where
  scopes : Array Scope := #[]
  /-- Innermost first. -/
  stack : List ScopeId := []
  signature : Option Ty := none

namespace Symbols

def newScope (s : Symbols) (name : String) : Symbols :=
  { s with scopes := s.scopes.push ⟨name, []⟩ }

def scopeName? (s : Symbols) (id : ScopeId) : Option String := s.scopes[id]?.map Scope.name

def enter (s : Symbols) (id : ScopeId) : Except Fault Symbols :=
  if id < s.scopes.size then .ok { s with stack := id :: s.stack } else .error (.unknownScope id)

/-- Deactivates the innermost scope, if there is one. -/
def leave (s : Symbols) : Symbols := { s with stack := s.stack.tail }

def innermost? (s : Symbols) : Option ScopeId := s.stack.head?

def outermost? (s : Symbols) : Option ScopeId := s.stack.getLast?

def depth (s : Symbols) : Nat := s.stack.length

def findIn? (s : Symbols) (id : ScopeId) (x : String) : Option Binding :=
  s.scopes[id]?.bind (·.find? x)

def find? (s : Symbols) (x : String) : Option Binding := s.stack.findSome? (s.findIn? · x)

def declare (s : Symbols) (x : String) (b : Binding) : Except Fault Symbols :=
  match s.innermost? with
  | none => .error (.noActiveScope x)
  | some id => .ok { s with scopes := s.scopes.modify id (·.declare x b) }

def declaredHere (s : Symbols) (x : String) : Bool :=
  (s.innermost?.bind (s.findIn? · x)).isSome

def type? (s : Symbols) (x : String) : Option Ty := (s.find? x).map Binding.type

def isFunction (s : Symbols) (x : String) : Bool := (s.find? x).any Binding.isFunction

/-- A program starts at a procedure without parameters in its outermost scope. -/
def hasEntryPoint (s : Symbols) (x : String) : Bool :=
  (s.outermost?.bind (s.findIn? · x)).any fun b =>
    b.isFunction && b.type.isProcedure && b.type.arity? == some 0

end Symbols

end Asl
