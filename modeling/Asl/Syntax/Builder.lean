import Asl.Syntax.Tree

/-!
# Building trees

A builder hands out identities in increasing order and stamps every part with the
place of its cursor. Parts are made before the whole that holds them; a part with an
identifier takes its own identity first and the identifier takes the next one.
-/

namespace Asl

structure Builder where
  next : NodeId := 0
  cursor : Location := ⟨1, 1, none⟩

/-- A fresh builder, whose locations all lie in the given file. -/
def Builder.start (file : Option String) : Builder := ⟨0, ⟨1, 1, file⟩⟩

abbrev Build := StateM Builder

namespace Build

/-- Moves the cursor within its file. -/
def moveTo (line column : Nat) : Build Unit :=
  modify fun b => { b with cursor := { b.cursor with line, column } }

def here : Build Location := do
  return (← get).cursor

def fresh : Build NodeId :=
  modifyGet fun b => (b.next, { b with next := b.next + 1 })

def node : Build Node := do
  let id ← fresh
  return ⟨id, ← here⟩

def ident (name : String) : Build Ident := do
  return ⟨← node, name⟩

def lit (value : Literal) : Build Expr := do
  return .lit (← node) value

def var (name : String) : Build Expr := do
  let n ← node
  return .var n (← ident name)

def paren (inner : Expr) : Build Expr := do
  return .paren (← node) inner

def index (array : String) (subscript : Expr) : Build Expr := do
  let n ← node
  return .index n (← ident array) subscript

def call (callee : String) (args : List Expr) : Build Expr := do
  let n ← node
  return .call n (← ident callee) args

def unary (op : UnaryOp) (operand : Expr) : Build Expr := do
  return .unary (← node) op operand

def binary (op : BinaryOp) (left right : Expr) : Build Expr := do
  return .binary (← node) op left right

def target (name : String) (subscript : Option Expr) : Build Target := do
  let n ← node
  return ⟨n, ← ident name, subscript⟩

def assign (target : Target) (value : Expr) : Build Stmt := do
  return .assign (← here) target value

def ite (condition : Expr) (yes : List Stmt) (no : Option (List Stmt)) : Build Stmt := do
  return .ite (← here) condition yes no

def loop (condition : Expr) (body : List Stmt) : Build Stmt := do
  return .loop (← here) condition body

def procedureCall (callee : String) (args : List Expr) : Build Stmt := do
  let f ← ident callee
  return .call (← here) f args

def read (target : Target) : Build Stmt := do
  return .read (← here) target

def write (value : Expr) : Build Stmt := do
  return .write (← here) value

def print (text : String) : Build Stmt := do
  return .print (← here) text

def ret (value : Option Expr) : Build Stmt := do
  return .ret (← here) value

def param (name : String) (spec : TypeSpec) : Build Param := do
  return ⟨← ident name, spec⟩

def vars (names : List String) (spec : TypeSpec) : Build VarDecl := do
  let idents ← names.mapM ident
  return ⟨idents, spec, ← here⟩

def function (name : String) (params : List Param) (result : Option TypeSpec)
    (vars : List VarDecl) (body : List Stmt) : Build Function := do
  let n ← node
  return ⟨n, ← ident name, params, result, vars, body⟩

def program (functions : List Function) : Build Program := do
  return ⟨← node, functions⟩

end Build

end Asl
