import Asl.Ty.Conversion

/-!
# Well-typed programs

Typing as a matter of derivations, with no type for what has gone wrong. Names have the
types that can be written for them, a procedure call has no value, and what does not
follow from a rule is not well-typed. Nothing here is computed and nothing is reported.
-/

namespace Asl

/-- What a name can be declared as. -/
inductive Written where
  | value (τ : TypeSpec)
  | func (params : List TypeSpec) (result : Option TypeSpec)

namespace Written

@[match_pattern] abbrev basic (b : BasicType) : Written := .value (.basic b)

@[match_pattern] abbrev int : Written := .basic .int

@[match_pattern] abbrev bool : Written := .basic .bool

end Written

def Function.written (f : Function) : Written := .func (f.params.map Param.spec) f.result

def Literal.basic : Literal → BasicType
  | int _ => .int
  | float _ => .float
  | bool _ => .bool
  | char _ => .char

inductive BasicType.Numeric : BasicType → Prop where
  | int : Numeric .int
  | float : Numeric .float

/-- The type of a sum: an integer as long as both operands are. -/
def BasicType.sum : BasicType → BasicType → BasicType
  | .int, .int => .int
  | _, _ => .float

/-- A value may be stored under its own type, and an integer as a float. -/
inductive Stores : TypeSpec → TypeSpec → Prop where
  | same (τ : TypeSpec) : Stores τ τ
  | widen : Stores (.basic .int) (.basic .float)

/-- Any two numbers may be compared, and two values of one basic type for equality. -/
inductive Comparable (op : RelOp) : BasicType → BasicType → Prop where
  | numbers {a b : BasicType} : a.Numeric → b.Numeric → Comparable op a b
  | equality (b : BasicType) : op.isEquality = true → Comparable op b b

abbrev Context := String → Option Written

/-- What a function declares for its own body, with the types as they are written. -/
def Function.locals (f : Function) : List (String × TypeSpec) :=
  f.params.map (fun p => (p.name.name, p.spec)) ++
    f.vars.flatMap fun d => d.names.map fun x => (x.name, d.spec)

/-- A name that no function declares for itself is that of a function. -/
def Program.signatures (p : Program) : Context := fun x =>
  (p.functions.find? fun f => f.name.name == x).map Function.written

def Program.context (p : Program) (f : Function) : Context := fun x =>
  ((f.locals.find? fun l => l.1 == x).map fun l => .value l.2).or (p.signatures x)

mutual
inductive HasType (Γ : Context) : Expr → Written → Prop where
  | lit (n : Node) (v : Literal) : HasType Γ (.lit n v) (.basic v.basic)
  | var {n : Node} {x : Ident} {w : Written} : Γ x.name = some w → HasType Γ (.var n x) w
  | paren {n : Node} {e : Expr} {w : Written} : HasType Γ e w → HasType Γ (.paren n e) w
  | index {n : Node} {x : Ident} {e : Expr} {size : Nat} {b : BasicType} :
      Γ x.name = some (.value (.array size b)) → HasType Γ e .int →
        HasType Γ (.index n x e) (.basic b)
  | call {n : Node} {f : Ident} {args : List Expr} {params : List TypeSpec} {τ : TypeSpec} :
      Γ f.name = some (.func params (some τ)) → ArgsFit Γ args params →
        HasType Γ (.call n f args) (.value τ)
  | not {n : Node} {e : Expr} : HasType Γ e .bool → HasType Γ (.unary n .not e) .bool
  | sign {n : Node} {op : UnaryOp} {e : Expr} {b : BasicType} :
      op ≠ .not → b.Numeric → HasType Γ e (.basic b) → HasType Γ (.unary n op e) (.basic b)
  | arith {n : Node} {op : ArithOp} {l r : Expr} {a b : BasicType} :
      op ≠ .mod → a.Numeric → b.Numeric → HasType Γ l (.basic a) → HasType Γ r (.basic b) →
        HasType Γ (.binary n (.arith op) l r) (.basic (a.sum b))
  | mod {n : Node} {l r : Expr} :
      HasType Γ l .int → HasType Γ r .int → HasType Γ (.binary n (.arith .mod) l r) .int
  | rel {n : Node} {op : RelOp} {l r : Expr} {a b : BasicType} :
      Comparable op a b → HasType Γ l (.basic a) → HasType Γ r (.basic b) →
        HasType Γ (.binary n (.rel op) l r) .bool
  | logic {n : Node} {op : LogicOp} {l r : Expr} :
      HasType Γ l .bool → HasType Γ r .bool → HasType Γ (.binary n (.logic op) l r) .bool
/-- As many arguments as parameters, and each can be stored in its own. -/
inductive ArgsFit (Γ : Context) : List Expr → List TypeSpec → Prop where
  | nil : ArgsFit Γ [] []
  | cons {e : Expr} {rest : List Expr} {σ τ : TypeSpec} {params : List TypeSpec} :
      HasType Γ e (.value σ) → Stores σ τ → ArgsFit Γ rest params →
        ArgsFit Γ (e :: rest) (τ :: params)
end

/-- A function is no place to store to. -/
inductive HasPlace (Γ : Context) : Target → TypeSpec → Prop where
  | whole {n : Node} {x : Ident} {τ : TypeSpec} :
      Γ x.name = some (.value τ) → HasPlace Γ ⟨n, x, none⟩ τ
  | element {n : Node} {x : Ident} {e : Expr} {size : Nat} {b : BasicType} :
      Γ x.name = some (.value (.array size b)) → HasType Γ e .int →
        HasPlace Γ ⟨n, x, some e⟩ (.basic b)

mutual
/-- A statement in the body of a function that is declared to give `result`. -/
inductive StmtTyped (Γ : Context) (result : Option TypeSpec) : Stmt → Prop where
  | assign {loc : Location} {target : Target} {value : Expr} {σ τ : TypeSpec} :
      HasPlace Γ target τ → HasType Γ value (.value σ) → Stores σ τ →
        StmtTyped Γ result (.assign loc target value)
  | ite {loc : Location} {condition : Expr} {yes : List Stmt} :
      HasType Γ condition .bool → BlockTyped Γ result yes →
        StmtTyped Γ result (.ite loc condition yes none)
  | iteElse {loc : Location} {condition : Expr} {yes no : List Stmt} :
      HasType Γ condition .bool → BlockTyped Γ result yes → BlockTyped Γ result no →
        StmtTyped Γ result (.ite loc condition yes (some no))
  | loop {loc : Location} {condition : Expr} {body : List Stmt} :
      HasType Γ condition .bool → BlockTyped Γ result body →
        StmtTyped Γ result (.loop loc condition body)
  | call {loc : Location} {f : Ident} {args : List Expr} {params : List TypeSpec}
      {given : Option TypeSpec} :
      Γ f.name = some (.func params given) → ArgsFit Γ args params →
        StmtTyped Γ result (.call loc f args)
  | read {loc : Location} {target : Target} {b : BasicType} :
      HasPlace Γ target (.basic b) → StmtTyped Γ result (.read loc target)
  | write {loc : Location} {value : Expr} {b : BasicType} :
      HasType Γ value (.basic b) → StmtTyped Γ result (.write loc value)
  | print (loc : Location) (text : String) : StmtTyped Γ result (.print loc text)
  | retNone {loc : Location} : result = none → StmtTyped Γ result (.ret loc none)
  | retSome {loc : Location} {value : Expr} {σ τ : TypeSpec} :
      result = some τ → HasType Γ value (.value σ) → Stores σ τ →
        StmtTyped Γ result (.ret loc (some value))
inductive BlockTyped (Γ : Context) (result : Option TypeSpec) : List Stmt → Prop where
  | nil : BlockTyped Γ result []
  | cons {s : Stmt} {rest : List Stmt} :
      StmtTyped Γ result s → BlockTyped Γ result rest → BlockTyped Γ result (s :: rest)
end

/-- A program is well-typed when no name is declared twice in one place, some function can
start it, and all bodies are well-typed. -/
structure Program.WellTyped (p : Program) (start : String) : Prop where
  functions : (p.functions.map fun f => f.name.name).Nodup
  locals : ∀ f ∈ p.functions, (f.locals.map Prod.fst).Nodup
  start : ∃ f ∈ p.functions, f.name.name = start ∧ f.params = [] ∧ f.result = none
  bodies : ∀ f ∈ p.functions, BlockTyped (p.context f) f.result f.body

end Asl
