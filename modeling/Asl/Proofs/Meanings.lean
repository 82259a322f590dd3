import Asl.Proofs.Reading
import Asl.Proofs.Verdicts

/-!
# What a name means in a body

A name that a function declares, as a parameter or as a variable, means a value throughout the body.
Any other means the first function of that name, wherever in the program it stands. These tests on
the program say all that a traversal can learn of a name by looking it up.
-/

namespace Asl

/-- As a parameter or as a variable. -/
def Function.declares (f : Function) (x : String) : Bool := f.decls.any fun d => d.1.name == x

namespace Program

def declares (p : Program) (x : String) : Bool := p.functions.any fun f => f.name.name == x

/-- The name means something in the body of a function. -/
def knows (p : Program) (f : Function) (x : String) : Bool := f.declares x || p.declares x

/-- The name means a function in the body of a function. -/
def meansFunction (p : Program) (f : Function) (x : String) : Bool :=
  !f.declares x && p.declares x

/-- The name means a function of so many parameters. -/
def callable (p : Program) (f : Function) : Entered := fun g arity =>
  !f.declares g.name && (p.function? g.name).any fun g => g.params.length == arity

/-- The parts of a program that are visited, the bodies in order. -/
def visited (p : Program) : List Part :=
  p.functions.flatMap fun f => reachedBlock (p.callable f) f.body

def visitedIds (p : Program) : List NodeId := p.visited.map Part.id

end Program

section

variable {p : Program} {f : Function} {x : String}

theorem Function.isSome_declared? (f : Function) (x : String) :
    (f.declared? x).isSome = f.declares x := by
  rw [declared?, Option.isSome_map, declares, Bool.eq_iff_iff, List.find?_isSome, List.any_eq_true]

theorem Program.isSome_function? (p : Program) (x : String) :
    (p.function? x).isSome = p.declares x := by
  rw [function?, declares, Bool.eq_iff_iff, List.find?_isSome, List.any_eq_true]

/-- What a function declares is no function, by its role or by its type. -/
theorem Function.isFunction_of_declared? {b : Binding} (h : f.declared? x = some b) :
    b.isFunction = false ∧ b.type.isFunction = false := by
  obtain ⟨d, hd, rfl⟩ := Option.map_eq_some_iff.mp h
  rcases List.mem_append.mp (List.mem_of_find?_eq_some hd) with hd | hd
  · obtain ⟨param, -, rfl⟩ := List.mem_map.mp hd
    exact ⟨rfl, (Written.value param.spec).isFunction_type⟩
  · obtain ⟨decl, -, hd⟩ := List.mem_flatMap.mp hd
    obtain ⟨y, -, rfl⟩ := List.mem_map.mp hd
    exact ⟨rfl, (Written.value decl.spec).isFunction_type⟩

namespace Program

theorem isNone_env (p : Program) (f : Function) (x : String) :
    (p.env f x).isNone = !p.knows f x := by
  rw [knows, ← f.isSome_declared?, ← p.isSome_function?, env]
  cases f.declared? x <;> cases p.function? x <;> rfl

theorem lvalueOf_env (p : Program) (f : Function) (x : Ident) :
    (p.env f).lvalueOf x = !p.meansFunction f x.name := by
  rw [meansFunction, ← f.isSome_declared?, ← p.isSome_function?, Env.lvalueOf, env]
  cases hdeclared : f.declared? x.name with
  | some b => simp [Rule.nameLvalue, (Function.isFunction_of_declared? hdeclared).1]
  | none => cases p.function? x.name <;> rfl

theorem isFunction_typeOf_env (p : Program) (f : Function) (x : Ident) :
    ((p.env f).typeOf x).isFunction = p.meansFunction f x.name := by
  rw [meansFunction, ← f.isSome_declared?, ← p.isSome_function?, Env.typeOf, env]
  cases hdeclared : f.declared? x.name with
  | some b => simpa [Rule.nameType] using (Function.isFunction_of_declared? hdeclared).2
  | none => cases p.function? x.name <;> rfl

theorem takes_env (p : Program) (f : Function) : (p.env f).takes = p.callable f := by
  funext g arity
  rw [callable, ← f.isSome_declared?, Env.takes, Env.typeOf, env]
  cases hdeclared : f.declared? g.name with
  | none => cases p.function? g.name <;> simp [Rule.nameType, Function.signature]
  | some b =>
      have hb := (Function.isFunction_of_declared? hdeclared).2
      cases htype : b.type <;> simp_all [Rule.nameType, Ty.isFunction]

end Program

end

end Asl
