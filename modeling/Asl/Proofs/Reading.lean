import Asl.Checking.Program
import Asl.Proofs.Part
import Asl.Registration

/-!
# Reading a body without tables

What checking does to a body depends on very little: on what the names in it mean and on
the result that its function is declared to give. Given these, the type of each part, the
visits and the complaints are functions of the tree alone. A reading lists visits and
complaints together, in the order in which they come, since a run that meets a fault
stops somewhere in that list.
-/

namespace Asl

abbrev Env := String → Option Binding

namespace Env

def typeOf (env : Env) (x : Ident) : Ty := Rule.nameType (env x.name)

def lvalueOf (env : Env) (x : Ident) : Bool := Rule.nameLvalue (env x.name)

/-- The name of a function with so many parameters. -/
def takes (env : Env) : Entered := fun f arity =>
  match env.typeOf f with
  | .func params _ => params.length == arity
  | _ => false

end Env

/-- The first of a function's own declarations of a name. -/
def Function.declared? (f : Function) (x : String) : Option Binding :=
  (f.decls.find? fun d => d.1.name == x).map Prod.snd

/-- The first function of a name. -/
def Program.function? (p : Program) (x : String) : Option Function :=
  p.functions.find? fun f => f.name.name == x

/-- In the body of a function a name means what the function declares it as, and a
function of the program otherwise. -/
def Program.env (p : Program) (f : Function) : Env := fun x =>
  (f.declared? x).or ((p.function? x).map fun g => ⟨g.signature, .function⟩)

/-- A procedure gives nothing. -/
def Function.resultType (f : Function) : Ty := f.result.elim .void TypeSpec.type

def Expr.type (env : Env) : Expr → Ty
  | .lit _ v => v.type
  | .var _ x => env.typeOf x
  | .paren _ e => e.type env
  | .index _ x e => Rule.elementValue (env.typeOf x) (e.type env)
  | .call _ f _ => Rule.callValue (env.typeOf f)
  | .unary n op e => (Rule.unary op (e.type env) n.loc).type
  | .binary n op l r => (Rule.binary op (l.type env) (r.type env) n.loc).type

def Expr.lvalue (env : Env) : Expr → Bool
  | .var _ x => env.lvalueOf x
  | .index _ x _ => env.lvalueOf x
  | _ => false

def Target.type (env : Env) (t : Target) : Ty :=
  match t.subscript with
  | none => env.typeOf t.ident
  | some e => Rule.elementPlace (env.typeOf t.ident) (e.type env)

inductive Event where
  | write (node : NodeId) (fact : Fact)
  | report (d : Diagnostic)

namespace Event

def fact? : Event → Option (NodeId × Fact)
  | write node fact => some (node, fact)
  | report _ => none

def found? : Event → Option Diagnostic
  | write _ _ => none
  | report d => some d

end Event

abbrev Reading := List Event

namespace Reading

def facts (es : Reading) : List (NodeId × Fact) := es.filterMap Event.fact?

def found (es : Reading) : List Diagnostic := es.filterMap Event.found?

def reports (ds : List Diagnostic) : Reading := ds.map .report

@[simp] theorem reports_nil : reports [] = [] := rfl

theorem reports_append (ds es : List Diagnostic) : reports (ds ++ es) = reports ds ++ reports es :=
  List.map_append

@[simp] theorem facts_nil : facts [] = [] := rfl

@[simp] theorem facts_write (node : NodeId) (fact : Fact) (es : Reading) :
    facts (.write node fact :: es) = (node, fact) :: facts es := rfl

@[simp] theorem facts_report (d : Diagnostic) (es : Reading) :
    facts (.report d :: es) = facts es := rfl

@[simp] theorem facts_append (es fs : Reading) : facts (es ++ fs) = facts es ++ facts fs :=
  List.filterMap_append

@[simp] theorem facts_reports (ds : List Diagnostic) : facts (reports ds) = [] := by
  induction ds with
  | nil => rfl
  | cons d ds ih => exact ih

@[simp] theorem found_nil : found [] = [] := rfl

@[simp] theorem found_write (node : NodeId) (fact : Fact) (es : Reading) :
    found (.write node fact :: es) = found es := rfl

@[simp] theorem found_report (d : Diagnostic) (es : Reading) :
    found (.report d :: es) = d :: found es := rfl

@[simp] theorem found_append (es fs : Reading) : found (es ++ fs) = found es ++ found fs :=
  List.filterMap_append

@[simp] theorem found_reports (ds : List Diagnostic) : found (reports ds) = ds := by
  induction ds with
  | nil => rfl
  | cons d ds ih => exact congrArg (d :: ·) ih

end Reading

open Reading (reports)

def Part.type (env : Env) : Part → Ty
  | expr e => e.type env
  | target t => t.type env
  | name _ x => env.typeOf x

def Part.lvalue (env : Env) : Part → Bool
  | expr e => e.lvalue env
  | target t => env.lvalueOf t.ident
  | name _ x => env.lvalueOf x

/-- What a visit writes down. -/
def Part.facts (env : Env) (part : Part) : List (NodeId × Fact) :=
  [(part.id, .type (part.type env)), (part.id, .lvalue (part.lvalue env))]

/-- A visit writes about its own node only. -/
theorem Part.eq_id_of_mem_facts {env : Env} {part : Part} {node : NodeId} {fact : Fact}
    (h : (node, fact) ∈ part.facts env) : node = part.id := by
  rcases List.mem_cons.mp h with heq | h
  · exact (Prod.mk.inj heq).1
  · exact (Prod.mk.inj (List.mem_singleton.mp h)).1

def Part.visit (env : Env) (part : Part) : Reading :=
  (part.facts env).map fun (node, fact) => .write node fact

@[simp] theorem Part.facts_visit (env : Env) (part : Part) :
    (part.visit env).facts = part.facts env := rfl

@[simp] theorem Part.found_visit (env : Env) (part : Part) : (part.visit env).found = [] := rfl

/-- A name that means nothing is reported before it is given a type. -/
def Ident.reading (env : Env) (use : Use) (x : Ident) : Reading :=
  reports (Rule.name x (env x.name)) ++ (Part.name use x).visit env

mutual
def Expr.reading (env : Env) : Expr → Reading
  | .lit n v => (Part.expr (.lit n v)).visit env
  | .var n x => x.reading env .plain ++ (Part.expr (.var n x)).visit env
  | .paren n e => e.reading env ++ (Part.expr (.paren n e)).visit env
  | .index n x e =>
      x.reading env .plain ++ e.reading env ++
        reports (Rule.subscript (env.typeOf x) (e.type env) n.loc e.loc) ++
          (Part.expr (.index n x e)).visit env
  | .call n f args =>
      f.reading env .called ++ reports (Rule.valueCall f (env.typeOf f) args.length) ++
        argsReading env f 1 (Rule.params (env.typeOf f) args.length) args ++
          (Part.expr (.call n f args)).visit env
  | .unary n op e =>
      e.reading env ++ reports (Rule.unary op (e.type env) n.loc).found ++
        (Part.expr (.unary n op e)).visit env
  | .binary n op l r =>
      l.reading env ++ r.reading env ++
        reports (Rule.binary op (l.type env) (r.type env) n.loc).found ++
          (Part.expr (.binary n op l r)).visit env
def argsReading (env : Env) (f : Ident) : Nat → List Ty → List Expr → Reading
  | k, param :: params, e :: rest =>
      e.reading env ++ reports (Rule.argument f k param (e.type env) e.loc) ++
        argsReading env f (k + 1) params rest
  | _, _, _ => []
end

def exprsReading (env : Env) : List Expr → Reading
  | [] => []
  | e :: rest => e.reading env ++ exprsReading env rest

def Target.reading (env : Env) (t : Target) : Reading :=
  t.ident.reading env .plain ++
    (match t.subscript with
    | none => []
    | some e =>
        e.reading env ++ reports (Rule.subscript (env.typeOf t.ident) (e.type env) t.loc e.loc)) ++
      (Part.target t).visit env

/-- The complaint about a target that cannot be stored to. -/
def Target.unaddressable (env : Env) (t : Target) (complaint : Complaint) (loc : Location) :
    List Diagnostic :=
  Rule.addressable (t.type env) (env.lvalueOf t.ident) complaint loc

mutual
def Stmt.reading (env : Env) (result : Ty) : Stmt → Reading
  | .assign loc target value =>
      target.reading env ++ value.reading env ++
        reports (Rule.assignment (target.type env) (value.type env) loc) ++
          reports (target.unaddressable env .targetNotAddressable target.loc)
  | .ite loc condition yes no =>
      condition.reading env ++ reports (Rule.condition "if" (condition.type env) loc) ++
        blockReading env result yes ++
          match no with
          | none => []
          | some no => blockReading env result no
  | .loop loc condition body =>
      condition.reading env ++ reports (Rule.condition "while" (condition.type env) loc) ++
        blockReading env result body
  | .call _ f args =>
      f.reading env .called ++ exprsReading env args ++
        reports (Rule.call f (env.typeOf f) args.length) ++
          reports (Rule.arguments f 1 (Rule.params (env.typeOf f) args.length)
            (args.map fun e => (e.type env, e.loc)))
  | .read loc target =>
      target.reading env ++ reports (Rule.readable (target.type env) loc) ++
        reports (target.unaddressable env .readNotAddressable loc)
  | .write loc value =>
      value.reading env ++ reports (Rule.writable (value.type env) loc)
  | .print _ _ => []
  | .ret loc none => reports (Rule.resultNone result loc)
  | .ret loc (some value) =>
      value.reading env ++ reports (Rule.resultValue result (value.type env) loc)
def blockReading (env : Env) (result : Ty) : List Stmt → Reading
  | [] => []
  | s :: rest => s.reading env result ++ blockReading env result rest
end

def Function.reading (p : Program) (f : Function) : Reading :=
  blockReading (p.env f) f.resultType f.body

/-- A program needs a first function of the right name that takes and gives nothing. -/
def Program.startsAt (p : Program) (name : String) : Bool :=
  (p.function? name).any fun f => f.params.isEmpty && f.result.isNone

def Program.entryReports (p : Program) (c : Config) : List Diagnostic :=
  complainIf (!p.startsAt c.entryPoint) (.entryPoint c.entryPoint) p.loc

def Program.bodiesReading (p : Program) (c : Config) : Reading :=
  p.functions.flatMap (Function.reading p) ++ reports (p.entryReports c)

@[simp] theorem Ident.facts_reading (env : Env) (use : Use) (x : Ident) :
    (x.reading env use).facts = (Part.name use x).facts env := by
  simp [Ident.reading]

@[simp] theorem argsReading_nil (env : Env) (f : Ident) (k : Nat) (args : List Expr) :
    argsReading env f k [] args = [] := by
  simp [argsReading]

theorem Rule.params_eq_of_takes {env : Env} {f : Ident} {arity : Nat}
    (h : env.takes f arity = true) : (Rule.params (env.typeOf f) arity).length = arity := by
  unfold Env.takes at h
  unfold Rule.params
  split at h <;> simp_all

theorem Rule.params_eq_nil_of_not_takes {env : Env} {f : Ident} {arity : Nat}
    (h : env.takes f arity = false) : Rule.params (env.typeOf f) arity = [] := by
  unfold Env.takes at h
  unfold Rule.params
  split at h <;> simp_all

mutual
/-- What a reading writes down are the facts about the parts that it visits, in their order. -/
theorem Expr.facts_reading (env : Env) :
    ∀ e : Expr, (e.reading env).facts = (e.reached env.takes).flatMap (Part.facts env)
  | .lit _ _ | .var _ _ => by simp [Expr.reading, Expr.reached]
  | .paren _ e | .index _ _ e | .unary _ _ e => by
      simp [Expr.reading, Expr.reached, e.facts_reading env]
  | .call _ f args => by
      cases htakes : env.takes f args.length with
      | true =>
          have hargs := facts_argsReading env f 1 _ args (Rule.params_eq_of_takes htakes)
          simp [Expr.reading, Expr.reached, htakes, hargs]
      | false =>
          have hparams := Rule.params_eq_nil_of_not_takes htakes
          simp [Expr.reading, Expr.reached, htakes, hparams]
  | .binary _ _ l r => by
      simp [Expr.reading, Expr.reached, l.facts_reading env, r.facts_reading env]
theorem facts_argsReading (env : Env) (f : Ident) :
    ∀ (k : Nat) (params : List Ty) (args : List Expr), params.length = args.length →
      (argsReading env f k params args).facts =
        (reachedExprs env.takes args).flatMap (Part.facts env)
  | _, [], [], _ => by simp [reachedExprs]
  | _, [], _ :: _, h => by simp at h
  | _, _ :: _, [], h => by simp at h
  | k, _ :: params, e :: rest, h => by
      have hrest := facts_argsReading env f (k + 1) params rest (by simpa using h)
      simp [argsReading, reachedExprs, e.facts_reading env, hrest]
end

theorem facts_exprsReading (env : Env) (es : List Expr) :
    (exprsReading env es).facts = (reachedExprs env.takes es).flatMap (Part.facts env) := by
  induction es with
  | nil => rfl
  | cons e rest ih => simp [exprsReading, reachedExprs, e.facts_reading env, ih]

theorem Target.facts_reading (env : Env) (t : Target) :
    (t.reading env).facts = (t.reached env.takes).flatMap (Part.facts env) := by
  unfold Target.reading Target.reached
  cases t.subscript with
  | none => simp
  | some e => simp [e.facts_reading env]

mutual
theorem Stmt.facts_reading (env : Env) (result : Ty) :
    ∀ s : Stmt, (s.reading env result).facts = (s.reached env.takes).flatMap (Part.facts env)
  | .assign _ target value => by
      simp [Stmt.reading, Stmt.reached, target.facts_reading env, value.facts_reading env]
  | .ite _ condition yes none => by
      simp [Stmt.reading, Stmt.reached, condition.facts_reading env,
        facts_blockReading env result yes]
  | .ite _ condition yes (some no) => by
      simp [Stmt.reading, Stmt.reached, condition.facts_reading env,
        facts_blockReading env result yes, facts_blockReading env result no]
  | .loop _ condition body => by
      simp [Stmt.reading, Stmt.reached, condition.facts_reading env,
        facts_blockReading env result body]
  | .call _ _ args => by simp [Stmt.reading, Stmt.reached, facts_exprsReading env args]
  | .read _ target => by simp [Stmt.reading, Stmt.reached, target.facts_reading env]
  | .write _ value => by simp [Stmt.reading, Stmt.reached, value.facts_reading env]
  | .print _ _ => by simp [Stmt.reading, Stmt.reached]
  | .ret _ none => by simp [Stmt.reading, Stmt.reached]
  | .ret _ (some value) => by simp [Stmt.reading, Stmt.reached, value.facts_reading env]
theorem facts_blockReading (env : Env) (result : Ty) :
    ∀ ss : List Stmt,
      (blockReading env result ss).facts = (reachedBlock env.takes ss).flatMap (Part.facts env)
  | [] => rfl
  | s :: rest => by
      simp [blockReading, reachedBlock, s.facts_reading env result,
        facts_blockReading env result rest]
end

end Asl
