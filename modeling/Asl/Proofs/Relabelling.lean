import Asl.Proofs.Reading

/-!
# Other numbers and other names

A reading asks of the nodes of a tree where they stand and of its names what they mean. So when
nodes get other numbers and names are replaced by names that mean the same, the tree is read as
before: the same is written, under the new numbers, and the same is complained of, with the new
names. A traversal goes into the same calls and visits the same parts.
-/

namespace Asl

/-- Other numbers for the nodes of a tree and other names for its names. -/
structure Relabelling where
  number : NodeId → NodeId := id
  name : String → String := id

abbrev Relabelling.ofNumbers (ν : NodeId → NodeId) : Relabelling := { number := ν }

abbrev Relabelling.ofNames (σ : String → String) : Relabelling := { name := σ }

/-- All parts get the number 0. -/
abbrev Relabelling.unnumbered : Relabelling := .ofNumbers fun _ => 0

def Complaint.rename (σ : String → String) : Complaint → Complaint
  | undeclared name => undeclared (σ name)
  | redeclared name => redeclared (σ name)
  | notCallable name => notCallable (σ name)
  | noValue name => noValue (σ name)
  | argumentCount name expected found => argumentCount (σ name) expected found
  | argumentType callee position => argumentType (σ callee) position
  | entryPoint name => entryPoint (σ name)
  | complaint => complaint

def Diagnostic.rename (σ : String → String) (d : Diagnostic) : Diagnostic :=
  { d with complaint := d.complaint.rename σ }

section

variable (r : Relabelling)

def Node.relabel (n : Node) : Node := { n with id := r.number n.id }

def Ident.relabel (x : Ident) : Ident := { x with id := r.number x.id, name := r.name x.name }

mutual
def Expr.relabel : Expr → Expr
  | .lit n v => .lit (n.relabel r) v
  | .var n x => .var (n.relabel r) (x.relabel r)
  | .paren n e => .paren (n.relabel r) e.relabel
  | .index n x e => .index (n.relabel r) (x.relabel r) e.relabel
  | .call n f args => .call (n.relabel r) (f.relabel r) (relabelExprs args)
  | .unary n op e => .unary (n.relabel r) op e.relabel
  | .binary n op left right => .binary (n.relabel r) op left.relabel right.relabel
def relabelExprs : List Expr → List Expr
  | [] => []
  | e :: rest => e.relabel :: relabelExprs rest
end

def Target.relabel (t : Target) : Target :=
  ⟨t.toNode.relabel r, t.ident.relabel r, t.subscript.map (Expr.relabel r)⟩

mutual
def Stmt.relabel : Stmt → Stmt
  | .assign loc target value => .assign loc (target.relabel r) (value.relabel r)
  | .ite loc condition yes none => .ite loc (condition.relabel r) (relabelBlock yes) none
  | .ite loc condition yes (some no) =>
      .ite loc (condition.relabel r) (relabelBlock yes) (some (relabelBlock no))
  | .loop loc condition body => .loop loc (condition.relabel r) (relabelBlock body)
  | .call loc f args => .call loc (f.relabel r) (relabelExprs r args)
  | .read loc target => .read loc (target.relabel r)
  | .write loc value => .write loc (value.relabel r)
  | .print loc text => .print loc text
  | .ret loc value => .ret loc (value.map (Expr.relabel r))
def relabelBlock : List Stmt → List Stmt
  | [] => []
  | s :: rest => s.relabel :: relabelBlock rest
end

def Part.relabel : Part → Part
  | expr e => expr (e.relabel r)
  | target t => target (t.relabel r)
  | name use x => name use (x.relabel r)

def Event.relabel : Event → Event
  | write node fact => write (r.number node) fact
  | report d => report (d.rename r.name)

end

/-- A name means under the one environment what its new name means under the other. -/
def Env.Renames (σ : String → String) (env env' : Env) : Prop := ∀ x, env' (σ x) = env x

open Reading (reports)

section

variable {r : Relabelling}

@[simp] theorem Ident.name_relabel (x : Ident) : (x.relabel r).name = r.name x.name := rfl

@[simp] theorem Expr.node_relabel (e : Expr) : (e.relabel r).node = e.node.relabel r := by
  cases e <;> rfl

@[simp] theorem Expr.loc_relabel (e : Expr) : (e.relabel r).loc = e.loc := by
  rw [loc, loc, node_relabel]
  rfl

@[simp] theorem relabelExprs_eq_map (es : List Expr) :
    relabelExprs r es = es.map (Expr.relabel r) := by
  induction es with
  | nil => rfl
  | cons e rest ih => rw [relabelExprs, ih, List.map_cons]

@[simp] theorem map_relabel_reports (ds : List Diagnostic) :
    (reports ds).map (Event.relabel r) = reports (ds.map (Diagnostic.rename r.name)) := by
  simp [reports, Function.comp_def, Event.relabel]

theorem Diagnostic.rename_id : Diagnostic.rename id = id := by
  funext ⟨complaint, loc⟩
  cases complaint <;> rfl

end

@[simp] theorem map_rename_complainIf (σ : String → String) (wrong : Bool) (complaint : Complaint)
    (loc : Location) :
    (complainIf wrong complaint loc).map (Diagnostic.rename σ) =
      complainIf wrong (complaint.rename σ) loc := by
  cases wrong <;> rfl

namespace Rule

-- A rule that is given a name complains about that name, the others about none.
section

variable {r : Relabelling}

theorem name_relabel (x : Ident) (meaning : Option Binding) :
    name (x.relabel r) meaning = (name x meaning).map (Diagnostic.rename r.name) := by
  rw [name, name, map_rename_complainIf]
  rfl

theorem call_relabel (f : Ident) (type : Ty) (arity : Nat) :
    call (f.relabel r) type arity = (call f type arity).map (Diagnostic.rename r.name) := by
  unfold call
  cases type with
  | error => rfl
  | func params result =>
      rw [map_rename_complainIf]
      rfl
  | _ => rfl

theorem valueCall_relabel (f : Ident) (type : Ty) (arity : Nat) :
    valueCall (f.relabel r) type arity =
      (valueCall f type arity).map (Diagnostic.rename r.name) := by
  rw [valueCall, valueCall, call_relabel, List.map_append, map_rename_complainIf]
  rfl

theorem argument_relabel (f : Ident) (k : Nat) (param arg : Ty) (loc : Location) :
    argument (f.relabel r) k param arg loc =
      (argument f k param arg loc).map (Diagnostic.rename r.name) := by
  rw [argument, argument, map_rename_complainIf]
  rfl

theorem arguments_relabel (f : Ident) (k : Nat) (params : List Ty) (args : List (Ty × Location)) :
    arguments (f.relabel r) k params args =
      (arguments f k params args).map (Diagnostic.rename r.name) := by
  induction params generalizing k args with
  | nil => simp [arguments]
  | cons param params ih =>
      cases args with
      | nil => simp [arguments]
      | cons arg args => simp [arguments, argument_relabel, ih]

end

section

variable (σ : String → String)

@[simp] theorem map_rename_subscript (base index : Ty) (loc indexLoc : Location) :
    (subscript base index loc indexLoc).map (Diagnostic.rename σ) =
      subscript base index loc indexLoc := by
  simp [subscript, Complaint.rename]

@[simp] theorem map_rename_unary (op : UnaryOp) (operand : Ty) (loc : Location) :
    (unary op operand loc).found.map (Diagnostic.rename σ) = (unary op operand loc).found := by
  unfold unary
  split
  · simp [Complaint.rename]
  all_goals split <;> simp [Diagnostic.rename, Complaint.rename]

@[simp] theorem map_rename_binary (op : BinaryOp) (left right : Ty) (loc : Location) :
    (binary op left right loc).found.map (Diagnostic.rename σ) =
      (binary op left right loc).found := by
  cases op with
  | arith op =>
      simp only [binary, arith]
      repeat' split
      all_goals simp [Diagnostic.rename, Complaint.rename]
  | rel | logic => simp [binary, rel, logic, Complaint.rename]

@[simp] theorem map_rename_assignment (target value : Ty) (loc : Location) :
    (assignment target value loc).map (Diagnostic.rename σ) = assignment target value loc := by
  simp [assignment, Complaint.rename]

@[simp] theorem map_rename_condition (instruction : String) (type : Ty) (loc : Location) :
    (condition instruction type loc).map (Diagnostic.rename σ) =
      condition instruction type loc := by
  simp [condition, Complaint.rename]

@[simp] theorem map_rename_readable (type : Ty) (loc : Location) :
    (readable type loc).map (Diagnostic.rename σ) = readable type loc := by
  simp [readable, Complaint.rename]

@[simp] theorem map_rename_writable (type : Ty) (loc : Location) :
    (writable type loc).map (Diagnostic.rename σ) = writable type loc := by
  simp [writable, Complaint.rename]

@[simp] theorem map_rename_resultValue (declared found : Ty) (loc : Location) :
    (resultValue declared found loc).map (Diagnostic.rename σ) =
      resultValue declared found loc := by
  simp [resultValue, Complaint.rename]

@[simp] theorem map_rename_resultNone (declared : Ty) (loc : Location) :
    (resultNone declared loc).map (Diagnostic.rename σ) = resultNone declared loc := by
  simp [resultNone, Complaint.rename]

end

end Rule

section

variable {r : Relabelling} {env env' : Env} (h : env.Renames r.name env')

include h

theorem Env.Renames.typeOf (x : Ident) : env'.typeOf (x.relabel r) = env.typeOf x :=
  congrArg Rule.nameType (h x.name)

theorem Env.Renames.lvalueOf (x : Ident) : env'.lvalueOf (x.relabel r) = env.lvalueOf x :=
  congrArg Rule.nameLvalue (h x.name)

theorem Expr.type_relabel (e : Expr) : (e.relabel r).type env' = e.type env := by
  induction e with
  | lit n v => rfl
  | var n x => exact h.typeOf x
  | paren n e ih => exact ih
  | index n x e ih => rw [relabel, type, type, h.typeOf, ih]
  | call n f args ih => rw [relabel, type, type, h.typeOf]
  | unary n op e ih =>
      rw [relabel, type, type, ih]
      rfl
  | binary n op left right ihleft ihright =>
      rw [relabel, type, type, ihleft, ihright]
      rfl

theorem Expr.lvalue_relabel (e : Expr) : (e.relabel r).lvalue env' = e.lvalue env := by
  cases e with
  | var n x | index n x e => exact h.lvalueOf x
  | lit | paren | call | unary | binary => rfl

theorem Target.type_relabel (t : Target) : (t.relabel r).type env' = t.type env := by
  obtain ⟨n, x, _ | e⟩ := t
  · exact h.typeOf x
  · have hsubscript : (e.relabel r).type env' = e.type env := e.type_relabel h
    simp only [relabel, type, Option.map_some, h.typeOf, hsubscript]

namespace Part

omit h in
@[simp] theorem id_relabel (part : Part) : (part.relabel r).id = r.number part.id := by
  cases part with
  | expr e => exact congrArg Node.id e.node_relabel
  | target t | name use x => rfl

theorem type_relabel (part : Part) : (part.relabel r).type env' = part.type env := by
  cases part with
  | expr e => exact e.type_relabel h
  | target t => exact t.type_relabel h
  | name use x => exact h.typeOf x

theorem lvalue_relabel (part : Part) : (part.relabel r).lvalue env' = part.lvalue env := by
  cases part with
  | expr e => exact e.lvalue_relabel h
  | target t => exact h.lvalueOf t.ident
  | name use x => exact h.lvalueOf x

theorem visit_relabel (part : Part) :
    (part.relabel r).visit env' = (part.visit env).map (Event.relabel r) := by
  simp [visit, facts, Event.relabel, part.type_relabel h, part.lvalue_relabel h]

end Part

theorem Ident.reading_relabel (use : Use) (x : Ident) :
    (x.relabel r).reading env' use = (x.reading env use).map (Event.relabel r) := by
  rw [reading, reading, x.name_relabel, h x.name, Rule.name_relabel, List.map_append,
    map_relabel_reports, ← Part.visit_relabel h]
  rfl

theorem argsReading_relabel (f : Ident) (k : Nat) (params : List Ty) {args : List Expr}
    (hargs : ∀ e ∈ args, (e.relabel r).reading env' = (e.reading env).map (Event.relabel r)) :
    argsReading env' (f.relabel r) k params (args.map (Expr.relabel r)) =
      (argsReading env f k params args).map (Event.relabel r) := by
  induction args generalizing k params with
  | nil => simp [argsReading]
  | cons e rest ih =>
      obtain ⟨he, hrest⟩ := List.forall_mem_cons.mp hargs
      cases params with
      | nil => simp
      | cons param params =>
          simp only [List.map_cons, argsReading, he, e.type_relabel h, e.loc_relabel,
            Rule.argument_relabel, ih _ _ hrest, List.map_append, map_relabel_reports]

theorem Expr.reading_relabel (e : Expr) :
    (e.relabel r).reading env' = (e.reading env).map (Event.relabel r) := by
  induction e with
  | lit n v => exact Part.visit_relabel h (.expr (.lit n v))
  | var n x =>
      have hself := Part.visit_relabel h (.expr (.var n x))
      rw [Part.relabel, relabel] at hself
      rw [relabel, reading, reading, x.reading_relabel h, hself, List.map_append]
  | paren n e ih =>
      have hself := Part.visit_relabel h (.expr (.paren n e))
      rw [Part.relabel, relabel] at hself
      rw [relabel, reading, reading, ih, hself, List.map_append]
  | index n x e ih =>
      have hself := Part.visit_relabel h (.expr (.index n x e))
      rw [Part.relabel, relabel] at hself
      have hloc : (n.relabel r).loc = n.loc := rfl
      simp only [relabel, reading, x.reading_relabel h, ih, h.typeOf, e.type_relabel h,
        e.loc_relabel, hloc, hself, List.map_append, map_relabel_reports,
        Rule.map_rename_subscript]
  | call n f args ih =>
      have hself := Part.visit_relabel h (.expr (.call n f args))
      rw [Part.relabel, relabel, relabelExprs_eq_map] at hself
      have hargs :=
        argsReading_relabel h f 1 (Rule.params (env.typeOf f) args.length) ih
      simp only [relabel, relabelExprs_eq_map, reading, f.reading_relabel h, h.typeOf,
        List.length_map, Rule.valueCall_relabel, hargs, hself, List.map_append,
        map_relabel_reports]
  | unary n op e ih =>
      have hself := Part.visit_relabel h (.expr (.unary n op e))
      rw [Part.relabel, relabel] at hself
      have hloc : (n.relabel r).loc = n.loc := rfl
      simp only [relabel, reading, ih, e.type_relabel h, hloc, hself, List.map_append,
        map_relabel_reports, Rule.map_rename_unary]
  | binary n op left right ihleft ihright =>
      have hself := Part.visit_relabel h (.expr (.binary n op left right))
      rw [Part.relabel, relabel] at hself
      have hloc : (n.relabel r).loc = n.loc := rfl
      simp only [relabel, reading, ihleft, ihright, left.type_relabel h, right.type_relabel h, hloc,
        hself, List.map_append, map_relabel_reports, Rule.map_rename_binary]

theorem exprsReading_relabel (es : List Expr) :
    exprsReading env' (es.map (Expr.relabel r)) =
      (exprsReading env es).map (Event.relabel r) := by
  induction es with
  | nil => rfl
  | cons e rest ih =>
      simp only [List.map_cons, exprsReading, e.reading_relabel h, ih, List.map_append]

theorem Target.reading_relabel (t : Target) :
    (t.relabel r).reading env' = (t.reading env).map (Event.relabel r) := by
  have hself := Part.visit_relabel h (.target t)
  rw [Part.relabel] at hself
  unfold reading
  rw [hself]
  obtain ⟨n, x, _ | e⟩ := t
  · simp only [relabel, Option.map_none, x.reading_relabel h, List.map_append, List.map_nil]
  · have hloc : (n.relabel r).loc = n.loc := rfl
    simp only [relabel, Option.map_some, x.reading_relabel h, e.reading_relabel h, h.typeOf,
      e.type_relabel h, e.loc_relabel, hloc, List.map_append, map_relabel_reports,
      Rule.map_rename_subscript]

theorem Target.unaddressable_relabel (t : Target) (complaint : Complaint) (loc : Location) :
    (t.relabel r).unaddressable env' (complaint.rename r.name) loc =
      (t.unaddressable env complaint loc).map (Diagnostic.rename r.name) := by
  have hlvalue : env'.lvalueOf (t.relabel r).ident = env.lvalueOf t.ident := h.lvalueOf t.ident
  rw [unaddressable, unaddressable, t.type_relabel h, hlvalue, Rule.addressable, Rule.addressable,
    map_rename_complainIf]

omit h

mutual
theorem Stmt.reading_relabel (h : env.Renames r.name env') (result : Ty) : ∀ s : Stmt,
    (s.relabel r).reading env' result = (s.reading env result).map (Event.relabel r)
  | .assign loc target value => by
      have hplace := target.unaddressable_relabel h .targetNotAddressable target.loc
      simp only [Complaint.rename] at hplace
      have hloc : (target.relabel r).loc = target.loc := rfl
      simp only [Stmt.relabel, Stmt.reading, target.reading_relabel h, value.reading_relabel h,
        target.type_relabel h, value.type_relabel h, hloc, hplace, List.map_append,
        map_relabel_reports, Rule.map_rename_assignment]
  | .ite loc condition yes none => by
      simp only [Stmt.relabel, Stmt.reading, condition.reading_relabel h,
        condition.type_relabel h, blockReading_relabel h result yes, List.map_append,
        map_relabel_reports, Rule.map_rename_condition, List.map_nil]
  | .ite loc condition yes (some no) => by
      simp only [Stmt.relabel, Stmt.reading, condition.reading_relabel h,
        condition.type_relabel h, blockReading_relabel h result yes,
        blockReading_relabel h result no, List.map_append, map_relabel_reports,
        Rule.map_rename_condition]
  | .loop loc condition body => by
      simp only [Stmt.relabel, Stmt.reading, condition.reading_relabel h,
        condition.type_relabel h, blockReading_relabel h result body, List.map_append,
        map_relabel_reports, Rule.map_rename_condition]
  | .call loc f args => by
      have htypes : (args.map (Expr.relabel r)).map (fun e => (e.type env', e.loc)) =
          args.map fun e => (e.type env, e.loc) := by
        simp [Function.comp_def, Expr.type_relabel h]
      simp only [Stmt.relabel, relabelExprs_eq_map, Stmt.reading, f.reading_relabel h,
        exprsReading_relabel h, h.typeOf, htypes, List.length_map, Rule.call_relabel,
        Rule.arguments_relabel, List.map_append, map_relabel_reports]
  | .read loc target => by
      have hplace := target.unaddressable_relabel h .readNotAddressable loc
      simp only [Complaint.rename] at hplace
      simp only [Stmt.relabel, Stmt.reading, target.reading_relabel h, target.type_relabel h,
        hplace, List.map_append, map_relabel_reports, Rule.map_rename_readable]
  | .write loc value => by
      simp only [Stmt.relabel, Stmt.reading, value.reading_relabel h, value.type_relabel h,
        List.map_append, map_relabel_reports, Rule.map_rename_writable]
  | .print loc text => by simp only [Stmt.relabel, Stmt.reading, List.map_nil]
  | .ret loc none => by
      simp only [Stmt.relabel, Option.map_none, Stmt.reading, map_relabel_reports,
        Rule.map_rename_resultNone]
  | .ret loc (some value) => by
      simp only [Stmt.relabel, Option.map_some, Stmt.reading, value.reading_relabel h,
        value.type_relabel h, List.map_append, map_relabel_reports, Rule.map_rename_resultValue]
theorem blockReading_relabel (h : env.Renames r.name env') (result : Ty) : ∀ ss : List Stmt,
    blockReading env' result (relabelBlock r ss) =
      (blockReading env result ss).map (Event.relabel r)
  | [] => rfl
  | s :: rest => by
      simp only [relabelBlock, blockReading, s.reading_relabel h result,
        blockReading_relabel h result rest, List.map_append]
end

end

section

variable {r : Relabelling} {into into' : Entered}
  (h : ∀ f arity, into' (f.relabel r) arity = into f arity)

theorem reachedExprs_relabel {es : List Expr}
    (hes : ∀ e ∈ es, (e.relabel r).reached into' = (e.reached into).map (Part.relabel r)) :
    reachedExprs into' (es.map (Expr.relabel r)) =
      (reachedExprs into es).map (Part.relabel r) := by
  induction es with
  | nil => rfl
  | cons e rest ih =>
      obtain ⟨he, hrest⟩ := List.forall_mem_cons.mp hes
      rw [List.map_cons, reachedExprs, reachedExprs, he, ih hrest, List.map_append]

include h

theorem Expr.reached_relabel (e : Expr) :
    (e.relabel r).reached into' = (e.reached into).map (Part.relabel r) := by
  induction e with
  | lit n v | var n x => rfl
  | paren n e ih | index n x e ih | unary n op e ih => simp [relabel, reached, ih, Part.relabel]
  | call n f args ih =>
      have hargs := reachedExprs_relabel ih
      rw [relabel, relabelExprs_eq_map, reached, reached, List.length_map, h, hargs]
      cases into f args.length <;> simp [relabel, Part.relabel]
  | binary n op left right ihleft ihright =>
      simp [relabel, reached, ihleft, ihright, Part.relabel]

theorem Target.reached_relabel (t : Target) :
    (t.relabel r).reached into' = (t.reached into).map (Part.relabel r) := by
  obtain ⟨n, x, _ | e⟩ := t
  · rfl
  · simp [relabel, reached, e.reached_relabel h, Part.relabel]

omit h

mutual
theorem Stmt.reached_relabel (h : ∀ f arity, into' (f.relabel r) arity = into f arity) :
    ∀ s : Stmt,
    (s.relabel r).reached into' = (s.reached into).map (Part.relabel r)
  | .assign _ target value => by
      simp [Stmt.relabel, Stmt.reached, target.reached_relabel h, value.reached_relabel h]
  | .ite _ condition yes none => by
      simp [Stmt.relabel, Stmt.reached, condition.reached_relabel h, reachedBlock_relabel h yes]
  | .ite _ condition yes (some no) => by
      simp [Stmt.relabel, Stmt.reached, condition.reached_relabel h, reachedBlock_relabel h yes,
        reachedBlock_relabel h no]
  | .loop _ condition body => by
      simp [Stmt.relabel, Stmt.reached, condition.reached_relabel h, reachedBlock_relabel h body]
  | .call _ f args => by
      have hargs := reachedExprs_relabel fun e (_ : e ∈ args) => e.reached_relabel h
      simp [Stmt.relabel, Stmt.reached, hargs, Part.relabel]
  | .read _ target => by simp [Stmt.relabel, Stmt.reached, target.reached_relabel h]
  | .write _ value | .ret _ (some value) => by
      simp [Stmt.relabel, Stmt.reached, value.reached_relabel h]
  | .print _ _ | .ret _ none => rfl
theorem reachedBlock_relabel (h : ∀ f arity, into' (f.relabel r) arity = into f arity) :
    ∀ ss : List Stmt,
    reachedBlock into' (relabelBlock r ss) = (reachedBlock into ss).map (Part.relabel r)
  | [] => rfl
  | s :: rest => by
      rw [relabelBlock, reachedBlock, reachedBlock, s.reached_relabel h,
        reachedBlock_relabel h rest, List.map_append]
end

end

end Asl
