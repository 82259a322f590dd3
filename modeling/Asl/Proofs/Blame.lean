import Asl.Proofs.Guarantee
import Asl.Proofs.Registry

/-!
# Where blame is laid

Each test that a body is put to stands at a site, which names what is tested. The sites of a body
are listed in the order in which a traversal comes to them, so its complaints are those of its
sites one after the other. Whatever is found at a site lays the blame on a part that is annotated
with a type of its own: a part that is erroneous already is never blamed again, in no program.
-/

namespace Asl

open Entry (repeats)

/-- Something is asked here of parts that have been visited. -/
inductive Site where
  | name (x : Ident)
  | subscript (loc : Location) (base : Ident) (index : Expr)
  | valueCall (callee : Ident) (arity : Nat)
  | call (callee : Ident) (arity : Nat)
  | argument (callee : Ident) (position : Nat) (param : Ty) (arg : Expr)
  | unary (node : Node) (op : UnaryOp) (operand : Expr)
  | binary (node : Node) (op : BinaryOp) (left right : Expr)
  | assignment (loc : Location) (target : Target) (value : Expr)
  | assigned (target : Target)
  | condition (instruction : String) (loc : Location) (condition : Expr)
  | readable (loc : Location) (target : Target)
  | stored (loc : Location) (target : Target)
  | writable (loc : Location) (value : Expr)
  | result (loc : Location) (value : Option Expr)

/-- What a site asks about. -/
def Site.operands : Site → List Part
  | name _ => []
  | subscript _ x e => [.name .plain x, .expr e]
  | valueCall f _ | call f _ => [.name .called f]
  | argument _ _ _ e | unary _ _ e | condition _ _ e | writable _ e => [.expr e]
  | binary _ _ l r => [.expr l, .expr r]
  | assignment _ t e => [.target t, .expr e]
  | assigned t | readable _ t | stored _ t => [.target t]
  | result _ none => []
  | result _ (some e) => [.expr e]

/-- What the rules find at a site, where a result of some type is declared. -/
def Site.found (env : Env) (declared : Ty) : Site → List Diagnostic
  | name x => Rule.name x (env x.name)
  | subscript loc x e => Rule.subscript (env.typeOf x) (e.type env) loc e.loc
  | valueCall f arity => Rule.valueCall f (env.typeOf f) arity
  | call f arity => Rule.call f (env.typeOf f) arity
  | argument f k param e => Rule.argument f k param (e.type env) e.loc
  | unary n op e => (Rule.unary op (e.type env) n.loc).found
  | binary n op l r => (Rule.binary op (l.type env) (r.type env) n.loc).found
  | assignment loc t e => Rule.assignment (t.type env) (e.type env) loc
  | assigned t => t.unaddressable env .targetNotAddressable t.loc
  | condition instruction loc e => Rule.condition instruction (e.type env) loc
  | readable loc t => Rule.readable (t.type env) loc
  | stored loc t => t.unaddressable env .readNotAddressable loc
  | writable loc e => Rule.writable (e.type env) loc
  | result loc none => Rule.resultNone declared loc
  | result loc (some e) => Rule.resultValue declared (e.type env) loc

mutual
def Expr.sites (env : Env) : Expr → List Site
  | .lit _ _ => []
  | .var _ x => [.name x]
  | .paren _ e => e.sites env
  | .index n x e => .name x :: e.sites env ++ [.subscript n.loc x e]
  | .call _ f args =>
      .name f :: .valueCall f args.length ::
        argsSites env f 1 (Rule.params (env.typeOf f) args.length) args
  | .unary n op e => e.sites env ++ [.unary n op e]
  | .binary n op l r => l.sites env ++ r.sites env ++ [.binary n op l r]
def argsSites (env : Env) (f : Ident) : Nat → List Ty → List Expr → List Site
  | k, param :: params, e :: rest =>
      e.sites env ++ .argument f k param e :: argsSites env f (k + 1) params rest
  | _, _, _ => []
end

def Target.sites (env : Env) (t : Target) : List Site :=
  .name t.ident :: t.subscript.elim [] fun e => e.sites env ++ [.subscript t.loc t.ident e]

/-- The arguments of a call by itself are held against their parameters at the end. -/
def argumentSites (f : Ident) : Nat → List Ty → List Expr → List Site
  | k, param :: params, e :: rest => .argument f k param e :: argumentSites f (k + 1) params rest
  | _, _, _ => []

mutual
def Stmt.sites (env : Env) : Stmt → List Site
  | .assign loc target value =>
      target.sites env ++ value.sites env ++ [.assignment loc target value, .assigned target]
  | .ite loc condition yes no =>
      condition.sites env ++ .condition "if" loc condition :: blockSites env yes ++
        match no with
        | none => []
        | some no => blockSites env no
  | .loop loc condition body =>
      condition.sites env ++ .condition "while" loc condition :: blockSites env body
  | .call _ f args =>
      .name f :: args.flatMap (Expr.sites env) ++ .call f args.length ::
        argumentSites f 1 (Rule.params (env.typeOf f) args.length) args
  | .read loc target => target.sites env ++ [.readable loc target, .stored loc target]
  | .write loc value => value.sites env ++ [.writable loc value]
  | .print _ _ => []
  | .ret loc none => [.result loc none]
  | .ret loc (some value) => value.sites env ++ [.result loc (some value)]
def blockSites (env : Env) : List Stmt → List Site
  | [] => []
  | s :: rest => s.sites env ++ blockSites env rest
end

def Function.sites (p : Program) (f : Function) : List Site := blockSites (p.env f) f.body

section

variable {env : Env}

mutual
theorem Expr.found_reading_eq_sites (declared : Ty) : ∀ e : Expr,
    (e.reading env).found = (e.sites env).flatMap (Site.found env declared)
  | .lit _ _ => rfl
  | .var _ x => by simp [Expr.reading, Expr.sites, Ident.reading, Site.found]
  | .paren _ e => by simp [Expr.reading, Expr.sites, e.found_reading_eq_sites declared]
  | .index _ x e => by
      simp [Expr.reading, Expr.sites, Ident.reading, Site.found, e.found_reading_eq_sites declared]
  | .call _ f args => by
      simp [Expr.reading, Expr.sites, Ident.reading, Site.found,
        found_argsReading_eq_sites declared f 1 (Rule.params (env.typeOf f) args.length) args]
  | .unary _ op e => by
      simp [Expr.reading, Expr.sites, Site.found, e.found_reading_eq_sites declared]
  | .binary _ op l r => by
      simp [Expr.reading, Expr.sites, Site.found, l.found_reading_eq_sites declared,
        r.found_reading_eq_sites declared]
theorem found_argsReading_eq_sites (declared : Ty) (f : Ident) :
    ∀ (k : Nat) (params : List Ty) (args : List Expr),
      (argsReading env f k params args).found =
        (argsSites env f k params args).flatMap (Site.found env declared)
  | _, [], _ => by simp [argsSites]
  | _, _ :: _, [] => by simp [argsReading, argsSites]
  | k, param :: params, e :: rest => by
      simp [argsReading, argsSites, Site.found, e.found_reading_eq_sites declared,
        found_argsReading_eq_sites declared f (k + 1) params rest]
end

theorem found_exprsReading_eq_sites (declared : Ty) (es : List Expr) :
    (exprsReading env es).found =
      (es.flatMap (Expr.sites env)).flatMap (Site.found env declared) := by
  induction es with
  | nil => rfl
  | cons e rest ih => simp [exprsReading, e.found_reading_eq_sites declared, ih]

theorem Target.found_reading_eq_sites (declared : Ty) (t : Target) :
    (t.reading env).found = (t.sites env).flatMap (Site.found env declared) := by
  obtain ⟨n, x, _ | e⟩ := t
  · simp [reading, sites, Ident.reading, Site.found]
  · simp [reading, sites, Ident.reading, Site.found, e.found_reading_eq_sites declared]

theorem arguments_eq_sites (declared : Ty) (f : Ident) (k : Nat) (params : List Ty)
    (args : List Expr) :
    Rule.arguments f k params (args.map fun e => (e.type env, e.loc)) =
      (argumentSites f k params args).flatMap (Site.found env declared) := by
  induction params generalizing k args with
  | nil => simp [Rule.arguments, argumentSites]
  | cons param params ih =>
      cases args with
      | nil => simp [Rule.arguments, argumentSites]
      | cons e rest => simp [Rule.arguments, argumentSites, Site.found, ih]

mutual
theorem Stmt.found_reading_eq_sites (declared : Ty) : ∀ s : Stmt,
    (s.reading env declared).found = (s.sites env).flatMap (Site.found env declared)
  | .assign _ target value => by
      simp [Stmt.reading, Stmt.sites, Site.found, target.found_reading_eq_sites declared,
        value.found_reading_eq_sites declared]
  | .ite _ condition yes none => by
      simp [Stmt.reading, Stmt.sites, Site.found, condition.found_reading_eq_sites declared,
        found_blockReading_eq_sites declared yes]
  | .ite _ condition yes (some no) => by
      simp [Stmt.reading, Stmt.sites, Site.found, condition.found_reading_eq_sites declared,
        found_blockReading_eq_sites declared yes, found_blockReading_eq_sites declared no]
  | .loop _ condition body => by
      simp [Stmt.reading, Stmt.sites, Site.found, condition.found_reading_eq_sites declared,
        found_blockReading_eq_sites declared body]
  | .call _ f args => by
      simp [Stmt.reading, Stmt.sites, Ident.reading, Site.found, arguments_eq_sites declared,
        found_exprsReading_eq_sites declared]
  | .read _ target => by
      simp [Stmt.reading, Stmt.sites, Site.found, target.found_reading_eq_sites declared]
  | .write _ value => by
      simp [Stmt.reading, Stmt.sites, Site.found, value.found_reading_eq_sites declared]
  | .print _ _ => rfl
  | .ret _ none => by simp [Stmt.reading, Stmt.sites, Site.found]
  | .ret _ (some value) => by
      simp [Stmt.reading, Stmt.sites, Site.found, value.found_reading_eq_sites declared]
theorem found_blockReading_eq_sites (declared : Ty) : ∀ ss : List Stmt,
    (blockReading env declared ss).found = (blockSites env ss).flatMap (Site.found env declared)
  | [] => rfl
  | s :: rest => by
      simp [blockReading, blockSites, s.found_reading_eq_sites declared,
        found_blockReading_eq_sites declared rest]
end

end

/-- The sites ask about parts of a list and no others. -/
def AskedAmong (sites : List Site) (parts : List Part) : Prop :=
  ∀ site ∈ sites, site.operands ⊆ parts

namespace AskedAmong

variable {sites rest : List Site} {site : Site} {parts others : List Part}

theorem nil (parts : List Part) : AskedAmong [] parts := by
  intro site hsite
  cases hsite

theorem cons (hsite : site.operands ⊆ parts) (h : AskedAmong rest parts) :
    AskedAmong (site :: rest) parts :=
  List.forall_mem_cons.mpr ⟨hsite, h⟩

theorem also (h : AskedAmong sites parts) (hrest : AskedAmong rest parts) :
    AskedAmong (sites ++ rest) parts :=
  List.forall_mem_append.mpr ⟨h, hrest⟩

theorem mono (h : AskedAmong sites parts) (hparts : parts ⊆ others) :
    AskedAmong sites others := by
  intro site hsite part hpart
  apply hparts
  exact h site hsite hpart

theorem visiting (h : AskedAmong sites parts) (others : List Part) :
    AskedAmong sites (parts ++ others) :=
  h.mono (List.subset_append_left _ _)

theorem append (h : AskedAmong sites parts) (hrest : AskedAmong rest others) :
    AskedAmong (sites ++ rest) (parts ++ others) :=
  (h.visiting others).also (hrest.mono (List.subset_append_right _ _))

/-- A site that asks about what has been visited so far. -/
theorem before (h : AskedAmong sites parts) (hsite : site.operands ⊆ parts)
    (hrest : AskedAmong rest others) : AskedAmong (sites ++ site :: rest) (parts ++ others) := by
  rw [List.append_cons]
  exact (h.also (.cons hsite (.nil _))).append hrest

theorem name (x : Ident) (part : Part) (h : AskedAmong rest parts) :
    AskedAmong (.name x :: rest) (part :: parts) :=
  .cons (List.nil_subset _) (h.mono (List.subset_cons_self _ _))

end AskedAmong

section

variable (env : Env)

mutual
theorem Expr.askedAmong : ∀ e : Expr, AskedAmong (e.sites env) (e.reached env.takes)
  | .lit _ _ => .nil _
  | .var n x => .name x _ (.nil [.expr (.var n x)])
  | .paren _ e => e.askedAmong.visiting _
  | .index _ x e => by
      have hself := e.mem_reached env.takes
      have hparts : AskedAmong (.name x :: e.sites env) (.name .plain x :: e.reached env.takes) :=
        .name x _ e.askedAmong
      exact (hparts.also (.cons (by simp [Site.operands, hself]) (.nil _))).visiting _
  | .call n f args => by
      have hargs := askedAmong_argsSites f 1 (Rule.params (env.typeOf f) args.length) args
      refine .visiting (.cons (List.nil_subset _) (.cons (by simp [Site.operands]) ?_)) _
      cases htakes : env.takes f args.length with
      | true => exact hargs.mono (List.subset_cons_self _ _)
      | false =>
          have hnone : argsSites env f 1 [] args = [] := by simp [argsSites]
          rw [Rule.params_eq_nil_of_not_takes htakes, hnone]
          exact .nil _
  | .unary _ _ e => by
      have hself := e.mem_reached env.takes
      exact (e.askedAmong.also (.cons (by simp [Site.operands, hself]) (.nil _))).visiting _
  | .binary _ _ l r => by
      have hl := l.mem_reached env.takes
      have hr := r.mem_reached env.takes
      have hparts := l.askedAmong.append r.askedAmong
      exact (hparts.also (.cons (by simp [Site.operands, hl, hr]) (.nil _))).visiting _
theorem askedAmong_argsSites (f : Ident) : ∀ (k : Nat) (params : List Ty) (args : List Expr),
    AskedAmong (argsSites env f k params args) (reachedExprs env.takes args)
  | _, [], _ => by
      simp only [argsSites]
      exact .nil _
  | _, _ :: _, [] => by
      simp only [argsSites]
      exact .nil _
  | k, param :: params, e :: rest => by
      have hself := e.mem_reached env.takes
      have hrest := askedAmong_argsSites f (k + 1) params rest
      rw [argsSites]
      exact e.askedAmong.before (by simp [Site.operands, hself]) hrest
end

theorem askedAmong_exprs (es : List Expr) :
    AskedAmong (es.flatMap (Expr.sites env)) (reachedExprs env.takes es) := by
  induction es with
  | nil => exact .nil _
  | cons e rest ih => exact (e.askedAmong env).append ih

theorem askedAmong_argumentSites (f : Ident) (k : Nat) (params : List Ty) (args : List Expr) :
    AskedAmong (argumentSites f k params args) (reachedExprs env.takes args) := by
  induction params generalizing k args with
  | nil =>
      simp only [argumentSites]
      exact .nil _
  | cons param params ih =>
      cases args with
      | nil =>
          simp only [argumentSites]
          exact .nil _
      | cons e rest =>
          have hself := e.mem_reached env.takes
          refine .cons ?_ ((ih (k + 1) rest).mono (List.subset_append_right _ _))
          simp [Site.operands, reachedExprs, hself]

theorem Target.askedAmong (t : Target) : AskedAmong (t.sites env) (t.reached env.takes) := by
  obtain ⟨n, x, _ | e⟩ := t
  · exact .name x _ (.nil _)
  · have hself := e.mem_reached env.takes
    have hparts : AskedAmong (.name x :: e.sites env) (.name .plain x :: e.reached env.takes) :=
      .name x _ (e.askedAmong env)
    exact (hparts.also (.cons (by simp [Site.operands, hself]) (.nil _))).visiting _

mutual
theorem Stmt.askedAmong : ∀ s : Stmt, AskedAmong (s.sites env) (s.reached env.takes)
  | .assign _ target value => by
      have htarget := target.mem_reached env.takes
      have hvalue := value.mem_reached env.takes
      have hparts := (target.askedAmong env).append (value.askedAmong env)
      refine hparts.also (.cons ?_ (.cons ?_ (.nil _)))
      · simp [Site.operands, htarget, hvalue]
      · simp [Site.operands, htarget]
  | .ite _ condition yes none => by
      have hself := condition.mem_reached env.takes
      have hyes := askedAmong_blockSites yes
      refine ((condition.askedAmong env).before ?_ hyes).append (.nil [])
      simp [Site.operands, hself]
  | .ite _ condition yes (some no) => by
      have hself := condition.mem_reached env.takes
      have hyes := askedAmong_blockSites yes
      refine ((condition.askedAmong env).before ?_ hyes).append (askedAmong_blockSites no)
      simp [Site.operands, hself]
  | .loop _ condition body => by
      have hself := condition.mem_reached env.takes
      have hbody := askedAmong_blockSites body
      exact (condition.askedAmong env).before (by simp [Site.operands, hself]) hbody
  | .call _ f args => by
      have hargs := askedAmong_argumentSites env f 1 (Rule.params (env.typeOf f) args.length) args
      have hcall := hargs.mono (List.subset_cons_self (.name .called f) _)
      have hparts : AskedAmong (.name f :: args.flatMap (Expr.sites env))
          (.name .called f :: reachedExprs env.takes args) := .name f _ (askedAmong_exprs env args)
      exact hparts.also (.cons (by simp [Site.operands]) hcall)
  | .read _ target => by
      have hself := target.mem_reached env.takes
      refine (target.askedAmong env).also (.cons ?_ (.cons ?_ (.nil _)))
      · simp [Site.operands, hself]
      · simp [Site.operands, hself]
  | .write _ value | .ret _ (some value) => by
      have hself := value.mem_reached env.takes
      exact (value.askedAmong env).also (.cons (by simp [Site.operands, hself]) (.nil _))
  | .print _ _ => .nil _
  | .ret _ none => .cons (List.nil_subset _) (.nil _)
theorem askedAmong_blockSites :
    ∀ ss : List Stmt, AskedAmong (blockSites env ss) (reachedBlock env.takes ss)
  | [] => .nil _
  | s :: rest => s.askedAmong.append (askedAmong_blockSites rest)
end

end

theorem Function.askedAmong_sites (p : Program) (f : Function) :
    AskedAmong (f.sites p) (reachedBlock (p.callable f) f.body) := by
  rw [← p.takes_env]
  exact askedAmong_blockSites (p.env f) f.body

/-- A node is annotated with a type of its own that does not meet a demand. -/
def Annotations.Fails (a : Annotations) (node : NodeId) (demand : Ty → Bool) : Prop :=
  ∃ τ, a.type? node = some τ ∧ τ ≠ .error ∧ demand τ = false

/-- What an operand of a unary operator has to be. -/
def UnaryOp.takes : UnaryOp → Ty → Bool
  | .not => Ty.isBool
  | .plus | .minus => Ty.isNumeric

/-- What may be complained of at a site under some annotations. -/
inductive Site.Blames (a : Annotations) (declared : Ty) : Site → Complaint → Prop where
  | undeclared {x : Ident} : Blames a declared (.name x) (.undeclared x.name)
  | notArray {loc : Location} {x : Ident} {e : Expr} :
      a.Fails x.id Ty.isArray → Blames a declared (.subscript loc x e) .notArray
  | subscriptNotInt {loc : Location} {x : Ident} {e : Expr} :
      a.Fails e.node.id Ty.isInt → Blames a declared (.subscript loc x e) .subscriptNotInt
  | noValue {f : Ident} {arity : Nat} {params : List Ty} :
      a.type? f.id = some (.func params .void) →
        Blames a declared (.valueCall f arity) (.noValue f.name)
  | notCallableForValue {f : Ident} {arity : Nat} :
      a.Fails f.id Ty.isFunction → Blames a declared (.valueCall f arity) (.notCallable f.name)
  | notCallable {f : Ident} {arity : Nat} :
      a.Fails f.id Ty.isFunction → Blames a declared (.call f arity) (.notCallable f.name)
  | argumentCountForValue {f : Ident} {arity : Nat} {params : List Ty} {result : Ty} :
      a.type? f.id = some (.func params result) → params.length ≠ arity →
        Blames a declared (.valueCall f arity) (.argumentCount f.name params.length arity)
  | argumentCount {f : Ident} {arity : Nat} {params : List Ty} {result : Ty} :
      a.type? f.id = some (.func params result) → params.length ≠ arity →
        Blames a declared (.call f arity) (.argumentCount f.name params.length arity)
  | argumentType {f : Ident} {k : Nat} {param : Ty} {e : Expr} :
      a.Fails e.node.id param.admits →
        Blames a declared (.argument f k param e) (.argumentType f.name k)
  | unary {n : Node} {op : UnaryOp} {e : Expr} :
      a.Fails e.node.id op.takes → Blames a declared (.unary n op e) (.operandType op.text)
  | arith {n : Node} {op : ArithOp} {l r : Expr} :
      a.Fails l.node.id (Rule.operandOf op) ∨ a.Fails r.node.id (Rule.operandOf op) →
        Blames a declared (.binary n (.arith op) l r) (.operandType op.text)
  | logic {n : Node} {op : LogicOp} {l r : Expr} :
      a.Fails l.node.id Ty.isBool ∨ a.Fails r.node.id Ty.isBool →
        Blames a declared (.binary n (.logic op) l r) (.operandType op.text)
  | rel {n : Node} {op : RelOp} {l r : Expr} {σ τ : Ty} :
      a.type? l.node.id = some σ → σ ≠ .error → a.type? r.node.id = some τ → τ ≠ .error →
        Ty.comparable op σ τ = false →
          Blames a declared (.binary n (.rel op) l r) (.operandType op.text)
  | assignment {loc : Location} {t : Target} {e : Expr} {σ τ : Ty} :
      a.type? t.id = some σ → σ ≠ .error → a.type? e.node.id = some τ → τ ≠ .error →
        σ.admits τ = false → Blames a declared (.assignment loc t e) (.assignment σ τ)
  | targetNotAddressable {t : Target} :
      a.Fails t.id (fun _ => false) → a.lvalue? t.id = some false →
        Blames a declared (.assigned t) .targetNotAddressable
  | readNotAddressable {loc : Location} {t : Target} :
      a.Fails t.id (fun _ => false) → a.lvalue? t.id = some false →
        Blames a declared (.stored loc t) .readNotAddressable
  | conditionNotBool {instruction : String} {loc : Location} {e : Expr} :
      a.Fails e.node.id Ty.isBool →
        Blames a declared (.condition instruction loc e) (.conditionNotBool instruction)
  | notReadable {loc : Location} {t : Target} :
      a.Fails t.id (fun τ => τ.isPrimitive || τ.isFunction) →
        Blames a declared (.readable loc t) (.notPrimitive "read")
  | notWritable {loc : Location} {e : Expr} :
      a.Fails e.node.id Ty.isPrimitive → Blames a declared (.writable loc e) (.notPrimitive "write")
  | result {loc : Location} {e : Expr} {τ : Ty} :
      a.type? e.node.id = some τ → declared = .void ∨ τ ≠ .error ∧ declared.admits τ = false →
        Blames a declared (.result loc (some e)) (.result declared τ)
  | noResult {loc : Location} :
      declared ≠ .void → Blames a declared (.result loc none) (.result declared .void)

theorem mem_complainIf_iff {wrong : Bool} {complaint : Complaint} {loc : Location}
    {d : Diagnostic} :
    d ∈ complainIf wrong complaint loc ↔ wrong = true ∧ d = ⟨complaint, loc⟩ := by
  cases wrong <;> simp [complainIf]

theorem Ty.isVoid_eq_true_iff {t : Ty} : t.isVoid = true ↔ t = .void := by
  cases t <;> simp [isVoid]

namespace Rule

variable {d : Diagnostic} {f : Ident} {σ τ : Ty} {loc : Location}

theorem of_mem_call {arity : Nat} (h : d ∈ call f τ arity) :
    τ.fails Ty.isFunction = true ∧ d.complaint = .notCallable f.name ∨
      ∃ params result, τ = .func params result ∧ params.length ≠ arity ∧
        d.complaint = .argumentCount f.name params.length arity := by
  cases τ with
  | error => cases h
  | func params result =>
      obtain ⟨hlength, rfl⟩ := mem_complainIf_iff.mp h
      exact .inr ⟨params, result, rfl, by simpa using hlength, rfl⟩
  | _ =>
      obtain rfl := List.mem_singleton.mp h
      exact .inl ⟨rfl, rfl⟩

theorem of_mem_valueCall {arity : Nat} (h : d ∈ valueCall f τ arity) :
    (∃ params, τ = .func params .void) ∧ d.complaint = .noValue f.name ∨ d ∈ call f τ arity := by
  refine (List.mem_append.mp h).imp_left fun h => ?_
  obtain ⟨hprocedure, rfl⟩ := mem_complainIf_iff.mp h
  refine ⟨?_, rfl⟩
  cases τ with
  | func params result =>
      obtain rfl := Ty.isVoid_eq_true_iff.mp hprocedure
      exact ⟨params, rfl⟩
  | _ => cases hprocedure

theorem of_mem_unary {op : UnaryOp} (h : d ∈ (unary op τ loc).found) :
    τ.fails op.takes = true ∧ d.complaint = .operandType op.text := by
  cases op with
  | not =>
      obtain ⟨hfail, rfl⟩ := mem_complainIf_iff.mp h
      exact ⟨hfail, rfl⟩
  | plus | minus =>
      simp only [unary] at h
      split at h
      · next hfail =>
          obtain rfl := List.mem_singleton.mp h
          exact ⟨hfail, rfl⟩
      · cases h

theorem of_mem_arith {op : ArithOp} (h : d ∈ (arith op σ τ loc).found) :
    (σ.fails (operandOf op) = true ∨ τ.fails (operandOf op) = true) ∧
      d.complaint = .operandType op.text := by
  unfold arith at h
  split at h
  · next hfail =>
      obtain rfl := List.mem_singleton.mp h
      exact ⟨(Bool.or_eq_true _ _).mp hfail, rfl⟩
  · split at h
    · cases h
    · split at h <;> cases h

theorem of_mem_rel {op : RelOp} (h : d ∈ (rel op σ τ loc).found) :
    σ ≠ .error ∧ τ ≠ .error ∧ Ty.comparable op σ τ = false ∧
      d.complaint = .operandType op.text := by
  obtain ⟨hwrong, rfl⟩ := mem_complainIf_iff.mp h
  obtain ⟨hσ, hfail⟩ := (Bool.and_eq_true _ _).mp hwrong
  obtain ⟨hτ, hcomparable⟩ := Ty.fails_eq_true_iff.mp hfail
  refine ⟨?_, hτ, hcomparable, rfl⟩
  rintro rfl
  cases hσ

theorem of_mem_logic {op : LogicOp} (h : d ∈ (logic op σ τ loc).found) :
    (σ.fails Ty.isBool = true ∨ τ.fails Ty.isBool = true) ∧
      d.complaint = .operandType op.text := by
  obtain ⟨hfail, rfl⟩ := mem_complainIf_iff.mp h
  exact ⟨(Bool.or_eq_true _ _).mp hfail, rfl⟩

theorem of_mem_assignment (h : d ∈ assignment σ τ loc) :
    σ ≠ .error ∧ τ ≠ .error ∧ σ.admits τ = false ∧ d.complaint = .assignment σ τ := by
  obtain ⟨hwrong, rfl⟩ := mem_complainIf_iff.mp h
  obtain ⟨hσ, hfail⟩ := (Bool.and_eq_true _ _).mp hwrong
  obtain ⟨hτ, hadmits⟩ := Ty.fails_eq_true_iff.mp hfail
  refine ⟨?_, hτ, hadmits, rfl⟩
  rintro rfl
  cases hσ

theorem of_mem_resultValue (h : d ∈ resultValue σ τ loc) :
    (σ = .void ∨ τ ≠ .error ∧ σ.admits τ = false) ∧ d.complaint = .result σ τ := by
  obtain ⟨hwrong, rfl⟩ := mem_complainIf_iff.mp h
  rw [Bool.or_eq_true, Ty.isVoid_eq_true_iff, Ty.fails_eq_true_iff] at hwrong
  exact ⟨hwrong, rfl⟩

end Rule

/-- Among parts that are annotated as they are read, each finding has someone to blame. -/
theorem Site.blames_of_found {env : Env} {declared : Ty} {a : Annotations} {site : Site}
    (h : ∀ part ∈ site.operands, part.Recorded a env) {d : Diagnostic}
    (hd : d ∈ site.found env declared) : site.Blames a declared d.complaint := by
  have hfails (part : Part) (hpart : part ∈ site.operands) ⦃demand : Ty → Bool⦄
      (hfail : (part.type env).fails demand = true) : a.Fails part.id demand := by
    obtain ⟨hne, hdemand⟩ := Ty.fails_eq_true_iff.mp hfail
    exact ⟨_, (h part hpart).1, hne, hdemand⟩
  have hstored (t : Target) (hpart : .target t ∈ site.operands)
      (hfail : (t.type env).fails (fun _ => env.lvalueOf t.ident) = true) :
      a.Fails t.id (fun _ => false) ∧ a.lvalue? t.id = some false := by
    obtain ⟨hne, hlvalue⟩ := Ty.fails_eq_true_iff.mp hfail
    obtain ⟨htype, hplace⟩ := h _ hpart
    exact ⟨⟨_, htype, hne, rfl⟩, hplace.trans (congrArg some hlvalue)⟩
  cases site with
  | name x =>
      obtain ⟨-, rfl⟩ := mem_complainIf_iff.mp hd
      exact .undeclared
  | subscript loc x e =>
      rcases List.mem_append.mp hd with hd | hd
      · obtain ⟨hfail, rfl⟩ := mem_complainIf_iff.mp hd
        exact .notArray (hfails (.name .plain x) (by simp [operands]) hfail)
      · obtain ⟨hfail, rfl⟩ := mem_complainIf_iff.mp hd
        exact .subscriptNotInt (hfails (.expr e) (by simp [operands]) hfail)
  | valueCall f arity =>
      obtain ⟨htype, -⟩ := h (.name .called f) (by simp [operands])
      obtain ⟨⟨params, hf⟩, hd⟩ | hd := Rule.of_mem_valueCall hd
      · rw [hd]
        exact .noValue (htype.trans (congrArg some hf))
      · obtain ⟨hfail, hd⟩ | ⟨params, result, hf, harity, hd⟩ := Rule.of_mem_call hd
        · rw [hd]
          exact .notCallableForValue (hfails (.name .called f) (by simp [operands]) hfail)
        · rw [hd]
          exact .argumentCountForValue (htype.trans (congrArg some hf)) harity
  | call f arity =>
      obtain ⟨htype, -⟩ := h (.name .called f) (by simp [operands])
      obtain ⟨hfail, hd⟩ | ⟨params, result, hf, harity, hd⟩ := Rule.of_mem_call hd
      · rw [hd]
        exact .notCallable (hfails (.name .called f) (by simp [operands]) hfail)
      · rw [hd]
        exact .argumentCount (htype.trans (congrArg some hf)) harity
  | argument f k param e =>
      obtain ⟨hfail, rfl⟩ := mem_complainIf_iff.mp hd
      exact .argumentType (hfails (.expr e) (by simp [operands]) hfail)
  | unary n op e =>
      obtain ⟨hfail, hd⟩ := Rule.of_mem_unary hd
      rw [hd]
      exact .unary (hfails (.expr e) (by simp [operands]) hfail)
  | binary n op l r =>
      have hleft := hfails (.expr l) (by simp [operands])
      have hright := hfails (.expr r) (by simp [operands])
      cases op with
      | arith op =>
          obtain ⟨hfail, hd⟩ := Rule.of_mem_arith hd
          rw [hd]
          exact .arith (hfail.imp (@hleft _) (@hright _))
      | rel op =>
          obtain ⟨hl, hr, hcomparable, hd⟩ := Rule.of_mem_rel hd
          rw [hd]
          exact .rel (h (.expr l) (by simp [operands])).1 hl (h (.expr r) (by simp [operands])).1 hr
            hcomparable
      | logic op =>
          obtain ⟨hfail, hd⟩ := Rule.of_mem_logic hd
          rw [hd]
          exact .logic (hfail.imp (@hleft _) (@hright _))
  | assignment loc t e =>
      obtain ⟨ht, he, hadmits, hd⟩ := Rule.of_mem_assignment hd
      rw [hd]
      exact .assignment (h (.target t) (by simp [operands])).1 ht
        (h (.expr e) (by simp [operands])).1 he hadmits
  | assigned t =>
      obtain ⟨hfail, rfl⟩ := mem_complainIf_iff.mp hd
      obtain ⟨htype, hplace⟩ := hstored t (by simp [operands]) hfail
      exact .targetNotAddressable htype hplace
  | condition instruction loc e =>
      obtain ⟨hfail, rfl⟩ := mem_complainIf_iff.mp hd
      exact .conditionNotBool (hfails (.expr e) (by simp [operands]) hfail)
  | readable loc t =>
      obtain ⟨hfail, rfl⟩ := mem_complainIf_iff.mp hd
      exact .notReadable (hfails (.target t) (by simp [operands]) hfail)
  | stored loc t =>
      obtain ⟨hfail, rfl⟩ := mem_complainIf_iff.mp hd
      obtain ⟨htype, hplace⟩ := hstored t (by simp [operands]) hfail
      exact .readNotAddressable htype hplace
  | writable loc e =>
      obtain ⟨hfail, rfl⟩ := mem_complainIf_iff.mp hd
      exact .notWritable (hfails (.expr e) (by simp [operands]) hfail)
  | result loc value =>
      cases value with
      | none =>
          obtain ⟨hvoid, rfl⟩ := mem_complainIf_iff.mp hd
          refine .noResult ?_
          rintro rfl
          cases hvoid
      | some e =>
          obtain ⟨hwrong, hd⟩ := Rule.of_mem_resultValue hd
          rw [hd]
          exact .result (h (.expr e) (by simp [operands])).1 hwrong

/-- The erroneous type is not named, but for what a procedure returns. -/
def Complaint.NamesNoError : Complaint → Prop
  | .assignment expected found => expected ≠ .error ∧ found ≠ .error
  | .result expected found => expected ≠ .error ∧ (found = .error → expected = .void)
  | _ => True

theorem Site.Blames.namesNoError {a : Annotations} {declared : Ty} {site : Site}
    {complaint : Complaint} (h : site.Blames a declared complaint) (hdeclared : declared ≠ .error) :
    complaint.NamesNoError := by
  cases h with
  | assignment _ ht _ he _ => exact ⟨ht, he⟩
  | result _ hwrong => exact ⟨hdeclared, fun hτ => hwrong.resolve_right fun hne => hne.1 hτ⟩
  | noResult _ => exact ⟨hdeclared, fun h => nomatch h⟩
  | _ => trivial

/-- Whatever a run finds at a site of a body is blamed on parts as it annotates them. -/
theorem Program.Outcome.blames {p : Program} {c : Config} {t : Tables} (h : p.Outcome c t)
    {f : Function} (hf : f ∈ p.functions) {site : Site} (hsite : site ∈ f.sites p) {d : Diagnostic}
    (hd : d ∈ site.found (p.env f) f.resultType) :
    site.Blames t.annotations f.resultType d.complaint := by
  refine Site.blames_of_found (fun part hpart => h.visited hf ?_) hd
  exact f.askedAmong_sites p site hsite hpart

/-! ## Runs -/

theorem Function.resultType_ne_error (f : Function) : f.resultType ≠ .error := by
  unfold resultType
  cases f.result with
  | none => exact fun h => nomatch h
  | some τ => exact (Written.value τ).type_ne_error

/-- As long as no node comes twice, a run complains of what is declared again, of what is found at
the sites of each body, and of the entry point. What is found at a site is blamed on parts whose
annotations are not erroneous. -/
theorem errors_are_never_blamed (p : Program) (c : Config) (hscopes : p.scopeIds.Nodup)
    (hparts : p.partIds.Nodup) :
    ∃ t, analyse p c = .ok t ∧
      t.diagnostics.toList = (repeats p.entries).map Entry.complaint ++
        (p.functions.flatMap fun f => (f.sites p).flatMap (Site.found (p.env f) f.resultType)) ++
          p.entryReports c ∧
      (∀ f ∈ p.functions, ∀ site ∈ f.sites p, ∀ d ∈ site.found (p.env f) f.resultType,
        site.Blames t.annotations f.resultType d.complaint) ∧
      ∀ d ∈ t.diagnostics.toList, d.complaint.NamesNoError := by
  obtain ⟨t, ht, houtcome⟩ := Program.exists_outcome c hscopes hparts
  have hsites (f : Function) : (f.reading p).found =
      (f.sites p).flatMap (Site.found (p.env f) f.resultType) :=
    found_blockReading_eq_sites f.resultType f.body
  have hfound := houtcome.found.trans (p.found_reading c 0)
  simp only [hsites, p.redeclared_eq] at hfound
  have hblames : ∀ f ∈ p.functions, ∀ site ∈ f.sites p, ∀ d ∈ site.found (p.env f) f.resultType,
      site.Blames t.annotations f.resultType d.complaint :=
    fun f hf site hsite d hd => houtcome.blames hf hsite hd
  refine ⟨t, ht, hfound, hblames, fun d hd => ?_⟩
  rw [hfound, List.mem_append, List.mem_append] at hd
  obtain (hd | hd) | hd := hd
  · obtain ⟨e, -, rfl⟩ := List.mem_map.mp hd
    trivial
  · obtain ⟨f, hf, hd⟩ := List.mem_flatMap.mp hd
    obtain ⟨site, hsite, hd⟩ := List.mem_flatMap.mp hd
    exact (hblames f hf site hsite d hd).namesNoError f.resultType_ne_error
  · obtain ⟨-, rfl⟩ := mem_complainIf_iff.mp hd
    trivial

/-- An unknown name is added to a truth value, and is returned from a procedure. -/
def muddled : Program :=
  let build : Build Program := do
    let sum ← Build.binary (.arith .add) (← Build.var "x") (← Build.lit (.bool true))
    let first ← Build.write sum
    Build.moveTo 2 1
    let second ← Build.ret (some (← Build.var "x"))
    let start ← Build.function "main" [] none [] [first, second]
    Build.program [start]
  (build.run {}).1

theorem muddled_blames_no_error :
    ∃ t, analyse muddled {} = .ok t ∧
      t.diagnostics.toList =
        [⟨.undeclared "x", ⟨1, 1, none⟩⟩, ⟨.operandType "+", ⟨1, 1, none⟩⟩,
          ⟨.undeclared "x", ⟨2, 1, none⟩⟩, ⟨.result .void .error, ⟨2, 1, none⟩⟩] ∧
      ∀ f ∈ muddled.functions, ∀ site ∈ f.sites muddled,
        ∀ d ∈ site.found (muddled.env f) f.resultType,
          site.Blames t.annotations f.resultType d.complaint := by
  obtain ⟨t, ht, hfound, hblames, -⟩ :=
    errors_are_never_blamed muddled {} (by decide) (by decide)
  exact ⟨t, ht, hfound.trans (by decide +kernel), hblames⟩

end Asl
