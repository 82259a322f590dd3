import Asl.Analysis
import Asl.Proofs.Part

/-!
# What passes keep

A pass hands its tables on when it meets a fault as well as when it comes to its end, so
what it keeps is said of the tables after it, whichever they are. A relation between
earlier and later tables is kept by a whole pass once it is kept by the single writes, of
which there are few: the facts about the nodes that the pass is about, and complaints.
-/

namespace Asl

namespace Pass

/-- The tables as a pass leaves them, at its end or at a fault. -/
def after (p : Pass α) (t : Tables) : Tables :=
  match p t with
  | .ok _ u | .error _ u => u

section

variable {p q : Pass α} {f : α → Pass β} {t u : Tables} {a : α} {fault : Fault}

theorem after_of_ok (h : p t = .ok a u) : p.after t = u := by
  simp [after, h]

theorem after_of_error (h : p t = .error fault u) : p.after t = u := by
  simp [after, h]

theorem after_of_eq (h : p t = q u) : p.after t = q.after u := by
  rw [after, h, after]

theorem bind_of_ok (h : p t = .ok a u) : (p >>= f) t = f a u := by
  simp [Bind.bind, EStateM.bind, h]

theorem bind_of_error (h : p t = .error fault u) : (p >>= f) t = .error fault u := by
  simp [Bind.bind, EStateM.bind, h]

end

theorem after_ensuring (tidy : Tables → Tables) (body : Pass α) (t : Tables) :
    (body.ensuring tidy).after t = tidy (body.after t) := by
  unfold after ensuring
  cases body t <;> rfl

section

variable {scope : ScopeId} {node : NodeId} {body : Pass α} {t : Tables}

theorem scopeOf_of_some (h : t.annotations.scope? node = some scope) :
    Pass.scopeOf node t = .ok scope t := by
  simp [Pass.scopeOf, h]

theorem scopeOf_of_none (h : t.annotations.scope? node = none) :
    Pass.scopeOf node t = .error (.missing node .scope) t := by
  simp [Pass.scopeOf, h]

theorem enter_of_lt (h : scope < t.symbols.scopes.size) :
    Pass.enter scope t = .ok () { t with symbols.stack := scope :: t.symbols.stack } := by
  simp [Pass.enter, Symbols.enter, h]

theorem enter_of_not_lt (h : ¬scope < t.symbols.scopes.size) :
    Pass.enter scope t = .error (.unknownScope scope) t := by
  simp [Pass.enter, Symbols.enter, h]

theorem declare_of_some (h : t.symbols.innermost? = some scope) (x : String) (b : Binding) :
    Pass.declare x b t =
      .ok () { t with symbols.scopes := t.symbols.scopes.modify scope (·.declare x b) } := by
  simp [Pass.declare, Symbols.declare, h]

theorem declare_of_none (h : t.symbols.innermost? = none) (x : String) (b : Binding) :
    Pass.declare x b t = .error (.noActiveScope x) t := by
  simp [Pass.declare, Symbols.declare, h]

theorem within_of_lt (h : scope < t.symbols.scopes.size) :
    Pass.within scope body t =
      body.ensuring Tables.leave { t with symbols.stack := scope :: t.symbols.stack } :=
  bind_of_ok (enter_of_lt h)

theorem within_of_not_lt (h : ¬scope < t.symbols.scopes.size) :
    Pass.within scope body t = .error (.unknownScope scope) t :=
  bind_of_error (enter_of_not_lt h)

/-- A scope that cannot be entered leaves everything as it is. -/
theorem after_within (scope : ScopeId) (body : Pass α) (t : Tables) :
    (Pass.within scope body).after t =
      if scope < t.symbols.scopes.size then
        (body.after { t with symbols.stack := scope :: t.symbols.stack }).leave
      else t := by
  by_cases hscope : scope < t.symbols.scopes.size
  · rw [if_pos hscope, after_of_eq (within_of_lt hscope), after_ensuring]
  · rw [if_neg hscope, after_of_error (within_of_not_lt hscope)]

theorem symbols_after_put (node : NodeId) (fact : Fact) (t : Tables) :
    ((Pass.put node fact).after t).symbols = t.symbols := by
  cases hput : t.annotations.put node fact <;> simp [Pass.after, Pass.put, hput]

end

/-- Wherever the pass starts and however it ends, it leads from tables to related ones. -/
def Keeps (R : Tables → Tables → Prop) (p : Pass α) : Prop := ∀ t, R t (p.after t)

end Pass

/-- A relation between earlier and later tables that does not mind facts about certain nodes
and complaints. -/
structure Tables.Tolerates (nodes : NodeId → Prop) (R : Tables → Tables → Prop) : Prop where
  refl : ∀ t, R t t
  trans : ∀ {t u v}, R t u → R u v → R t v
  put : ∀ node, nodes node → ∀ fact, (Pass.put node fact).Keeps R
  report : ∀ found, (Pass.report found).Keeps R

open Pass (Keeps)
open Tables (Tolerates)

section

variable {nodes : NodeId → Prop} {R : Tables → Tables → Prop}

namespace Pass.Keeps

theorem bind (h : Tolerates nodes R) {p : Pass α} {f : α → Pass β} (hp : Keeps R p)
    (hf : ∀ a, Keeps R (f a)) : Keeps R (p >>= f) := by
  intro t
  cases hrun : p t with
  | ok a u =>
      rw [after_of_eq (bind_of_ok hrun)]
      exact h.trans (after_of_ok hrun ▸ hp t) (hf a u)
  | error fault u =>
      rw [after_of_error (bind_of_error hrun)]
      exact after_of_error hrun ▸ hp t

theorem pure (h : Tolerates nodes R) (a : α) : Keeps R (Pure.pure a : Pass α) := h.refl

theorem get_bind {f : Tables → Pass β} (hf : ∀ t, Keeps R (f t)) : Keeps R (get >>= f) :=
  fun t => hf t t

theorem of_after_eq (h : Tolerates nodes R) {p : Pass α} (hp : ∀ t, p.after t = t) :
    Keeps R p := by
  intro t
  rw [hp t]
  exact h.refl t

theorem scopeOf (h : Tolerates nodes R) (node : NodeId) : Keeps R (Pass.scopeOf node) := by
  refine .of_after_eq h fun t => ?_
  cases hscope : t.annotations.scope? node with
  | some scope => exact after_of_ok (scopeOf_of_some hscope)
  | none => exact after_of_error (scopeOf_of_none hscope)

theorem lvalueOf (h : Tolerates nodes R) (node : NodeId) : Keeps R (Pass.lvalueOf node) := by
  refine .of_after_eq h fun t => ?_
  cases hlvalue : t.annotations.lvalue? node <;> simp [after, Pass.lvalueOf, hlvalue]

theorem annotate (h : Tolerates nodes R) {node : NodeId} (hnode : nodes node) (type : Ty)
    (lvalue : Bool) : Keeps R (Pass.annotate node type lvalue) :=
  .bind h (h.put node hnode _) fun _ => .bind h (h.put node hnode _) fun _ => .pure h type

end Pass.Keeps

theorem checkIdent_keeps (h : Tolerates nodes R) {x : Ident} (hx : nodes x.id) :
    Keeps R (checkIdent x) := by
  refine .get_bind fun t => ?_
  exact .bind h (h.report _) fun _ => .annotate h hx _ _

mutual
theorem checkExpr_keeps (h : Tolerates nodes R) :
    ∀ e : Expr, (∀ part ∈ e.reached everyCall, nodes part.id) → Keeps R (checkExpr e)
  | .lit n v, hparts => by
      rw [checkExpr]
      exact .annotate h (hparts _ (Expr.mem_reached everyCall _)) _ _
  | .var n x, hparts => by
      rw [Expr.forall_reached_var] at hparts
      obtain ⟨hx, hnode⟩ := hparts
      rw [checkExpr]
      exact .bind h (checkIdent_keeps h hx) fun _ => .bind h (.lvalueOf h _) fun _ =>
        .annotate h hnode _ _
  | .paren n e, hparts => by
      rw [Expr.forall_reached_paren] at hparts
      obtain ⟨he, hnode⟩ := hparts
      rw [checkExpr]
      exact .bind h (checkExpr_keeps h e he) fun _ => .annotate h hnode _ _
  | .index n x e, hparts => by
      rw [Expr.forall_reached_index] at hparts
      obtain ⟨hx, he, hnode⟩ := hparts
      rw [checkExpr]
      exact .bind h (checkIdent_keeps h hx) fun _ => .bind h (.lvalueOf h _) fun _ =>
        .bind h (checkExpr_keeps h e he) fun _ => .bind h (h.report _) fun _ =>
          .annotate h hnode _ _
  | .call n f args, hparts => by
      rw [Expr.forall_reached_call] at hparts
      obtain ⟨hf, hargs, hnode⟩ := hparts
      rw [checkExpr]
      exact .bind h (checkIdent_keeps h hf) fun _ => .bind h (h.report _) fun _ =>
        .bind h (checkArgs_keeps h f _ _ args hargs) fun _ => .annotate h hnode _ _
  | .unary n op e, hparts => by
      rw [Expr.forall_reached_unary] at hparts
      obtain ⟨he, hnode⟩ := hparts
      rw [checkExpr]
      exact .bind h (checkExpr_keeps h e he) fun _ => .bind h (h.report _) fun _ =>
        .annotate h hnode _ _
  | .binary n op l r, hparts => by
      rw [Expr.forall_reached_binary] at hparts
      obtain ⟨hl, hr, hnode⟩ := hparts
      rw [checkExpr]
      exact .bind h (checkExpr_keeps h l hl) fun _ => .bind h (checkExpr_keeps h r hr) fun _ =>
        .bind h (h.report _) fun _ => .annotate h hnode _ _
theorem checkArgs_keeps (h : Tolerates nodes R) (f : Ident) :
    ∀ (k : Nat) (params : List Ty) (args : List Expr),
      (∀ part ∈ reachedExprs everyCall args, nodes part.id) → Keeps R (checkArgs f k params args)
  | _, [], _, _ => by simpa [checkArgs] using Keeps.pure h ()
  | _, _ :: _, [], _ => by simpa [checkArgs] using Keeps.pure h ()
  | k, param :: params, e :: rest, hparts => by
      simp only [reachedExprs, List.forall_mem_append] at hparts
      obtain ⟨he, hrest⟩ := hparts
      rw [checkArgs]
      exact .bind h (checkExpr_keeps h e he) fun _ => .bind h (h.report _) fun _ =>
        checkArgs_keeps h f (k + 1) params rest hrest
end

theorem checkExprs_keeps (h : Tolerates nodes R) (es : List Expr)
    (hparts : ∀ part ∈ reachedExprs everyCall es, nodes part.id) : Keeps R (checkExprs es) := by
  induction es with
  | nil => exact .pure h _
  | cons e rest ih =>
      simp only [reachedExprs, List.forall_mem_append] at hparts
      obtain ⟨he, hrest⟩ := hparts
      rw [checkExprs]
      exact .bind h (checkExpr_keeps h e he) fun _ => .bind h (ih hrest) fun _ => .pure h _

theorem checkTarget_keeps (h : Tolerates nodes R) (target : Target)
    (hparts : ∀ part ∈ target.reached everyCall, nodes part.id) :
    Keeps R (checkTarget target) := by
  obtain ⟨n, x, subscript⟩ := target
  unfold checkTarget
  cases subscript with
  | none =>
      rw [Target.forall_reached_none] at hparts
      obtain ⟨hx, hnode⟩ := hparts
      exact .bind h (checkIdent_keeps h hx) fun _ => .bind h (.lvalueOf h _) fun _ =>
        .annotate h hnode _ _
  | some e =>
      rw [Target.forall_reached_some] at hparts
      obtain ⟨hx, he, hnode⟩ := hparts
      exact .bind h (checkIdent_keeps h hx) fun _ => .bind h (.lvalueOf h _) fun _ =>
        .bind h (checkExpr_keeps h e he) fun _ => .bind h (h.report _) fun _ =>
          .annotate h hnode _ _

theorem declaredResult_keeps (h : Tolerates nodes R) (loc : Location) :
    Keeps R (declaredResult loc) := by
  refine .of_after_eq h fun t => ?_
  cases hresult : t.symbols.signature.bind Ty.result? <;>
    simp [Pass.after, declaredResult, hresult]

mutual
theorem checkStmt_keeps (h : Tolerates nodes R) :
    ∀ s : Stmt, (∀ part ∈ s.reached everyCall, nodes part.id) → Keeps R (checkStmt s)
  | .assign _ target value, hparts => by
      simp only [Stmt.reached, List.forall_mem_append] at hparts
      obtain ⟨htarget, hvalue⟩ := hparts
      rw [checkStmt]
      exact .bind h (checkTarget_keeps h target htarget) fun _ =>
        .bind h (checkExpr_keeps h value hvalue) fun _ => .bind h (h.report _) fun _ =>
          .bind h (.lvalueOf h _) fun _ => h.report _
  | .ite _ condition yes none, hparts => by
      simp only [Stmt.reached, List.append_nil, List.forall_mem_append] at hparts
      obtain ⟨hcondition, hyes⟩ := hparts
      rw [checkStmt]
      exact .bind h (checkExpr_keeps h condition hcondition) fun _ =>
        .bind h (h.report _) fun _ => .bind h (checkBlock_keeps h yes hyes) fun _ => .pure h ()
  | .ite _ condition yes (some no), hparts => by
      simp only [Stmt.reached, List.forall_mem_append] at hparts
      obtain ⟨⟨hcondition, hyes⟩, hno⟩ := hparts
      rw [checkStmt]
      exact .bind h (checkExpr_keeps h condition hcondition) fun _ =>
        .bind h (h.report _) fun _ => .bind h (checkBlock_keeps h yes hyes) fun _ =>
          checkBlock_keeps h no hno
  | .loop _ condition body, hparts => by
      simp only [Stmt.reached, List.forall_mem_append] at hparts
      obtain ⟨hcondition, hbody⟩ := hparts
      rw [checkStmt]
      exact .bind h (checkExpr_keeps h condition hcondition) fun _ =>
        .bind h (h.report _) fun _ => checkBlock_keeps h body hbody
  | .call _ f args, hparts => by
      simp only [Stmt.reached, List.forall_mem_cons] at hparts
      obtain ⟨hf, hargs⟩ := hparts
      rw [checkStmt]
      exact .bind h (checkIdent_keeps h hf) fun _ =>
        .bind h (checkExprs_keeps h args hargs) fun _ => .bind h (h.report _) fun _ => h.report _
  | .read _ target, hparts => by
      rw [checkStmt]
      exact .bind h (checkTarget_keeps h target hparts) fun _ => .bind h (h.report _) fun _ =>
        .bind h (.lvalueOf h _) fun _ => h.report _
  | .write _ value, hparts => by
      rw [checkStmt]
      exact .bind h (checkExpr_keeps h value hparts) fun _ => h.report _
  | .print _ _, _ => by
      rw [checkStmt]
      exact .pure h ()
  | .ret loc none, _ => by
      rw [checkStmt]
      exact .bind h (declaredResult_keeps h loc) fun _ => h.report _
  | .ret loc (some value), hparts => by
      rw [checkStmt]
      exact .bind h (declaredResult_keeps h loc) fun _ =>
        .bind h (checkExpr_keeps h value hparts) fun _ => h.report _
theorem checkBlock_keeps (h : Tolerates nodes R) :
    ∀ ss : List Stmt, (∀ part ∈ reachedBlock everyCall ss, nodes part.id) →
      Keeps R (checkBlock ss)
  | [], _ => by
      rw [checkBlock]
      exact .pure h ()
  | s :: rest, hparts => by
      simp only [reachedBlock, List.forall_mem_append] at hparts
      obtain ⟨hs, hrest⟩ := hparts
      rw [checkBlock]
      exact .bind h (checkStmt_keeps h s hs) fun _ => checkBlock_keeps h rest hrest
end

/-- A relation that does not mind a change of the symbols either. -/
structure Tables.Overlooks (nodes : NodeId → Prop) (R : Tables → Tables → Prop) : Prop
    extends Tolerates nodes R where
  symbols : ∀ (t : Tables) (s : Symbols), R t { t with symbols := s }

open Tables (Overlooks)

theorem within_keeps (h : Overlooks nodes R) (scope : ScopeId) {body : Pass α}
    (hbody : Keeps R body) : Keeps R (Pass.within scope body) := by
  intro t
  rw [Pass.after_within]
  split
  · exact h.trans (h.trans (h.symbols t _) (hbody _)) (h.symbols _ _)
  · exact h.refl t

theorem registerName_keeps (h : Overlooks nodes R) (x : Ident) (b : Binding) :
    Keeps R (registerName x b) := by
  refine .get_bind fun t => ?_
  split
  · exact h.report _
  · intro u
    cases hdeclare : u.symbols.declare x.name b with
    | ok s =>
        have hrun : Pass.declare x.name b u = .ok () { u with symbols := s } := by
          simp [Pass.declare, hdeclare]
        rw [Pass.after_of_ok hrun]
        exact h.symbols u s
    | error fault =>
        have hrun : Pass.declare x.name b u = .error fault u := by
          simp [Pass.declare, hdeclare]
        rw [Pass.after_of_error hrun]
        exact h.refl u

theorem registerNames_keeps (h : Overlooks nodes R) (ds : List (Ident × Binding)) :
    Keeps R (registerNames ds) := by
  induction ds with
  | nil => exact .pure h.toTolerates ()
  | cons d rest ih =>
      rw [registerNames]
      exact .bind h.toTolerates (registerName_keeps h d.1 d.2) fun _ => ih

theorem opening_keeps (h : Overlooks nodes R) {name : String} {node : NodeId}
    {body : Pass Unit} (hnode : nodes node) (hbody : Keeps R body) :
    Keeps R (do
      let scope ← Pass.newScope name
      Pass.put node (.scope scope)
      Pass.within scope body) := by
  have hnew : Keeps R (Pass.newScope name) := fun t => h.symbols t _
  refine .bind h.toTolerates hnew fun scope => ?_
  exact .bind h.toTolerates (h.put node hnode _) fun _ => within_keeps h scope hbody

theorem registerFunctions_keeps (h : Overlooks nodes R) (fs : List Function)
    (hnodes : ∀ f ∈ fs, nodes f.id) : Keeps R (registerFunctions fs) := by
  induction fs with
  | nil => exact .pure h.toTolerates ()
  | cons f rest ih =>
      rw [List.forall_mem_cons] at hnodes
      obtain ⟨hf, hrest⟩ := hnodes
      have hfunction : Keeps R (registerFunction f) := by
        refine .bind h.toTolerates (registerName_keeps h f.name _) fun _ => ?_
        exact opening_keeps h hf (registerNames_keeps h f.decls)
      rw [registerFunctions]
      exact .bind h.toTolerates hfunction fun _ => ih hrest

theorem registerProgram_keeps (h : Overlooks nodes R) (p : Program)
    (hnodes : ∀ id ∈ p.scopeIds, nodes id) : Keeps R (registerProgram p) := by
  rw [Program.scopeIds, List.forall_mem_cons, List.forall_mem_map] at hnodes
  obtain ⟨hprogram, hfunctions⟩ := hnodes
  exact opening_keeps h hprogram (registerFunctions_keeps h p.functions hfunctions)

theorem checkFunctions_keeps (h : Overlooks nodes R) (fs : List Function)
    (hparts : ∀ f ∈ fs, ∀ part ∈ f.parts, nodes part.id) : Keeps R (checkFunctions fs) := by
  have ht := h.toTolerates
  induction fs with
  | nil => exact .pure ht ()
  | cons f rest ih =>
      rw [List.forall_mem_cons] at hparts
      obtain ⟨hf, hrest⟩ := hparts
      have hsignature : Keeps R (Pass.setSignature (some f.signature)) := fun t => h.symbols t _
      have hbody (scope : ScopeId) : Keeps R
          ((Pass.within scope (checkBlock f.body)).ensuring (·.withSignature none)) := by
        intro t
        rw [Pass.after_ensuring]
        exact h.trans (within_keeps h scope (checkBlock_keeps ht f.body hf) t) (h.symbols _ _)
      have hfunction : Keeps R (checkFunction f) :=
        .bind ht hsignature fun _ => .bind ht (.scopeOf ht f.id) hbody
      rw [checkFunctions]
      exact .bind ht hfunction fun _ => ih hrest

theorem checkProgram_keeps (h : Overlooks nodes R) (c : Config) (p : Program)
    (hparts : ∀ id ∈ p.partIds, nodes id) : Keeps R (checkProgram c p) := by
  have ht := h.toTolerates
  have hbodies : ∀ f ∈ p.functions, ∀ part ∈ f.parts, nodes part.id := by
    intro f hf part hpart
    exact hparts part.id (List.mem_map_of_mem (List.mem_flatMap.mpr ⟨f, hf, hpart⟩))
  refine .get_bind fun t => .bind ht (.scopeOf ht p.id) fun scope => ?_
  refine .bind ht (within_keeps h scope ?_) fun _ => .get_bind fun u => .pure ht _
  exact .bind ht (checkFunctions_keeps h p.functions hbodies) fun _ => .get_bind fun u => h.report _

end

end Asl
