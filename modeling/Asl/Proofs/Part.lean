import Asl.Syntax.Tree
import Mathlib.Data.List.Flatten

/-!
# Parts of a body

The parts of a body are the occurrences in it that have an identity: expressions, places
and names. They are listed as a traversal leaves them, a name before the node that holds
it and an operand before its operation. A traversal may pass over the arguments of a call
for its value, and which calls it goes into is a parameter of the list.
-/

namespace Asl

/-- A name stands for what is stored under it, or before arguments. -/
inductive Use where
  | plain
  | called
deriving DecidableEq

inductive Part where
  | expr (e : Expr)
  | target (t : Target)
  | name (use : Use) (x : Ident)

def Part.id : Part → NodeId
  | expr e => e.node.id
  | target t => t.id
  | name _ x => x.id

/-- Whether the arguments of a call for its value are visited, given their number. -/
abbrev Entered := Ident → Nat → Bool

mutual
def Expr.reached (into : Entered) : Expr → List Part
  | .lit n v => [.expr (.lit n v)]
  | .var n x => [.name .plain x, .expr (.var n x)]
  | .paren n e => e.reached into ++ [.expr (.paren n e)]
  | .index n x e => .name .plain x :: e.reached into ++ [.expr (.index n x e)]
  | .call n f args =>
      .name .called f :: (if into f args.length then reachedExprs into args else []) ++
        [.expr (.call n f args)]
  | .unary n op e => e.reached into ++ [.expr (.unary n op e)]
  | .binary n op l r => l.reached into ++ r.reached into ++ [.expr (.binary n op l r)]
def reachedExprs (into : Entered) : List Expr → List Part
  | [] => []
  | e :: rest => e.reached into ++ reachedExprs into rest
end

def Target.reached (into : Entered) (t : Target) : List Part :=
  .name .plain t.ident :: t.subscript.elim [] (Expr.reached into) ++ [.target t]

mutual
def Stmt.reached (into : Entered) : Stmt → List Part
  | .assign _ target value => target.reached into ++ value.reached into
  | .ite _ condition yes no =>
      condition.reached into ++ reachedBlock into yes ++
        match no with
        | none => []
        | some no => reachedBlock into no
  | .loop _ condition body => condition.reached into ++ reachedBlock into body
  | .call _ f args => .name .called f :: reachedExprs into args
  | .read _ target => target.reached into
  | .write _ value => value.reached into
  | .print _ _ => []
  | .ret _ none => []
  | .ret _ (some value) => value.reached into
def reachedBlock (into : Entered) : List Stmt → List Part
  | [] => []
  | s :: rest => s.reached into ++ reachedBlock into rest
end

/-- Every part is there, visited or not. -/
def everyCall : Entered := fun _ _ => true

def Function.parts (f : Function) : List Part := reachedBlock everyCall f.body

def Program.parts (p : Program) : List Part := p.functions.flatMap Function.parts

def Program.partIds (p : Program) : List NodeId := p.parts.map Part.id

/-- The nodes that open a scope. -/
def Program.scopeIds (p : Program) : List NodeId := p.id :: p.functions.map fun f => f.id

def Function.ids (f : Function) : List NodeId :=
  f.id :: f.name.id :: f.params.map (fun p => p.name.id) ++
    f.vars.flatMap (fun d => d.names.map fun x => x.id) ++ f.parts.map Part.id

def Program.ids (p : Program) : List NodeId := p.id :: p.functions.flatMap Function.ids

namespace Program

variable {p : Program}

theorem scopeIds_sublist_ids (p : Program) : p.scopeIds.Sublist p.ids := by
  have hfunctions : (p.functions.flatMap fun f => [f.id]).Sublist
      (p.functions.flatMap Function.ids) :=
    .flatMap_right _ fun f _ => by simp [Function.ids]
  rw [scopeIds, ids, List.map_eq_flatMap]
  exact hfunctions.cons_cons p.id

theorem partIds_sublist_ids (p : Program) : p.partIds.Sublist p.ids := by
  have hfunctions : (p.functions.flatMap fun f => f.parts.map Part.id).Sublist
      (p.functions.flatMap Function.ids) :=
    .flatMap_right _ fun f _ => List.sublist_append_right _ _
  simpa [partIds, parts, ids, List.map_flatMap] using hfunctions.cons p.id

theorem nodup_ids_parts (h : p.partIds.Nodup) {f : Function} (hf : f ∈ p.functions) :
    (f.parts.map Part.id).Nodup := by
  have hsub := (List.singleton_sublist.mpr hf).flatMap Function.parts
  rw [List.flatMap_singleton] at hsub
  exact (hsub.map Part.id).nodup h

theorem id_mem_ids {f : Function} (hf : f ∈ p.functions) : f.id ∈ p.ids :=
  p.scopeIds_sublist_ids.subset (List.mem_cons_of_mem _ (List.mem_map.mpr ⟨f, hf, rfl⟩))

theorem part_id_mem_ids {f : Function} (hf : f ∈ p.functions) {part : Part}
    (hpart : part ∈ f.parts) : part.id ∈ p.ids := by
  refine List.mem_cons_of_mem _ (List.mem_flatMap.mpr ⟨f, hf, ?_⟩)
  exact List.mem_append_right _ (List.mem_map_of_mem hpart)

end Program

-- What holds of all parts holds of the parts below a node and of the node itself.
section

variable {into : Entered} {n : Node} {x : Ident} {P : Part → Prop}

namespace Expr

theorem mem_reached (into : Entered) (e : Expr) : .expr e ∈ e.reached into := by
  cases e <;> simp [reached]

theorem forall_reached_var :
    (∀ part ∈ (var n x).reached into, P part) ↔ P (.name .plain x) ∧ P (.expr (var n x)) := by
  simp [reached]

theorem forall_reached_paren {e : Expr} :
    (∀ part ∈ (paren n e).reached into, P part) ↔
      (∀ part ∈ e.reached into, P part) ∧ P (.expr (paren n e)) := by
  simp [reached, or_imp, forall_and]

theorem forall_reached_index {e : Expr} :
    (∀ part ∈ (index n x e).reached into, P part) ↔
      P (.name .plain x) ∧ (∀ part ∈ e.reached into, P part) ∧ P (.expr (index n x e)) := by
  simp [reached, or_imp, forall_and]

theorem forall_reached_call {args : List Expr} :
    (∀ part ∈ (call n x args).reached everyCall, P part) ↔
      P (.name .called x) ∧ (∀ part ∈ reachedExprs everyCall args, P part) ∧
        P (.expr (call n x args)) := by
  have hreached : (call n x args).reached everyCall =
      .name .called x :: reachedExprs everyCall args ++ [.expr (call n x args)] := rfl
  simp [hreached, or_imp, forall_and]

theorem forall_reached_unary {op : UnaryOp} {e : Expr} :
    (∀ part ∈ (unary n op e).reached into, P part) ↔
      (∀ part ∈ e.reached into, P part) ∧ P (.expr (unary n op e)) := by
  simp [reached, or_imp, forall_and]

theorem forall_reached_binary {op : BinaryOp} {l r : Expr} :
    (∀ part ∈ (binary n op l r).reached into, P part) ↔
      (∀ part ∈ l.reached into, P part) ∧ (∀ part ∈ r.reached into, P part) ∧
        P (.expr (binary n op l r)) := by
  simp [reached, or_imp, forall_and]

end Expr

namespace Target

theorem mem_reached (into : Entered) (t : Target) : .target t ∈ t.reached into := by
  simp [reached]

theorem forall_reached_none :
    (∀ part ∈ reached into ⟨n, x, none⟩, P part) ↔
      P (.name .plain x) ∧ P (.target ⟨n, x, none⟩) := by
  simp [reached]

theorem forall_reached_some {e : Expr} :
    (∀ part ∈ reached into ⟨n, x, some e⟩, P part) ↔
      P (.name .plain x) ∧ (∀ part ∈ e.reached into, P part) ∧ P (.target ⟨n, x, some e⟩) := by
  simp [reached, or_imp, forall_and]

end Target

end

mutual
/-- Whatever a traversal passes over, the rest keeps its order. -/
theorem Expr.reached_sublist (into : Entered) :
    ∀ e : Expr, (e.reached into).Sublist (e.reached everyCall)
  | .lit _ _ => by simp [Expr.reached]
  | .var _ _ => by simp [Expr.reached]
  | .paren _ e | .index _ _ e | .unary _ _ e => by
      simpa [Expr.reached] using e.reached_sublist into
  | .call _ f args => by
      have hargs : (if into f args.length then reachedExprs into args else []).Sublist
          (reachedExprs everyCall args) := by
        split
        · exact reachedExprs_sublist into args
        · exact List.nil_sublist _
      simpa [Expr.reached, everyCall] using hargs
  | .binary _ _ l r => by
      have hoperands := (l.reached_sublist into).append (r.reached_sublist into)
      simpa [Expr.reached, ← List.append_assoc] using hoperands
theorem reachedExprs_sublist (into : Entered) :
    ∀ es : List Expr, (reachedExprs into es).Sublist (reachedExprs everyCall es)
  | [] => .slnil
  | e :: rest => (e.reached_sublist into).append (reachedExprs_sublist into rest)
end

theorem Target.reached_sublist (into : Entered) (t : Target) :
    (t.reached into).Sublist (t.reached everyCall) := by
  unfold Target.reached
  cases t.subscript with
  | none => exact .refl _
  | some e => simpa using e.reached_sublist into

mutual
theorem Stmt.reached_sublist (into : Entered) :
    ∀ s : Stmt, (s.reached into).Sublist (s.reached everyCall)
  | .assign _ target value => by
      simpa [Stmt.reached] using
        (target.reached_sublist into).append (value.reached_sublist into)
  | .ite _ condition yes none => by
      simpa [Stmt.reached] using
        (condition.reached_sublist into).append (reachedBlock_sublist into yes)
  | .ite _ condition yes (some no) => by
      have hyes := (condition.reached_sublist into).append (reachedBlock_sublist into yes)
      simpa [Stmt.reached] using hyes.append (reachedBlock_sublist into no)
  | .loop _ condition body => by
      simpa [Stmt.reached] using
        (condition.reached_sublist into).append (reachedBlock_sublist into body)
  | .call _ _ args => by
      simpa [Stmt.reached] using reachedExprs_sublist into args
  | .read _ target => by simpa [Stmt.reached] using target.reached_sublist into
  | .write _ value => by simpa [Stmt.reached] using value.reached_sublist into
  | .print _ _ => by simp [Stmt.reached]
  | .ret _ none => by simp [Stmt.reached]
  | .ret _ (some value) => by simpa [Stmt.reached] using value.reached_sublist into
theorem reachedBlock_sublist (into : Entered) :
    ∀ ss : List Stmt, (reachedBlock into ss).Sublist (reachedBlock everyCall ss)
  | [] => .slnil
  | s :: rest => (s.reached_sublist into).append (reachedBlock_sublist into rest)
end

end Asl
