import Asl.Proofs.Acceptance

/-!
# What an accepted program is annotated with

In a well-typed body every argument meets its parameter, so the traversal passes over no
part of it. Each part is annotated with the type of its derivation, and the derivation can
be read off again: the type at a node follows by one rule from the types at its children.
-/

namespace Asl

/-- The node is annotated with a type that can be written. -/
def Annotations.Gives (a : Annotations) (node : NodeId) (w : Written) : Prop :=
  a.type? node = some w.type

/-- The type at an expression follows from the types at its children. -/
inductive Expr.Justified (a : Annotations) : Expr → Prop where
  | lit {n : Node} {v : Literal} : a.Gives n.id (.basic v.basic) → Justified a (.lit n v)
  | var {n : Node} {x : Ident} {w : Written} :
      a.Gives x.id w → a.Gives n.id w → Justified a (.var n x)
  | paren {n : Node} {e : Expr} {w : Written} :
      a.Gives e.node.id w → a.Gives n.id w → Justified a (.paren n e)
  | index {n : Node} {x : Ident} {e : Expr} {size : Nat} {b : BasicType} :
      a.Gives x.id (.value (.array size b)) → a.Gives e.node.id .int → a.Gives n.id (.basic b) →
        Justified a (.index n x e)
  | call {n : Node} {f : Ident} {args : List Expr} {params : List TypeSpec} {τ : TypeSpec} :
      a.Gives f.id (.func params (some τ)) →
        List.Forall₂ (fun e param => ∃ σ, Stores σ param ∧ a.Gives e.node.id (.value σ))
          args params → a.Gives n.id (.value τ) → Justified a (.call n f args)
  | not {n : Node} {e : Expr} :
      a.Gives e.node.id .bool → a.Gives n.id .bool → Justified a (.unary n .not e)
  | sign {n : Node} {op : UnaryOp} {e : Expr} {b : BasicType} :
      op ≠ .not → b.Numeric → a.Gives e.node.id (.basic b) → a.Gives n.id (.basic b) →
        Justified a (.unary n op e)
  | arith {n : Node} {op : ArithOp} {l r : Expr} {b c : BasicType} :
      op ≠ .mod → b.Numeric → c.Numeric → a.Gives l.node.id (.basic b) →
        a.Gives r.node.id (.basic c) → a.Gives n.id (.basic (b.sum c)) →
          Justified a (.binary n (.arith op) l r)
  | mod {n : Node} {l r : Expr} :
      a.Gives l.node.id .int → a.Gives r.node.id .int → a.Gives n.id .int →
        Justified a (.binary n (.arith .mod) l r)
  | rel {n : Node} {op : RelOp} {l r : Expr} {b c : BasicType} :
      Comparable op b c → a.Gives l.node.id (.basic b) → a.Gives r.node.id (.basic c) →
        a.Gives n.id .bool → Justified a (.binary n (.rel op) l r)
  | logic {n : Node} {op : LogicOp} {l r : Expr} :
      a.Gives l.node.id .bool → a.Gives r.node.id .bool → a.Gives n.id .bool →
        Justified a (.binary n (.logic op) l r)

inductive Target.Justified (a : Annotations) : Target → Prop where
  | whole {n : Node} {x : Ident} {τ : TypeSpec} :
      a.Gives x.id (.value τ) → a.Gives n.id (.value τ) → Justified a ⟨n, x, none⟩
  | element {n : Node} {x : Ident} {e : Expr} {size : Nat} {b : BasicType} :
      a.Gives x.id (.value (.array size b)) → a.Gives e.node.id .int → a.Gives n.id (.basic b) →
        Justified a ⟨n, x, some e⟩

/-- Expressions and places have the types of values, all places can be stored to, and the
name of a function only stands before arguments. -/
def Part.Sound (a : Annotations) (Γ : Context) : Part → Prop
  | .expr e => (∃ τ, a.Gives e.node.id (.value τ)) ∧ e.Justified a
  | .target t =>
      (∃ τ, a.Gives t.id (.value τ)) ∧ a.lvalue? t.id = some true ∧ t.Justified a
  | .name .plain x => ∃ τ, Γ x.name = some (.value τ) ∧ a.Gives x.id (.value τ)
  | .name .called f =>
      ∃ params result, Γ f.name = some (.func params result) ∧ a.Gives f.id (.func params result)

/-- Annotated as a reading under `env` annotates. -/
def Part.Recorded (a : Annotations) (env : Env) (part : Part) : Prop :=
  a.type? part.id = some (part.type env) ∧ a.lvalue? part.id = some (part.lvalue env)

section

variable {a : Annotations} {env : Env} {Γ : Context}

theorem Env.Agrees.gives (h : env.Agrees Γ) {use : Use} {x : Ident} {w : Written}
    (hx : Γ x.name = some w) (hrecorded : (Part.name use x).Recorded a env) : a.Gives x.id w :=
  hrecorded.1.trans (congrArg some (h.typeOf hx))

theorem HasType.gives (h : env.Agrees Γ) {e : Expr} {w : Written} (he : HasType Γ e w)
    (hrecorded : ∀ part ∈ e.reached everyCall, part.Recorded a env) : a.Gives e.node.id w := by
  obtain ⟨htype, -⟩ := hrecorded (.expr e) (e.mem_reached everyCall)
  exact htype.trans (congrArg some (he.readsAs h).type)

theorem Env.Agrees.takes (h : env.Agrees Γ) {f : Ident} {params : List TypeSpec}
    {result : Option TypeSpec} (hf : Γ f.name = some (.func params result)) {arity : Nat}
    (harity : params.length = arity) : env.takes f arity = true := by
  simp [Env.takes, h.typeOf hf, Written.type, harity]

mutual
theorem HasType.reached_takes (h : env.Agrees Γ) :
    ∀ {e : Expr} {w : Written}, HasType Γ e w → e.reached env.takes = e.reached everyCall
  | _, _, .lit _ _ | _, _, .var _ => rfl
  | _, _, .paren he | _, _, .index _ he | _, _, .not he | _, _, .sign _ _ he => by
      simp only [Expr.reached, he.reached_takes h]
  | _, _, .call hf hargs => by
      have hentered := h.takes hf (hargs.length_and_found h).1
      simp only [Expr.reached, hentered, hargs.reached_takes h]
      rfl
  | _, _, .arith _ _ _ hl hr | _, _, .mod hl hr | _, _, .rel _ hl hr | _, _, .logic hl hr => by
      simp only [Expr.reached, hl.reached_takes h, hr.reached_takes h]
theorem ArgsFit.reached_takes (h : env.Agrees Γ) :
    ∀ {args : List Expr} {params : List TypeSpec}, ArgsFit Γ args params →
      reachedExprs env.takes args = reachedExprs everyCall args
  | _, _, .nil => rfl
  | _, _, .cons he _ hrest => by
      simp only [reachedExprs, he.reached_takes h, hrest.reached_takes h]
end

theorem HasPlace.reached_takes (h : env.Agrees Γ) {t : Target} {τ : TypeSpec}
    (ht : HasPlace Γ t τ) : t.reached env.takes = t.reached everyCall := by
  cases ht with
  | whole _ => rfl
  | element _ he => simp only [Target.reached, Option.elim_some, he.reached_takes h]

mutual
theorem StmtTyped.reached_takes (h : env.Agrees Γ) {result : Option TypeSpec} :
    ∀ {s : Stmt}, StmtTyped Γ result s → s.reached env.takes = s.reached everyCall
  | _, .assign ht he _ => by
      simp only [Stmt.reached, ht.reached_takes h, he.reached_takes h]
  | _, .ite he hyes => by
      simp only [Stmt.reached, he.reached_takes h, hyes.reached_takes h]
  | _, .iteElse he hyes hno => by
      simp only [Stmt.reached, he.reached_takes h, hyes.reached_takes h, hno.reached_takes h]
  | _, .loop he hbody => by
      simp only [Stmt.reached, he.reached_takes h, hbody.reached_takes h]
  | _, .call _ hargs => by simp only [Stmt.reached, hargs.reached_takes h]
  | _, .read ht => by simp only [Stmt.reached, ht.reached_takes h]
  | _, .write he => by simp only [Stmt.reached, he.reached_takes h]
  | _, .print _ _ | _, .retNone _ => rfl
  | _, .retSome _ he _ => by simp only [Stmt.reached, he.reached_takes h]
theorem BlockTyped.reached_takes (h : env.Agrees Γ) {result : Option TypeSpec} :
    ∀ {ss : List Stmt}, BlockTyped Γ result ss →
      reachedBlock env.takes ss = reachedBlock everyCall ss
  | _, .nil => rfl
  | _, .cons hs hrest => by
      simp only [reachedBlock, hs.reached_takes h, hrest.reached_takes h]
end

mutual
theorem Expr.sound_of_hasType (h : env.Agrees Γ) :
    ∀ (e : Expr) {τ : TypeSpec}, HasType Γ e (.value τ) →
      (∀ part ∈ e.reached everyCall, part.Recorded a env) →
        ∀ part ∈ e.reached everyCall, part.Sound a Γ
  | .lit n v, _, he, hrecorded => by
      have hnode := he.gives h hrecorded
      cases he with
      | lit =>
          simp only [Expr.reached, List.forall_mem_singleton]
          exact ⟨⟨_, hnode⟩, .lit hnode⟩
  | .var n x, τ, he, hrecorded => by
      have hnode := he.gives h hrecorded
      rw [Expr.forall_reached_var] at hrecorded ⊢
      cases he with
      | var hx =>
          have hname := h.gives hx hrecorded.1
          exact ⟨⟨τ, hx, hname⟩, ⟨τ, hnode⟩, .var hname hnode⟩
  | .paren n e, τ, he, hrecorded => by
      have hnode := he.gives h hrecorded
      rw [Expr.forall_reached_paren] at hrecorded ⊢
      obtain ⟨hinner, -⟩ := hrecorded
      cases he with
      | paren he =>
          exact ⟨e.sound_of_hasType h he hinner, ⟨τ, hnode⟩, .paren (he.gives h hinner) hnode⟩
  | .index n x e, _, he, hrecorded => by
      have hnode := he.gives h hrecorded
      rw [Expr.forall_reached_index] at hrecorded ⊢
      obtain ⟨hident, hsubscript, -⟩ := hrecorded
      cases he with
      | index hx he =>
          have hname := h.gives hx hident
          refine ⟨⟨_, hx, hname⟩, e.sound_of_hasType h he hsubscript, ⟨_, hnode⟩, ?_⟩
          exact .index hname (he.gives h hsubscript) hnode
  | .call n f args, τ, he, hrecorded => by
      have hnode := he.gives h hrecorded
      rw [Expr.forall_reached_call] at hrecorded ⊢
      obtain ⟨hident, hrest, -⟩ := hrecorded
      cases he with
      | call hf hargs =>
          obtain ⟨hsound, hfit⟩ := sound_of_argsFit h args hargs hrest
          have hname := h.gives hf hident
          exact ⟨⟨_, _, hf, hname⟩, hsound, ⟨τ, hnode⟩, .call hname hfit hnode⟩
  | .unary n op e, _, he, hrecorded => by
      have hnode := he.gives h hrecorded
      rw [Expr.forall_reached_unary] at hrecorded ⊢
      obtain ⟨hoperand, -⟩ := hrecorded
      cases he with
      | not he =>
          have hinner := he.gives h hoperand
          exact ⟨e.sound_of_hasType h he hoperand, ⟨_, hnode⟩, .not hinner hnode⟩
      | sign hop hb he =>
          have hinner := he.gives h hoperand
          exact ⟨e.sound_of_hasType h he hoperand, ⟨_, hnode⟩, .sign hop hb hinner hnode⟩
  | .binary n op l r, _, he, hrecorded => by
      have hnode := he.gives h hrecorded
      rw [Expr.forall_reached_binary] at hrecorded ⊢
      obtain ⟨hleft, hright, -⟩ := hrecorded
      cases he with
      | arith hop hb hc hl hr =>
          refine ⟨l.sound_of_hasType h hl hleft, r.sound_of_hasType h hr hright, ⟨_, hnode⟩, ?_⟩
          exact .arith hop hb hc (hl.gives h hleft) (hr.gives h hright) hnode
      | mod hl hr =>
          refine ⟨l.sound_of_hasType h hl hleft, r.sound_of_hasType h hr hright, ⟨_, hnode⟩, ?_⟩
          exact .mod (hl.gives h hleft) (hr.gives h hright) hnode
      | rel hbc hl hr =>
          refine ⟨l.sound_of_hasType h hl hleft, r.sound_of_hasType h hr hright, ⟨_, hnode⟩, ?_⟩
          exact .rel hbc (hl.gives h hleft) (hr.gives h hright) hnode
      | logic hl hr =>
          refine ⟨l.sound_of_hasType h hl hleft, r.sound_of_hasType h hr hright, ⟨_, hnode⟩, ?_⟩
          exact .logic (hl.gives h hleft) (hr.gives h hright) hnode
theorem sound_of_argsFit (h : env.Agrees Γ) :
    ∀ (args : List Expr) {params : List TypeSpec}, ArgsFit Γ args params →
      (∀ part ∈ reachedExprs everyCall args, part.Recorded a env) →
        (∀ part ∈ reachedExprs everyCall args, part.Sound a Γ) ∧
          List.Forall₂ (fun e param => ∃ σ, Stores σ param ∧ a.Gives e.node.id (.value σ))
            args params
  | [], _, hargs, _ => by
      cases hargs with
      | nil => exact ⟨by simp [reachedExprs], .nil⟩
  | e :: rest, _, hargs, hrecorded => by
      cases hargs with
      | cons he hσ hrest =>
          simp only [reachedExprs, List.forall_mem_append] at hrecorded ⊢
          obtain ⟨harg, hothers⟩ := hrecorded
          obtain ⟨hsound, hfit⟩ := sound_of_argsFit h rest hrest hothers
          refine ⟨⟨e.sound_of_hasType h he harg, hsound⟩, .cons ⟨_, hσ, ?_⟩ hfit⟩
          exact he.gives h harg
end

theorem HasPlace.sound (h : env.Agrees Γ) {t : Target} {τ : TypeSpec} (ht : HasPlace Γ t τ)
    (hrecorded : ∀ part ∈ t.reached everyCall, part.Recorded a env) :
    ∀ part ∈ t.reached everyCall, part.Sound a Γ := by
  obtain ⟨-, htype, hlvalue⟩ := ht.readsAs h
  obtain ⟨hnodeType, hnodeLvalue⟩ := hrecorded (.target t) (t.mem_reached everyCall)
  have hnode : a.Gives t.id (.value τ) := hnodeType.trans (congrArg some htype)
  have hplace : a.lvalue? t.id = some true := hnodeLvalue.trans (congrArg some hlvalue)
  cases ht with
  | whole hx =>
      rw [Target.forall_reached_none] at hrecorded ⊢
      have hname := h.gives hx hrecorded.1
      exact ⟨⟨τ, hx, hname⟩, ⟨τ, hnode⟩, hplace, .whole hname hnode⟩
  | @element n x e size b hx he =>
      rw [Target.forall_reached_some] at hrecorded ⊢
      obtain ⟨hident, hsubscript, -⟩ := hrecorded
      have hname := h.gives hx hident
      refine ⟨⟨_, hx, hname⟩, e.sound_of_hasType h he hsubscript, ⟨_, hnode⟩, hplace, ?_⟩
      exact .element hname (he.gives h hsubscript) hnode

mutual
theorem Stmt.sound_of_typed (h : env.Agrees Γ) {result : Option TypeSpec} :
    ∀ s : Stmt, StmtTyped Γ result s →
      (∀ part ∈ s.reached everyCall, part.Recorded a env) →
        ∀ part ∈ s.reached everyCall, part.Sound a Γ
  | .assign _ target value, hs, hrecorded => by
      simp only [Stmt.reached, List.forall_mem_append] at hrecorded ⊢
      cases hs with
      | assign ht he _ =>
          exact ⟨ht.sound h hrecorded.1, value.sound_of_hasType h he hrecorded.2⟩
  | .ite _ condition yes none, hs, hrecorded => by
      simp only [Stmt.reached, List.append_nil, List.forall_mem_append] at hrecorded ⊢
      cases hs with
      | ite he hyes =>
          exact ⟨condition.sound_of_hasType h he hrecorded.1,
            sound_of_blockTyped h yes hyes hrecorded.2⟩
  | .ite _ condition yes (some no), hs, hrecorded => by
      simp only [Stmt.reached, List.forall_mem_append] at hrecorded ⊢
      obtain ⟨⟨hcondition, hfirst⟩, hsecond⟩ := hrecorded
      cases hs with
      | iteElse he hyes hno =>
          exact ⟨⟨condition.sound_of_hasType h he hcondition,
            sound_of_blockTyped h yes hyes hfirst⟩, sound_of_blockTyped h no hno hsecond⟩
  | .loop _ condition body, hs, hrecorded => by
      simp only [Stmt.reached, List.forall_mem_append] at hrecorded ⊢
      cases hs with
      | loop he hbody =>
          exact ⟨condition.sound_of_hasType h he hrecorded.1,
            sound_of_blockTyped h body hbody hrecorded.2⟩
  | .call _ f args, hs, hrecorded => by
      simp only [Stmt.reached, List.forall_mem_cons] at hrecorded ⊢
      cases hs with
      | call hf hargs =>
          exact ⟨⟨_, _, hf, h.gives hf hrecorded.1⟩,
            (sound_of_argsFit h args hargs hrecorded.2).1⟩
  | .read _ target, hs, hrecorded => by
      cases hs with
      | read ht => exact ht.sound h hrecorded
  | .write _ value, hs, hrecorded => by
      cases hs with
      | write he => exact value.sound_of_hasType h he hrecorded
  | .print _ _, _, _ => by simp [Stmt.reached]
  | .ret _ none, _, _ => by simp [Stmt.reached]
  | .ret _ (some value), hs, hrecorded => by
      cases hs with
      | retSome _ he _ => exact value.sound_of_hasType h he hrecorded
theorem sound_of_blockTyped (h : env.Agrees Γ) {result : Option TypeSpec} :
    ∀ ss : List Stmt, BlockTyped Γ result ss →
      (∀ part ∈ reachedBlock everyCall ss, part.Recorded a env) →
        ∀ part ∈ reachedBlock everyCall ss, part.Sound a Γ
  | [], _, _ => by simp [reachedBlock]
  | s :: rest, hss, hrecorded => by
      simp only [reachedBlock, List.forall_mem_append] at hrecorded ⊢
      cases hss with
      | cons hs hrest =>
          exact ⟨s.sound_of_typed h hs hrecorded.1, sound_of_blockTyped h rest hrest hrecorded.2⟩
end

end

/-- Nothing in a well-typed body is passed over. -/
theorem Program.WellTyped.reached_eq_parts {p : Program} {start : String} (h : p.WellTyped start)
    {f : Function} (hf : f ∈ p.functions) : reachedBlock (p.callable f) f.body = f.parts := by
  rw [← p.takes_env]
  exact (h.bodies f hf).reached_takes (p.env_agrees f)

/-! ## Accepted programs -/

/-- What may be relied on once a program is accepted. -/
theorem analyse_guarantees {p : Program} {c : Config} {t : Tables} (hrun : analyse p c = .ok t)
    (hok : t.isOk = true) :
    ∀ f ∈ p.functions, ∀ part ∈ f.parts,
      (t.annotations.type? part.id).isSome = true ∧
        (t.annotations.lvalue? part.id).isSome = true ∧
          part.Sound t.annotations (p.context f) := by
  intro f hf part hpart
  have houtcome := outcome_of_analyse hrun
  have hwellTyped := houtcome.isOk_iff.mp hok
  have hrecorded : ∀ part ∈ f.parts, part.Recorded t.annotations (p.env f) := by
    intro part hpart
    -- Only what is visited is annotated, and in a well-typed body that is every part.
    rw [← hwellTyped.reached_eq_parts hf] at hpart
    exact houtcome.visited hf hpart
  obtain ⟨htype, hlvalue⟩ := hrecorded part hpart
  refine ⟨by simp [htype], by simp [hlvalue], ?_⟩
  exact sound_of_blockTyped (p.env_agrees f) f.body (hwellTyped.bodies f hf) hrecorded part hpart

theorem halving_guaranteed :
    ∃ t, analyse halving {} = .ok t ∧ ∀ f ∈ halving.functions, ∀ part ∈ f.parts,
      (t.annotations.type? part.id).isSome = true ∧
        (t.annotations.lvalue? part.id).isSome = true ∧
          part.Sound t.annotations (halving.context f) := by
  obtain ⟨t, ht, hok⟩ := halving_accepted
  exact ⟨t, ht, analyse_guarantees ht hok⟩

end Asl
