import Asl.Proofs.Mistakes

/-!
# Integers in the place of floats

An integer may stand wherever a float may. So when an expression that is a float is replaced by
an integer, what holds it either does not notice or turns from a float into an integer itself,
and then the same is true one level further out. By induction on the place the body stays
well-typed, and no other part of it changes its type but the expressions around the place.
-/

namespace Asl

namespace Written

@[match_pattern] abbrev float : Written := .basic .float

/-- The same type, or an integer for a float. -/
inductive Narrows : Written → Written → Prop where
  | same (w : Written) : Narrows w w
  | toInt : Narrows float int

theorem type_eq_float_iff {w : Written} : w.type = .float ↔ w = float := by
  rcases w with ((_ | _ | _ | _) | _) | _ <;> simp [type, TypeSpec.type, BasicType.type]

namespace Narrows

variable {a b : BasicType} {σ τ : TypeSpec} {w : Written}

theorem int (h : Narrows .int w) : w = .int := by
  cases h
  rfl

theorem bool (h : Narrows .bool w) : w = .bool := by
  cases h
  rfl

theorem basic (h : Narrows (.basic b) w) : ∃ c, w = .basic c := by
  cases h with
  | same => exact ⟨b, rfl⟩
  | toInt => exact ⟨.int, rfl⟩

theorem numeric (hb : b.Numeric) (h : Narrows (.basic b) w) : ∃ c, w = .basic c ∧ c.Numeric := by
  cases h with
  | same => exact ⟨b, rfl, hb⟩
  | toInt => exact ⟨.int, rfl, .int⟩

/-- An integer can be stored wherever a float can. -/
theorem stores (hσ : Stores σ τ) (h : Narrows (.value σ) w) : ∃ υ, w = .value υ ∧ Stores υ τ := by
  cases h with
  | same => exact ⟨σ, rfl, hσ⟩
  | toInt =>
      cases hσ with
      | same => exact ⟨.basic .int, rfl, .widen⟩

/-- An integer can be compared with whatever a float can. -/
theorem comparable {op : RelOp} (hab : Comparable op a b) (h : Narrows (.basic a) w) :
    ∃ c, w = .basic c ∧ Comparable op c b := by
  cases h with
  | same => exact ⟨a, rfl, hab⟩
  | toInt =>
      cases hab with
      | numbers _ hb => exact ⟨.int, rfl, .numbers .int hb⟩
      | equality _ => exact ⟨.int, rfl, .numbers .int .float⟩

theorem sum (ha : a.Numeric) (h : Narrows (.basic a) w) (b : BasicType) :
    ∃ c, w = .basic c ∧ c.Numeric ∧ Narrows (.basic (a.sum b)) (.basic (c.sum b)) := by
  cases h with
  | same => exact ⟨a, rfl, ha, .same _⟩
  | toInt =>
      refine ⟨.int, rfl, .int, ?_⟩
      cases b with
      | int => exact .toInt
      | float | bool | char => exact .same .float

end Narrows

end Written

theorem BasicType.sum_comm (a b : BasicType) : a.sum b = b.sum a := by
  cases a <;> cases b <;> rfl

theorem Comparable.symm {op : RelOp} {a b : BasicType} (h : Comparable op a b) :
    Comparable op b a := by
  cases h with
  | numbers ha hb => exact .numbers hb ha
  | equality hop => exact .equality a hop

/-- The node is the same and so is the type, unless an expression around `a` has turned from a
float into an integer. -/
inductive Part.Persists (env : Env) (a : Expr) : Part → Part → Prop where
  | same {part part' : Part} :
      part'.id = part.id → part'.type env = part.type env → Persists env a part part'
  | narrowed {e e' : Expr} :
      e'.node.id = e.node.id → .expr a ∈ e.reached everyCall → e.type env = .float →
        e'.type env = .int → Persists env a (.expr e) (.expr e')

/-- All parts persist but those of `a`. -/
def PartsPersist (env : Env) (a : Expr) (ps ps' : List Part) : Prop :=
  ∀ part ∈ ps, part ∈ a.reached everyCall ∨ ∃ part' ∈ ps', part.Persists env a part'

section

variable {env : Env} {Γ : Context} {a : Expr} {ps ps' qs qs' : List Part}

namespace PartsPersist

theorem refl (ps : List Part) : PartsPersist env a ps ps :=
  fun part hpart => .inr ⟨part, hpart, .same rfl rfl⟩

theorem append (hps : PartsPersist env a ps ps') (hqs : PartsPersist env a qs qs') :
    PartsPersist env a (ps ++ qs) (ps' ++ qs') := by
  intro part hpart
  rcases List.mem_append.mp hpart with hpart | hpart
  · exact (hps part hpart).imp_right fun ⟨part', hmem, h⟩ => ⟨part', by simp [hmem], h⟩
  · exact (hqs part hpart).imp_right fun ⟨part', hmem, h⟩ => ⟨part', by simp [hmem], h⟩

theorem single {part part' : Part} (h : part.Persists env a part') :
    PartsPersist env a [part] [part'] := by
  simpa [PartsPersist] using .inr h

end PartsPersist

/-- With an integer in the place of `a` the expression has a type that is no wider. -/
structure Expr.Narrowed (env : Env) (Γ : Context) (a e e' : Expr) (w : Written) : Prop where
  around : .expr a ∈ e.reached everyCall
  typed : ∃ w', HasType Γ e' w' ∧ w.Narrows w'
  parts : PartsPersist env a (e.reached everyCall) (e'.reached everyCall)

theorem Expr.Narrowed.of_parts (h : env.Agrees Γ) {e e' : Expr} {w w' : Written}
    (he : HasType Γ e w) (he' : HasType Γ e' w') (hw : w.Narrows w')
    (hnode : e'.node.id = e.node.id) (hreached : e.reached everyCall = ps ++ [.expr e])
    (hreached' : e'.reached everyCall = ps' ++ [.expr e']) (ha : .expr a ∈ ps)
    (hps : PartsPersist env a ps ps') : Expr.Narrowed env Γ a e e' w := by
  have haround : .expr a ∈ e.reached everyCall := by simp [hreached, ha]
  have htype := (he.readsAs h).type
  have htype' := (he'.readsAs h).type
  have hself : Part.Persists env a (.expr e) (.expr e') := by
    cases hw with
    | same => exact .same hnode (htype'.trans htype.symm)
    | toInt => exact .narrowed hnode haround htype htype'
  exact ⟨haround, ⟨w', he', hw⟩, hreached ▸ hreached' ▸ hps.append (.single hself)⟩

namespace Expr.Narrowed

variable {n : Node} {op : BinaryOp} {l l' r r' : Expr} {u w w' : Written}

theorem left (h : env.Agrees Γ) (hl : Narrowed env Γ a l l' u)
    (hb : HasType Γ (.binary n op l r) w) (hb' : HasType Γ (.binary n op l' r) w')
    (hw : w.Narrows w') : Narrowed env Γ a (.binary n op l r) (.binary n op l' r) w :=
  of_parts h hb hb' hw rfl rfl rfl (List.mem_append_left _ hl.around) (hl.parts.append (.refl _))

theorem right (h : env.Agrees Γ) (hr : Narrowed env Γ a r r' u)
    (hb : HasType Γ (.binary n op l r) w) (hb' : HasType Γ (.binary n op l r') w')
    (hw : w.Narrows w') : Narrowed env Γ a (.binary n op l r) (.binary n op l r') w :=
  of_parts h hb hb' hw rfl rfl rfl (List.mem_append_right _ hr.around) (.append (.refl _) hr.parts)

end Expr.Narrowed

variable {e : Expr}

mutual
theorem Expr.Within.narrowed (h : env.Agrees Γ) (ha : ∀ w, HasType Γ a w → w = .float)
    (he : HasType Γ e .int) : ∀ {b b' : Expr} {w : Written},
      Expr.Within (Expr.Swaps a e) b b' → HasType Γ b w → Expr.Narrowed env Γ a b b' w
  | _, _, w, .here ⟨rfl, rfl⟩, hb => by
      obtain rfl := ha w hb
      exact ⟨Expr.mem_reached everyCall _, ⟨.int, he, .toInt⟩, fun part hpart => .inl hpart⟩
  | _, _, _, .paren hplace, .paren hb => by
      obtain ⟨haround, ⟨w', hb', hw⟩, hparts⟩ := hplace.narrowed h ha he hb
      exact .of_parts h (.paren hb) (.paren hb') hw rfl rfl rfl haround hparts
  | _, _, _, .index hplace, .index hx hb => by
      obtain ⟨haround, ⟨w', hb', hw⟩, hparts⟩ := hplace.narrowed h ha he hb
      obtain rfl := hw.int
      exact .of_parts h (.index hx hb) (.index hx hb') (.same _) rfl rfl rfl
        (List.mem_cons_of_mem _ haround) ((PartsPersist.refl [_]).append hparts)
  | _, _, _, .call hplace, .call hf hargs => by
      obtain ⟨haround, hargs', hparts⟩ := hplace.narrowed h ha he hargs
      exact .of_parts h (.call hf hargs) (.call hf hargs') (.same _) rfl rfl rfl
        (List.mem_cons_of_mem _ haround) ((PartsPersist.refl [_]).append hparts)
  | _, _, _, .unary hplace, .not hb => by
      obtain ⟨haround, ⟨w', hb', hw⟩, hparts⟩ := hplace.narrowed h ha he hb
      obtain rfl := hw.bool
      exact .of_parts h (.not hb) (.not hb') (.same _) rfl rfl rfl haround hparts
  | _, _, _, .unary hplace, .sign hop hnumeric hb => by
      obtain ⟨haround, ⟨w', hb', hw⟩, hparts⟩ := hplace.narrowed h ha he hb
      obtain ⟨c, rfl, hc⟩ := hw.numeric hnumeric
      exact .of_parts h (.sign hop hnumeric hb) (.sign hop hc hb') hw rfl rfl rfl haround hparts
  | _, _, _, .left hplace, .arith (b := b) hop hnumeric hnumeric' hl hr => by
      have hnarrowed := hplace.narrowed h ha he hl
      obtain ⟨w', hl', hw⟩ := hnarrowed.typed
      obtain ⟨c, rfl, hc, hsum⟩ := hw.sum hnumeric b
      exact hnarrowed.left h (.arith hop hnumeric hnumeric' hl hr)
        (.arith hop hc hnumeric' hl' hr) hsum
  | _, _, _, .left hplace, .mod hl hr => by
      have hnarrowed := hplace.narrowed h ha he hl
      obtain ⟨w', hl', hw⟩ := hnarrowed.typed
      obtain rfl := hw.int
      exact hnarrowed.left h (.mod hl hr) (.mod hl' hr) (.same _)
  | _, _, _, .left hplace, .rel hab hl hr => by
      have hnarrowed := hplace.narrowed h ha he hl
      obtain ⟨w', hl', hw⟩ := hnarrowed.typed
      obtain ⟨c, rfl, hcb⟩ := hw.comparable hab
      exact hnarrowed.left h (.rel hab hl hr) (.rel hcb hl' hr) (.same _)
  | _, _, _, .left hplace, .logic hl hr => by
      have hnarrowed := hplace.narrowed h ha he hl
      obtain ⟨w', hl', hw⟩ := hnarrowed.typed
      obtain rfl := hw.bool
      exact hnarrowed.left h (.logic hl hr) (.logic hl' hr) (.same _)
  | _, _, _, .right hplace, .arith (a := b) (b := c) hop hnumeric hnumeric' hl hr => by
      have hnarrowed := hplace.narrowed h ha he hr
      obtain ⟨w', hr', hw⟩ := hnarrowed.typed
      obtain ⟨d, rfl, hd, hsum⟩ := hw.sum hnumeric' b
      rw [BasicType.sum_comm c, BasicType.sum_comm d] at hsum
      exact hnarrowed.right h (.arith hop hnumeric hnumeric' hl hr)
        (.arith hop hnumeric hd hl hr') hsum
  | _, _, _, .right hplace, .mod hl hr => by
      have hnarrowed := hplace.narrowed h ha he hr
      obtain ⟨w', hr', hw⟩ := hnarrowed.typed
      obtain rfl := hw.int
      exact hnarrowed.right h (.mod hl hr) (.mod hl hr') (.same _)
  | _, _, _, .right hplace, .rel hab hl hr => by
      have hnarrowed := hplace.narrowed h ha he hr
      obtain ⟨w', hr', hw⟩ := hnarrowed.typed
      obtain ⟨c, rfl, hcb⟩ := hw.comparable hab.symm
      exact hnarrowed.right h (.rel hab hl hr) (.rel hcb.symm hl hr') (.same _)
  | _, _, _, .right hplace, .logic hl hr => by
      have hnarrowed := hplace.narrowed h ha he hr
      obtain ⟨w', hr', hw⟩ := hnarrowed.typed
      obtain rfl := hw.bool
      exact hnarrowed.right h (.logic hl hr) (.logic hl hr') (.same _)
theorem ArgsWithin.narrowed (h : env.Agrees Γ) (ha : ∀ w, HasType Γ a w → w = .float)
    (he : HasType Γ e .int) : ∀ {args args' : List Expr} {params : List TypeSpec},
      ArgsWithin (Expr.Swaps a e) args args' → ArgsFit Γ args params →
        .expr a ∈ reachedExprs everyCall args ∧ ArgsFit Γ args' params ∧
          PartsPersist env a (reachedExprs everyCall args) (reachedExprs everyCall args')
  | _, _, _, .head hplace, .cons hb hσ hrest => by
      obtain ⟨haround, ⟨w', hb', hw⟩, hparts⟩ := hplace.narrowed h ha he hb
      obtain ⟨υ, rfl, hυ⟩ := hw.stores hσ
      exact ⟨List.mem_append_left _ haround, .cons hb' hυ hrest, hparts.append (.refl _)⟩
  | _, _, _, .tail hplace, .cons hb hσ hrest => by
      obtain ⟨haround, hrest', hparts⟩ := hplace.narrowed h ha he hrest
      exact ⟨List.mem_append_right _ haround, .cons hb hσ hrest', .append (.refl _) hparts⟩
end

theorem HasPlace.narrowed (h : env.Agrees Γ) (ha : ∀ w, HasType Γ a w → w = .float)
    (he : HasType Γ e .int) {n : Node} {x : Ident} {b b' : Expr} {τ : TypeSpec}
    (hplace : Expr.Within (Expr.Swaps a e) b b') (ht : HasPlace Γ ⟨n, x, some b⟩ τ) :
    HasPlace Γ ⟨n, x, some b'⟩ τ ∧
      PartsPersist env a (Target.reached everyCall ⟨n, x, some b⟩)
        (Target.reached everyCall ⟨n, x, some b'⟩) := by
  cases ht with
  | @element _ _ _ _ c hx hb =>
      obtain ⟨-, ⟨w', hb', hw⟩, hparts⟩ := hplace.narrowed h ha he hb
      obtain rfl := hw.int
      have ht : HasPlace Γ ⟨n, x, some b⟩ (.basic c) := .element hx hb
      have ht' : HasPlace Γ ⟨n, x, some b'⟩ (.basic c) := .element hx hb'
      have htype := (ht'.readsAs h).type.trans (ht.readsAs h).type.symm
      exact ⟨ht', ((PartsPersist.refl [_]).append hparts).append (.single (.same rfl htype))⟩

mutual
theorem Stmt.Within.narrowed (h : env.Agrees Γ) (ha : ∀ w, HasType Γ a w → w = .float)
    (he : HasType Γ e .int) {result : Option TypeSpec} : ∀ {s s' : Stmt},
      Stmt.Within (Expr.Swaps a e) Stmt.stays s s' → StmtTyped Γ result s →
        StmtTyped Γ result s' ∧ PartsPersist env a (s.reached everyCall) (s'.reached everyCall)
  | _, _, .here hs, _ => hs.elim
  | _, _, .subscript hplace, .assign ht hb hσ => by
      obtain ⟨ht', hparts⟩ := ht.narrowed h ha he hplace
      exact ⟨.assign ht' hb hσ, hparts.append (.refl _)⟩
  | _, _, .value hplace, .assign ht hb hσ => by
      obtain ⟨-, ⟨w', hb', hw⟩, hparts⟩ := hplace.narrowed h ha he hb
      obtain ⟨υ, rfl, hυ⟩ := hw.stores hσ
      exact ⟨.assign ht hb' hυ, .append (.refl _) hparts⟩
  | _, _, .condition hplace, .ite hb hyes => by
      obtain ⟨-, ⟨w', hb', hw⟩, hparts⟩ := hplace.narrowed h ha he hb
      obtain rfl := hw.bool
      exact ⟨.ite hb' hyes, (hparts.append (.refl _)).append (.refl _)⟩
  | _, _, .condition hplace, .iteElse hb hyes hno => by
      obtain ⟨-, ⟨w', hb', hw⟩, hparts⟩ := hplace.narrowed h ha he hb
      obtain rfl := hw.bool
      exact ⟨.iteElse hb' hyes hno, (hparts.append (.refl _)).append (.refl _)⟩
  | _, _, .yes hplace, .ite hb hyes => by
      obtain ⟨hyes', hparts⟩ := hplace.narrowed h ha he hyes
      exact ⟨.ite hb hyes', (PartsPersist.append (.refl _) hparts).append (.refl _)⟩
  | _, _, .yes hplace, .iteElse hb hyes hno => by
      obtain ⟨hyes', hparts⟩ := hplace.narrowed h ha he hyes
      exact ⟨.iteElse hb hyes' hno, (PartsPersist.append (.refl _) hparts).append (.refl _)⟩
  | _, _, .no hplace, .iteElse hb hyes hno => by
      obtain ⟨hno', hparts⟩ := hplace.narrowed h ha he hno
      exact ⟨.iteElse hb hyes hno', .append (.refl _) hparts⟩
  | _, _, .guard hplace, .loop hb hbody => by
      obtain ⟨-, ⟨w', hb', hw⟩, hparts⟩ := hplace.narrowed h ha he hb
      obtain rfl := hw.bool
      exact ⟨.loop hb' hbody, hparts.append (.refl _)⟩
  | _, _, .body hplace, .loop hb hbody => by
      obtain ⟨hbody', hparts⟩ := hplace.narrowed h ha he hbody
      exact ⟨.loop hb hbody', .append (.refl _) hparts⟩
  | _, _, .args hplace, .call hf hargs => by
      obtain ⟨-, hargs', hparts⟩ := hplace.narrowed h ha he hargs
      exact ⟨.call hf hargs', .append (.refl [_]) hparts⟩
  | _, _, .read hplace, .read ht => by
      obtain ⟨ht', hparts⟩ := ht.narrowed h ha he hplace
      exact ⟨.read ht', hparts⟩
  | _, _, .write hplace, .write hb => by
      obtain ⟨-, ⟨w', hb', hw⟩, hparts⟩ := hplace.narrowed h ha he hb
      obtain ⟨c, rfl⟩ := hw.basic
      exact ⟨.write hb', hparts⟩
  | _, _, .ret hplace, .retSome hresult hb hσ => by
      obtain ⟨-, ⟨w', hb', hw⟩, hparts⟩ := hplace.narrowed h ha he hb
      obtain ⟨υ, rfl, hυ⟩ := hw.stores hσ
      exact ⟨.retSome hresult hb' hυ, hparts⟩
theorem BlockWithin.narrowed (h : env.Agrees Γ) (ha : ∀ w, HasType Γ a w → w = .float)
    (he : HasType Γ e .int) {result : Option TypeSpec} : ∀ {ss ss' : List Stmt},
      BlockWithin (Expr.Swaps a e) Stmt.stays ss ss' → BlockTyped Γ result ss →
        BlockTyped Γ result ss' ∧
          PartsPersist env a (reachedBlock everyCall ss) (reachedBlock everyCall ss')
  | _, _, .head hplace, .cons hs hrest => by
      obtain ⟨hs', hparts⟩ := hplace.narrowed h ha he hs
      exact ⟨.cons hs' hrest, hparts.append (.refl _)⟩
  | _, _, .tail hplace, .cons hs hrest => by
      obtain ⟨hrest', hparts⟩ := hplace.narrowed h ha he hrest
      exact ⟨.cons hs hrest', .append (.refl _) hparts⟩
end

end

/-! ## Programs -/

/-- The node has the type that it had, unless it is around `a` and has turned from a float into
an integer. -/
def KeepsType (f : Function) (a : Expr) (t v : Tables) (id : NodeId) : Prop :=
  v.annotations.type? id = t.annotations.type? id ∨
    (∃ b, .expr b ∈ f.parts ∧ .expr a ∈ b.reached everyCall ∧ b.node.id = id) ∧
      t.annotations.type? id = some .float ∧ v.annotations.type? id = some .int

namespace Program

variable {p : Program} {c : Config} {t v : Tables} {f : Function} {before after : List Function}
  {body : List Stmt} {a e : Expr}

/-- In an accepted program every part is annotated with the type that it is read as. -/
theorem type?_of_mem_parts (hrun : analyse p c = .ok t) (hok : t.isOk = true)
    (hf : f ∈ p.functions) {part : Part} (hpart : part ∈ f.parts) :
    t.annotations.type? part.id = some (part.type (p.env f)) := by
  have houtcome := outcome_of_analyse hrun
  rw [← (houtcome.isOk_iff.mp hok).reached_eq_parts hf] at hpart
  exact (houtcome.visited hf hpart).1

theorem type?_of_notMem_partIds (hrun : analyse p c = .ok t) {id : NodeId} (hid : id ∉ p.partIds) :
    t.annotations.type? id = none := by
  have hvisits : id ∉ p.visitedIds := fun hmem => hid (p.visitedIds_sublist.subset hmem)
  rw [← (outcome_of_analyse hrun).covers.type] at hvisits
  simpa using hvisits

theorem keepsType_of_persist (hrun : analyse p c = .ok t) (hok : t.isOk = true)
    (hp : p.functions = before ++ f :: after)
    (hrun' : analyse (p.withBody before f after body) c = .ok v) (hok' : v.isOk = true)
    (hspliced : Spliced e.ids p.partIds (p.withBody before f after body).partIds)
    (hparts : PartsPersist (p.env f) a f.parts (reachedBlock everyCall body)) {id : NodeId}
    (hold : id ∉ a.ids) (hnew : id ∉ e.ids) : KeepsType f a t v id := by
  have hbefore {g : Function} (hg : g ∈ p.functions) {part : Part} (hpart : part ∈ g.parts) :
      t.annotations.type? part.id = some (part.type (p.env g)) :=
    type?_of_mem_parts hrun hok hg hpart
  have hafter {g : Function} (hg : g ∈ (p.withBody before f after body).functions) {part : Part}
      (hpart : part ∈ g.parts) : v.annotations.type? part.id = some (part.type (p.env g)) :=
    env_withBody hp g ▸ type?_of_mem_parts hrun' hok' hg hpart
  by_cases hid : id ∈ p.partIds
  · obtain ⟨part, hpart, rfl⟩ := List.mem_map.mp hid
    obtain ⟨g, hg, hpart⟩ := List.mem_flatMap.mp hpart
    have htype := hbefore hg hpart
    rw [hp, List.mem_append, List.mem_cons, or_left_comm] at hg
    rcases hg with rfl | hg
    · obtain hmem | ⟨part', hpart', hpersists⟩ := hparts part hpart
      · exact absurd (List.mem_map_of_mem hmem) hold
      · have htype' : v.annotations.type? part'.id = some (part'.type (p.env g)) :=
          hafter (g := { g with body := body }) (by simp) hpart'
        cases hpersists with
        | same hnode hsame =>
            rw [hnode, hsame] at htype'
            exact .inl (htype'.trans htype.symm)
        | narrowed hnode haround hfloat hint =>
            rw [Part.id, hnode, Part.type, hint] at htype'
            rw [Part.type, hfloat] at htype
            exact .inr ⟨⟨_, hpart, haround, rfl⟩, htype, htype'⟩
    · have hg' : g ∈ (p.withBody before f after body).functions := by
        rcases hg with hg | hg <;> simp [hg]
      exact .inl ((hafter hg' hpart).trans htype.symm)
  · have hid' : id ∉ (p.withBody before f after body).partIds := by
      obtain ⟨pre, old, post, hids, hids'⟩ := hspliced
      simp_all
    exact .inl ((type?_of_notMem_partIds hrun' hid').trans (type?_of_notMem_partIds hrun hid).symm)

theorem Accepted.widen (h : p.Accepted c) (hp : p.functions = before ++ f :: after)
    (hbody : BlockWithin (Expr.Swaps a e) Stmt.stays f.body body) (hids : e.ids.Nodup)
    (hdisjoint : e.ids.Disjoint p.ids) (htyped : BlockTyped (p.context f) f.result body) :
    ∃ v, analyse (p.withBody before f after body) c = .ok v ∧ v.isOk = true := by
  have hapart : e.ids.Disjoint p.partIds :=
    fun id hid hmem => hdisjoint hid (p.partIds_sublist_ids.subset hmem)
  have hnodup := (partIds_swapped hp hbody).nodup h.parts hids hapart
  obtain ⟨v, hv, hfound⟩ := h.analyse_withBody hp hnodup
  have hnone := (found_blockReading_eq_nil_iff (p.env_agrees f) f.result body).mpr htyped
  exact ⟨v, hv, Tables.isOk_iff.mpr (hfound.trans hnone)⟩

end Program

/-- In an accepted program an integer that is not complained about may take the place of any
float. The program stays accepted, and every other node keeps its type, unless it is around
the place and turns from a float into an integer. -/
theorem integers_may_replace_floats {p : Program} {c : Config} {t : Tables}
    (hrun : analyse p c = .ok t) (hok : t.isOk = true) {f : Function}
    {before after : List Function} (hp : p.functions = before ++ f :: after) {a e : Expr}
    (ha : .expr a ∈ f.parts) (hfloat : t.annotations.type? a.node.id = some .float)
    (hids : e.ids.Nodup) (hdisjoint : e.ids.Disjoint p.ids) {u u' : Tables}
    (henv : ∀ x, u.symbols.find? x = p.env f x)
    (hfresh : ∀ node ∈ e.ids, u.annotations.get? node = none)
    (hcheck : checkExpr e u = .ok .int u')
    (hclean : u'.diagnostics.toList = u.diagnostics.toList) :
    (∃ body, BlockWithin (Expr.Swaps a e) Stmt.stays f.body body) ∧
      ∀ body, BlockWithin (Expr.Swaps a e) Stmt.stays f.body body →
        ∃ v, analyse (p.withBody before f after body) c = .ok v ∧ v.isOk = true ∧
          ∀ id, id ∉ a.ids → id ∉ e.ids → KeepsType f a t v id := by
  have haccepted := Program.accepted_of_analyse hrun hok
  have hagrees := p.env_agrees f
  have hf : f ∈ p.functions := by simp [hp]
  have hnarrow (w : Written) (hw : HasType (p.context f) a w) : w = .float := by
    have htype := (Program.type?_of_mem_parts hrun hok hf ha).symm.trans hfloat
    rw [Option.some.injEq, Part.type, (hw.readsAs hagrees).type] at htype
    exact Written.type_eq_float_iff.mp htype
  have hint : HasType (p.context f) e .int := by
    obtain ⟨u₂, halone, hfound⟩ := checkExpr_alone henv hids hfresh
    obtain ⟨htype, rfl⟩ : .int = e.type (p.env f) ∧ u' = u₂ := by simpa [hcheck] using halone
    have hnone : (e.reading (p.env f)).found = [] := by simpa [hclean] using hfound
    obtain ⟨w, hw, hwtype⟩ := e.typed_of_found hagrees hnone
    have hwint : w.type.isInt = true := by rw [← hwtype, ← htype]; rfl
    exact Written.isInt_type_iff.mp hwint ▸ hw
  refine ⟨exists_swapped ha e, fun body hbody => ?_⟩
  obtain ⟨htyped, hparts⟩ :=
    hbody.narrowed hagrees hnarrow hint (haccepted.wellTyped.bodies f hf)
  obtain ⟨v, hv, hvok⟩ := haccepted.widen hp hbody hids hdisjoint htyped
  have hspliced := Program.partIds_swapped hp hbody
  refine ⟨v, hv, hvok, fun id hold hnew => ?_⟩
  exact Program.keepsType_of_persist hrun hok hp hv hvok hspliced hparts hold hnew

/-- In `half` the number that is divided becomes a literal. -/
theorem halving_an_integer :
    let half : Function := halving.functions.head (by decide)
    let start : Function := halving.functions.getLast (by decide)
    let seven : Expr := .lit ⟨800, halving.loc⟩ (.int 7)
    ∃ a body, BlockWithin (Expr.Swaps a seven) Stmt.stays half.body body ∧
      ∃ t v, analyse halving {} = .ok t ∧ t.annotations.type? a.node.id = some .float ∧
        analyse (halving.withBody [] half [start] body) {} = .ok v ∧ v.isOk = true ∧
          ∀ id, id ∉ a.ids → id ∉ seven.ids → KeepsType half a t v id := by
  intro half start seven
  let inside : Tables := { symbols := { scopes := #[halving.scope, half.scope], stack := [1, 0] } }
  obtain ⟨t, hrun, hok⟩ := halving_accepted
  have hfunctions : halving.functions = [] ++ half :: [start] := rfl
  obtain ⟨a, ha, hnode⟩ : ∃ a, .expr a ∈ half.parts ∧ a.node.id = 1 :=
    ⟨_, List.mem_of_getElem? (i := 1) rfl, rfl⟩
  have hfloat : t.annotations.type? a.node.id = some .float := by
    have htype : ((analyse halving {}).toOption.bind fun t => t.annotations.type? 1) =
        some .float := by
      decide +kernel
    rw [hrun] at htype
    exact hnode ▸ htype
  have hapart : seven.ids.Disjoint halving.ids := by
    have hold : ∀ id ∈ halving.ids, id ≠ 800 := by decide
    intro id hid hmem
    exact hold id hmem (List.mem_singleton.mp hid)
  have henv : ∀ x, inside.symbols.find? x = halving.env half x :=
    @find?_eq_env halving half inside.symbols 0 1 rfl rfl rfl
  have hfresh : ∀ node ∈ seven.ids, inside.annotations.get? node = none :=
    fun node _ => Annotations.get?_empty node
  have hids : seven.ids.Nodup := List.nodup_singleton 800
  obtain ⟨u, hcheck, hfound⟩ := checkExpr_alone henv hids hfresh
  obtain ⟨⟨body, hbody⟩, hswapped⟩ :=
    integers_may_replace_floats hrun hok hfunctions ha hfloat hids hapart henv hfresh hcheck hfound
  obtain ⟨v, hv, hvok, hkeeps⟩ := hswapped body hbody
  exact ⟨a, body, hbody, t, v, hrun, hfloat, hv, hvok, hkeeps⟩

end Asl
