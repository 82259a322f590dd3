import Asl.Proofs.Part
import Mathlib.Data.List.Nodup

/-!
# Replacing one occurrence

Two trees that differ in one place are related by what stands there in each. The place may
be anywhere: the relations below have one rule for each position that an expression or a
statement can hold another in, and every part of a tree is found at such a place.
-/

namespace Asl

mutual
/-- The expressions differ in one place, where `R` relates what stands there. -/
inductive Expr.Within (R : Expr → Expr → Prop) : Expr → Expr → Prop where
  | here {e e' : Expr} : R e e' → Expr.Within R e e'
  | paren {n : Node} {e e' : Expr} :
      Expr.Within R e e' → Expr.Within R (.paren n e) (.paren n e')
  | index {n : Node} {x : Ident} {e e' : Expr} :
      Expr.Within R e e' → Expr.Within R (.index n x e) (.index n x e')
  | call {n : Node} {f : Ident} {args args' : List Expr} :
      ArgsWithin R args args' → Expr.Within R (.call n f args) (.call n f args')
  | unary {n : Node} {op : UnaryOp} {e e' : Expr} :
      Expr.Within R e e' → Expr.Within R (.unary n op e) (.unary n op e')
  | left {n : Node} {op : BinaryOp} {l l' r : Expr} :
      Expr.Within R l l' → Expr.Within R (.binary n op l r) (.binary n op l' r)
  | right {n : Node} {op : BinaryOp} {l r r' : Expr} :
      Expr.Within R r r' → Expr.Within R (.binary n op l r) (.binary n op l r')
inductive ArgsWithin (R : Expr → Expr → Prop) : List Expr → List Expr → Prop where
  | head {e e' : Expr} {rest : List Expr} :
      Expr.Within R e e' → ArgsWithin R (e :: rest) (e' :: rest)
  | tail {e : Expr} {rest rest' : List Expr} :
      ArgsWithin R rest rest' → ArgsWithin R (e :: rest) (e :: rest')
end

mutual
/-- The statements differ in one place, where `R` relates two expressions or `S` two
statements. -/
inductive Stmt.Within (R : Expr → Expr → Prop) (S : Stmt → Stmt → Prop) :
    Stmt → Stmt → Prop where
  | here {s s' : Stmt} : S s s' → Stmt.Within R S s s'
  | subscript {loc : Location} {n : Node} {x : Ident} {e e' value : Expr} :
      Expr.Within R e e' →
        Stmt.Within R S (.assign loc ⟨n, x, some e⟩ value) (.assign loc ⟨n, x, some e'⟩ value)
  | value {loc : Location} {target : Target} {e e' : Expr} :
      Expr.Within R e e' → Stmt.Within R S (.assign loc target e) (.assign loc target e')
  | condition {loc : Location} {e e' : Expr} {yes : List Stmt} {no : Option (List Stmt)} :
      Expr.Within R e e' → Stmt.Within R S (.ite loc e yes no) (.ite loc e' yes no)
  | yes {loc : Location} {e : Expr} {yes yes' : List Stmt} {no : Option (List Stmt)} :
      BlockWithin R S yes yes' → Stmt.Within R S (.ite loc e yes no) (.ite loc e yes' no)
  | no {loc : Location} {e : Expr} {yes no no' : List Stmt} :
      BlockWithin R S no no' →
        Stmt.Within R S (.ite loc e yes (some no)) (.ite loc e yes (some no'))
  | guard {loc : Location} {e e' : Expr} {body : List Stmt} :
      Expr.Within R e e' → Stmt.Within R S (.loop loc e body) (.loop loc e' body)
  | body {loc : Location} {e : Expr} {body body' : List Stmt} :
      BlockWithin R S body body' → Stmt.Within R S (.loop loc e body) (.loop loc e body')
  | args {loc : Location} {f : Ident} {args args' : List Expr} :
      ArgsWithin R args args' → Stmt.Within R S (.call loc f args) (.call loc f args')
  | read {loc : Location} {n : Node} {x : Ident} {e e' : Expr} :
      Expr.Within R e e' →
        Stmt.Within R S (.read loc ⟨n, x, some e⟩) (.read loc ⟨n, x, some e'⟩)
  | write {loc : Location} {e e' : Expr} :
      Expr.Within R e e' → Stmt.Within R S (.write loc e) (.write loc e')
  | ret {loc : Location} {e e' : Expr} :
      Expr.Within R e e' → Stmt.Within R S (.ret loc (some e)) (.ret loc (some e'))
inductive BlockWithin (R : Expr → Expr → Prop) (S : Stmt → Stmt → Prop) :
    List Stmt → List Stmt → Prop where
  | head {s s' : Stmt} {rest : List Stmt} :
      Stmt.Within R S s s' → BlockWithin R S (s :: rest) (s' :: rest)
  | tail {s : Stmt} {rest rest' : List Stmt} :
      BlockWithin R S rest rest' → BlockWithin R S (s :: rest) (s :: rest')
end

variable {R : Expr → Expr → Prop} {S : Stmt → Stmt → Prop}

theorem ArgsWithin.length_eq :
    ∀ {args args' : List Expr}, ArgsWithin R args args' → args'.length = args.length
  | _, _, .head _ => rfl
  | _, _, .tail h => congrArg Nat.succ h.length_eq

/-- The parts that belong to an expression itself and not to one inside it. -/
def Expr.own : Expr → List Part
  | .var n x => [.name .plain x, .expr (.var n x)]
  | .index n x e => [.name .plain x, .expr (.index n x e)]
  | .call n f args => [.name .called f, .expr (.call n f args)]
  | e => [.expr e]

def Stmt.own : Stmt → List Part
  | .assign _ target _ | .read _ target => [.name .plain target.ident, .target target]
  | .call _ f _ => [.name .called f]
  | _ => []

section

variable {part : Part}

mutual
theorem Expr.exists_within (hR : ∀ e : Expr, part ∈ e.own → ∃ e', R e e') :
    ∀ e : Expr, part ∈ e.reached everyCall → ∃ e', Expr.Within R e e'
  | .lit n v, h => by
      obtain ⟨e', he⟩ := hR (.lit n v) h
      exact ⟨e', .here he⟩
  | .var n x, h => by
      obtain ⟨e', he⟩ := hR (.var n x) h
      exact ⟨e', .here he⟩
  | .paren n e, h => by
      rcases List.mem_append.mp h with h | h
      · obtain ⟨e', he⟩ := e.exists_within hR h
        exact ⟨_, .paren he⟩
      · obtain ⟨e', he⟩ := hR (.paren n e) h
        exact ⟨e', .here he⟩
  | .index n x e, h => by
      by_cases hown : part ∈ (Expr.index n x e).own
      · obtain ⟨e', he⟩ := hR _ hown
        exact ⟨e', .here he⟩
      · obtain ⟨e', he⟩ := e.exists_within hR (by simp_all [Expr.reached, Expr.own])
        exact ⟨_, .index he⟩
  | .call n f args, h => by
      by_cases hown : part ∈ (Expr.call n f args).own
      · obtain ⟨e', he⟩ := hR _ hown
        exact ⟨e', .here he⟩
      · obtain ⟨args', hargs⟩ :=
          exists_argsWithin hR args (by simp_all [Expr.reached, Expr.own, everyCall])
        exact ⟨_, .call hargs⟩
  | .unary n op e, h => by
      rcases List.mem_append.mp h with h | h
      · obtain ⟨e', he⟩ := e.exists_within hR h
        exact ⟨_, .unary he⟩
      · obtain ⟨e', he⟩ := hR (.unary n op e) h
        exact ⟨e', .here he⟩
  | .binary n op l r, h => by
      rcases List.mem_append.mp h with h | h
      · rcases List.mem_append.mp h with h | h
        · obtain ⟨l', hl⟩ := l.exists_within hR h
          exact ⟨_, .left hl⟩
        · obtain ⟨r', hr⟩ := r.exists_within hR h
          exact ⟨_, .right hr⟩
      · obtain ⟨e', he⟩ := hR (.binary n op l r) h
        exact ⟨e', .here he⟩
theorem exists_argsWithin (hR : ∀ e : Expr, part ∈ e.own → ∃ e', R e e') :
    ∀ es : List Expr, part ∈ reachedExprs everyCall es → ∃ es', ArgsWithin R es es'
  | [], h => by cases h
  | e :: rest, h => by
      rcases List.mem_append.mp h with h | h
      · obtain ⟨e', he⟩ := e.exists_within hR h
        exact ⟨_, .head he⟩
      · obtain ⟨rest', hrest⟩ := exists_argsWithin hR rest h
        exact ⟨_, .tail hrest⟩
end

mutual
theorem Stmt.exists_within (hR : ∀ e : Expr, part ∈ e.own → ∃ e', R e e')
    (hS : ∀ s : Stmt, part ∈ s.own → ∃ s', S s s') :
    ∀ s : Stmt, part ∈ s.reached everyCall → ∃ s', Stmt.Within R S s s'
  | .assign loc ⟨n, x, subscript⟩ value, h => by
      rcases List.mem_append.mp h with h | h
      · by_cases hown : part ∈ (Stmt.assign loc ⟨n, x, subscript⟩ value).own
        · obtain ⟨s', hs⟩ := hS _ hown
          exact ⟨s', .here hs⟩
        · cases subscript with
          | none => simp_all [Target.reached, Stmt.own]
          | some e =>
              obtain ⟨e', he⟩ := e.exists_within hR (by simp_all [Target.reached, Stmt.own])
              exact ⟨_, .subscript he⟩
      · obtain ⟨e', he⟩ := value.exists_within hR h
        exact ⟨_, .value he⟩
  | .ite loc condition yes none, h => by
      simp only [Stmt.reached, List.append_nil] at h
      rcases List.mem_append.mp h with h | h
      · obtain ⟨e', he⟩ := condition.exists_within hR h
        exact ⟨_, .condition he⟩
      · obtain ⟨yes', hyes⟩ := exists_blockWithin hR hS yes h
        exact ⟨_, .yes hyes⟩
  | .ite loc condition yes (some no), h => by
      rcases List.mem_append.mp h with h | h
      · rcases List.mem_append.mp h with h | h
        · obtain ⟨e', he⟩ := condition.exists_within hR h
          exact ⟨_, .condition he⟩
        · obtain ⟨yes', hyes⟩ := exists_blockWithin hR hS yes h
          exact ⟨_, .yes hyes⟩
      · obtain ⟨no', hno⟩ := exists_blockWithin hR hS no h
        exact ⟨_, .no hno⟩
  | .loop loc condition body, h => by
      rcases List.mem_append.mp h with h | h
      · obtain ⟨e', he⟩ := condition.exists_within hR h
        exact ⟨_, .guard he⟩
      · obtain ⟨body', hbody⟩ := exists_blockWithin hR hS body h
        exact ⟨_, .body hbody⟩
  | .call loc f args, h => by
      rcases List.mem_cons.mp h with rfl | h
      · obtain ⟨s', hs⟩ := hS (.call loc f args) (by simp [Stmt.own])
        exact ⟨s', .here hs⟩
      · obtain ⟨args', hargs⟩ := exists_argsWithin hR args h
        exact ⟨_, .args hargs⟩
  | .read loc ⟨n, x, subscript⟩, h => by
      by_cases hown : part ∈ (Stmt.read loc ⟨n, x, subscript⟩).own
      · obtain ⟨s', hs⟩ := hS _ hown
        exact ⟨s', .here hs⟩
      · cases subscript with
        | none => simp_all [Stmt.reached, Target.reached, Stmt.own]
        | some e =>
            obtain ⟨e', he⟩ :=
              e.exists_within hR (by simp_all [Stmt.reached, Target.reached, Stmt.own])
            exact ⟨_, .read he⟩
  | .write loc value, h => by
      obtain ⟨e', he⟩ := value.exists_within hR h
      exact ⟨_, .write he⟩
  | .print _ _, h => by cases h
  | .ret _ none, h => by cases h
  | .ret loc (some value), h => by
      obtain ⟨e', he⟩ := value.exists_within hR h
      exact ⟨_, .ret he⟩
theorem exists_blockWithin (hR : ∀ e : Expr, part ∈ e.own → ∃ e', R e e')
    (hS : ∀ s : Stmt, part ∈ s.own → ∃ s', S s s') :
    ∀ ss : List Stmt, part ∈ reachedBlock everyCall ss → ∃ ss', BlockWithin R S ss ss'
  | [], h => by cases h
  | s :: rest, h => by
      rcases List.mem_append.mp h with h | h
      · obtain ⟨s', hs⟩ := s.exists_within hR hS h
        exact ⟨_, .head hs⟩
      · obtain ⟨rest', hrest⟩ := exists_blockWithin hR hS rest h
        exact ⟨_, .tail hrest⟩
end

end

def Expr.ids (e : Expr) : List NodeId := (e.reached everyCall).map Part.id

def Stmt.ids (s : Stmt) : List NodeId := (s.reached everyCall).map Part.id

def exprIds (es : List Expr) : List NodeId := (reachedExprs everyCall es).map Part.id

def blockIds (ss : List Stmt) : List NodeId := (reachedBlock everyCall ss).map Part.id

section

variable {Q : List NodeId → List NodeId → Prop}

/-- What relates the identities at a place relates those around it. -/
def Surrounds (Q : List NodeId → List NodeId → Prop) : Prop :=
  ∀ before after {ids ids'}, Q ids ids' → Q (before ++ ids ++ after) (before ++ ids' ++ after)

mutual
theorem Expr.Within.ids (hQ : Surrounds Q) (hR : ∀ {e e'}, R e e' → Q e.ids e'.ids) :
    ∀ {e e' : Expr}, Expr.Within R e e' → Q e.ids e'.ids
  | _, _, .here h => hR h
  | _, _, .paren (n := n) h | _, _, .unary (n := n) h => by
      simpa [Expr.ids, Expr.reached, Part.id, Expr.node] using hQ [] [n.id] (h.ids hQ hR)
  | _, _, .index (n := n) (x := x) h => by
      simpa [Expr.ids, Expr.reached, Part.id, Expr.node] using hQ [x.id] [n.id] (h.ids hQ hR)
  | _, _, .call (n := n) (f := f) h => by
      simpa [Expr.ids, Expr.reached, Part.id, Expr.node, everyCall, exprIds] using
        hQ [f.id] [n.id] (h.ids hQ hR)
  | _, _, .left (n := n) (r := r) h => by
      simpa [Expr.ids, Expr.reached, Part.id, Expr.node] using
        hQ [] (r.ids ++ [n.id]) (h.ids hQ hR)
  | _, _, .right (n := n) (l := l) h => by
      simpa [Expr.ids, Expr.reached, Part.id, Expr.node] using hQ l.ids [n.id] (h.ids hQ hR)
theorem ArgsWithin.ids (hQ : Surrounds Q) (hR : ∀ {e e'}, R e e' → Q e.ids e'.ids) :
    ∀ {es es' : List Expr}, ArgsWithin R es es' → Q (exprIds es) (exprIds es')
  | _, _, @ArgsWithin.head _ _ _ rest h => by
      simpa [Expr.ids, exprIds, reachedExprs] using hQ [] (exprIds rest) (h.ids hQ hR)
  | _, _, .tail (e := e) h => by
      simpa [Expr.ids, exprIds, reachedExprs] using hQ e.ids [] (h.ids hQ hR)
end

theorem Target.ids_subscript_within (hQ : Surrounds Q) {n : Node} {x : Ident} {e e' : Expr}
    (h : Q e.ids e'.ids) (after : List NodeId) :
    Q (((Target.reached everyCall ⟨n, x, some e⟩).map Part.id) ++ after)
      (((Target.reached everyCall ⟨n, x, some e'⟩).map Part.id) ++ after) := by
  simpa [Target.reached, Expr.ids, Part.id] using hQ [x.id] (n.id :: after) h

/-- The branch that may be absent. -/
def elseIds : Option (List Stmt) → List NodeId
  | none => []
  | some no => blockIds no

theorem Stmt.ids_ite (loc : Location) (e : Expr) (yes : List Stmt) (no : Option (List Stmt)) :
    (Stmt.ite loc e yes no).ids = e.ids ++ (blockIds yes ++ elseIds no) := by
  cases no <;> simp [Stmt.ids, Stmt.reached, Expr.ids, blockIds, elseIds]

mutual
theorem Stmt.Within.ids (hQ : Surrounds Q) (hR : ∀ {e e'}, R e e' → Q e.ids e'.ids)
    (hS : ∀ {s s'}, S s s' → Q s.ids s'.ids) :
    ∀ {s s' : Stmt}, Stmt.Within R S s s' → Q s.ids s'.ids
  | _, _, .here h => hS h
  | _, _, @Stmt.Within.subscript _ _ _ _ _ _ _ value h => by
      simpa [Stmt.ids, Stmt.reached, Expr.ids] using
        Target.ids_subscript_within hQ (h.ids hQ hR) value.ids
  | _, _, @Stmt.Within.value _ _ _ target _ _ h => by
      simpa [Stmt.ids, Stmt.reached, Expr.ids] using
        hQ ((target.reached everyCall).map Part.id) [] (h.ids hQ hR)
  | _, _, @Stmt.Within.condition _ _ _ _ _ yes no h => by
      simpa [Stmt.ids_ite] using hQ [] (blockIds yes ++ elseIds no) (h.ids hQ hR)
  | _, _, @Stmt.Within.yes _ _ _ e _ _ no h => by
      simpa [Stmt.ids_ite] using hQ e.ids (elseIds no) (h.ids hQ hR hS)
  | _, _, @Stmt.Within.no _ _ _ e yes _ _ h => by
      simpa [Stmt.ids_ite, elseIds] using hQ (e.ids ++ blockIds yes) [] (h.ids hQ hR hS)
  | _, _, @Stmt.Within.guard _ _ _ _ _ body h => by
      simpa [Stmt.ids, Stmt.reached, Expr.ids, blockIds] using hQ [] (blockIds body) (h.ids hQ hR)
  | _, _, @Stmt.Within.body _ _ _ e _ _ h => by
      simpa [Stmt.ids, Stmt.reached, Expr.ids, blockIds] using hQ e.ids [] (h.ids hQ hR hS)
  | _, _, @Stmt.Within.args _ _ _ f _ _ h => by
      simpa [Stmt.ids, Stmt.reached, exprIds, Part.id] using hQ [f.id] [] (h.ids hQ hR)
  | _, _, .read h => by
      simpa [Stmt.ids, Stmt.reached] using Target.ids_subscript_within hQ (h.ids hQ hR) []
  | _, _, .write h | _, _, .ret h => by
      simpa [Stmt.ids, Stmt.reached, Expr.ids] using h.ids hQ hR
theorem BlockWithin.ids (hQ : Surrounds Q) (hR : ∀ {e e'}, R e e' → Q e.ids e'.ids)
    (hS : ∀ {s s'}, S s s' → Q s.ids s'.ids) :
    ∀ {ss ss' : List Stmt}, BlockWithin R S ss ss' → Q (blockIds ss) (blockIds ss')
  | _, _, @BlockWithin.head _ _ _ _ rest h => by
      simpa [Stmt.ids, blockIds, reachedBlock] using hQ [] (blockIds rest) (h.ids hQ hR hS)
  | _, _, @BlockWithin.tail _ _ s _ _ h => by
      simpa [Stmt.ids, blockIds, reachedBlock] using hQ s.ids [] (h.ids hQ hR hS)
end

end

/-- One expression stands for another. -/
def Expr.Swaps (a b : Expr) : Expr → Expr → Prop := fun e e' => e = a ∧ e' = b

/-- The same occurrence, of another name. -/
def Ident.named (x : Ident) (y : String) : Ident := { x with name := y }

/-- The occurrence `x` in an expression itself is of the name `y` instead. -/
inductive Expr.Renames (x : Ident) (y : String) : Expr → Expr → Prop where
  | var (n : Node) : Renames x y (.var n x) (.var n (x.named y))
  | index (n : Node) (e : Expr) : Renames x y (.index n x e) (.index n (x.named y) e)
  | call (n : Node) (args : List Expr) : Renames x y (.call n x args) (.call n (x.named y) args)

inductive Stmt.Renames (x : Ident) (y : String) : Stmt → Stmt → Prop where
  | assign (loc : Location) (n : Node) (subscript : Option Expr) (value : Expr) :
      Renames x y (.assign loc ⟨n, x, subscript⟩ value)
        (.assign loc ⟨n, x.named y, subscript⟩ value)
  | read (loc : Location) (n : Node) (subscript : Option Expr) :
      Renames x y (.read loc ⟨n, x, subscript⟩) (.read loc ⟨n, x.named y, subscript⟩)
  | call (loc : Location) (args : List Expr) :
      Renames x y (.call loc x args) (.call loc (x.named y) args)

/-- Nothing but expressions is replaced. -/
def Stmt.stays : Stmt → Stmt → Prop := fun _ _ => False

theorem exists_swapped {a : Expr} {body : List Stmt}
    (h : .expr a ∈ reachedBlock everyCall body) (b : Expr) :
    ∃ body', BlockWithin (Expr.Swaps a b) Stmt.stays body body' := by
  have hexpr : ∀ e : Expr, .expr a ∈ e.own → ∃ e', Expr.Swaps a b e e' := by
    intro e he
    have heq : a = e := by cases e <;> simpa [Expr.own] using he
    exact ⟨b, heq.symm, rfl⟩
  have hstmt : ∀ s : Stmt, .expr a ∈ s.own → ∃ s', s.stays s' := by
    intro s hs
    cases s <;> simp [Stmt.own] at hs
  exact exists_blockWithin hexpr hstmt body h

theorem exists_renamed {use : Use} {x : Ident} {body : List Stmt}
    (h : .name use x ∈ reachedBlock everyCall body) (y : String) :
    ∃ body', BlockWithin (Expr.Renames x y) (Stmt.Renames x y) body body' := by
  refine exists_blockWithin (fun e he => ?_) (fun s hs => ?_) body h
  · cases e with
    | var n z =>
        obtain ⟨-, rfl⟩ : use = .plain ∧ x = z := by simpa [Expr.own] using he
        exact ⟨_, .var n⟩
    | index n z e =>
        obtain ⟨-, rfl⟩ : use = .plain ∧ x = z := by simpa [Expr.own] using he
        exact ⟨_, .index n e⟩
    | call n f args =>
        obtain ⟨-, rfl⟩ : use = .called ∧ x = f := by simpa [Expr.own] using he
        exact ⟨_, .call n args⟩
    | lit | paren | unary | binary => simp [Expr.own] at he
  · cases s with
    | assign loc target value =>
        obtain ⟨n, z, subscript⟩ := target
        obtain ⟨-, rfl⟩ : use = .plain ∧ x = z := by simpa [Stmt.own] using hs
        exact ⟨_, .assign loc n subscript value⟩
    | read loc target =>
        obtain ⟨n, z, subscript⟩ := target
        obtain ⟨-, rfl⟩ : use = .plain ∧ x = z := by simpa [Stmt.own] using hs
        exact ⟨_, .read loc n subscript⟩
    | call loc f args =>
        obtain ⟨-, rfl⟩ : use = .called ∧ x = f := by simpa [Stmt.own] using hs
        exact ⟨_, .call loc args⟩
    | ite | loop | write | print | ret => simp [Stmt.own] at hs

theorem Expr.Renames.ids {x : Ident} {y : String} {e e' : Expr} (h : Expr.Renames x y e e') :
    e'.ids = e.ids := by
  cases h <;> simp [Expr.ids, Expr.reached, everyCall, Part.id, Expr.node, Ident.named]

theorem Stmt.Renames.ids {x : Ident} {y : String} {s s' : Stmt} (h : Stmt.Renames x y s s') :
    s'.ids = s.ids := by
  cases h <;> simp [Stmt.ids, Stmt.reached, Target.reached, Part.id, Ident.named]

/-- Identities `new` stand where others stood. -/
def Spliced (new ids ids' : List NodeId) : Prop :=
  ∃ before old after, ids = before ++ old ++ after ∧ ids' = before ++ new ++ after

theorem spliced_surrounds (new : List NodeId) : Surrounds (Spliced new) := by
  rintro before after _ _ ⟨before', old, after', rfl, rfl⟩
  exact ⟨before ++ before', old, after' ++ after, by simp, by simp⟩

theorem Spliced.nodup {new ids ids' : List NodeId} (h : Spliced new ids ids') (hids : ids.Nodup)
    (hnew : new.Nodup) (hdisjoint : new.Disjoint ids) : ids'.Nodup := by
  obtain ⟨before, old, after, rfl, rfl⟩ := h
  have hbefore : ∀ id ∈ new, id ∉ before := by
    intro id hid hmem
    exact hdisjoint hid (by simp [hmem])
  have hafter : ∀ id ∈ new, id ∉ after := by
    intro id hid hmem
    exact hdisjoint hid (by simp [hmem])
  simp only [List.nodup_append, List.mem_append] at hids ⊢
  grind

end Asl
