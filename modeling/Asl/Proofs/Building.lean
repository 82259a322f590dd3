import Asl.Proofs.Outcome
import Mathlib.Data.List.Flatten
import Mathlib.Data.List.Perm.Basic

/-!
# The numbers of a built tree

A builder hands out numbers one after the other, and each goes into the piece that is being
made. As long as no piece is put into two others, the pieces at hand hold every number that
has been handed out, each exactly once. So no node comes twice in a built tree, and neither
pass over a built program meets a fault. The numbers also tell above from below: a node is
numbered after all that stands below it, but for the name it holds itself, which comes next.
-/

namespace Asl

/-- A node by its number, with that of the name it holds itself and those of all other nodes
below it. -/
structure Holder where
  id : NodeId
  own : Option NodeId := none
  below : List NodeId := []

/-- The name comes right after its node, everything else before it. -/
structure Holder.InOrder (h : Holder) : Prop where
  own : ∀ id, h.own = some id → id = h.id + 1
  below : ∀ id ∈ h.below, id < h.id

namespace Expr

def ownName? : Expr → Option Ident
  | var _ x | index _ x _ | call _ x _ => some x
  | _ => none

def operands : Expr → List Expr
  | lit _ _ | var _ _ => []
  | paren _ e | index _ _ e | unary _ _ e => [e]
  | call _ _ args => args
  | binary _ _ l r => [l, r]

end Expr

def Ident.holder (x : Ident) : Holder := ⟨x.id, none, []⟩

def Part.holder : Part → Holder
  | expr e =>
      ⟨e.node.id, e.ownName?.map fun x => x.id, (reachedExprs everyCall e.operands).map Part.id⟩
  | target t =>
      ⟨t.id, some t.ident.id, (t.subscript.elim [] (Expr.reached everyCall)).map Part.id⟩
  | name _ x => x.holder

@[simp] theorem Part.id_holder (part : Part) : part.holder.id = part.id := by
  cases part <;> rfl

@[simp] theorem Part.holder_name (use : Use) (x : Ident) : (name use x).holder = x.holder := rfl

/-- The parts of an expression are its name, the parts of its operands and itself. -/
theorem Expr.holders_eq (e : Expr) :
    (e.reached everyCall).map Part.holder =
      e.ownName?.toList.map Ident.holder ++ (reachedExprs everyCall e.operands).map Part.holder ++
        [(Part.expr e).holder] := by
  cases e <;> simp [Expr.reached, Expr.ownName?, Expr.operands, reachedExprs, everyCall]

theorem Target.holders_eq (t : Target) :
    (t.reached everyCall).map Part.holder =
      t.ident.holder :: (t.subscript.elim [] (Expr.reached everyCall)).map Part.holder ++
        [(Part.target t).holder] := by
  simp [Target.reached]

namespace Function

/-- All nodes of a function but itself and its name. -/
def inner (f : Function) : List Holder :=
  f.params.map (fun p => p.name.holder) ++ f.vars.flatMap (fun d => d.names.map Ident.holder) ++
    f.parts.map Part.holder

def holders (f : Function) : List Holder :=
  ⟨f.id, some f.name.id, f.inner.map Holder.id⟩ :: f.name.holder :: f.inner

theorem map_id_holders (f : Function) : f.holders.map Holder.id = f.ids := by
  simp [holders, inner, ids, Ident.holder, List.map_flatMap, Function.comp_def]

end Function

namespace Program

def holders (p : Program) : List Holder :=
  ⟨p.id, none, p.functions.flatMap Function.ids⟩ :: p.functions.flatMap Function.holders

theorem map_id_holders (p : Program) : p.holders.map Holder.id = p.ids := by
  simp [holders, ids, List.map_flatMap, Function.map_id_holders]

end Program

/-- What a builder gives out. -/
inductive Piece where
  | ident (x : Ident)
  | expr (e : Expr)
  | target (t : Target)
  | stmt (s : Stmt)
  | param (p : Param)
  | vars (d : VarDecl)
  | function (f : Function)
  | program (p : Program)

namespace Piece

def holders : Piece → List Holder
  | ident x => [x.holder]
  | expr e => (e.reached everyCall).map Part.holder
  | target t => (t.reached everyCall).map Part.holder
  | stmt s => (s.reached everyCall).map Part.holder
  | param p => [p.name.holder]
  | vars d => d.names.map Ident.holder
  | function f => f.holders
  | program p => p.holders

def ids (piece : Piece) : List NodeId := piece.holders.map Holder.id

theorem flatMap_ids (pieces : List Piece) :
    pieces.flatMap ids = (pieces.flatMap holders).map Holder.id := by
  rw [List.map_flatMap]
  rfl

@[simp] theorem flatMap_holders_expr (es : List Expr) :
    (es.map expr).flatMap holders = (reachedExprs everyCall es).map Part.holder := by
  induction es with
  | nil => rfl
  | cons e rest ih => simp [reachedExprs, ih, holders]

theorem flatMap_ids_expr (es : List Expr) :
    (es.map expr).flatMap ids = (reachedExprs everyCall es).map Part.id := by
  simp [flatMap_ids]

@[simp] theorem flatMap_holders_stmt (ss : List Stmt) :
    (ss.map stmt).flatMap holders = (reachedBlock everyCall ss).map Part.holder := by
  induction ss with
  | nil => rfl
  | cons s rest ih => simp [reachedBlock, ih, holders]

@[simp] theorem flatMap_holders_param (ps : List Param) :
    (ps.map param).flatMap holders = ps.map fun p => p.name.holder := by
  induction ps with
  | nil => rfl
  | cons p rest ih => simp [ih, holders]

@[simp] theorem flatMap_holders_vars (ds : List VarDecl) :
    (ds.map vars).flatMap holders = ds.flatMap fun d => d.names.map Ident.holder := by
  rw [List.flatMap_map]
  rfl

@[simp] theorem flatMap_holders_function (fs : List Function) :
    (fs.map function).flatMap holders = fs.flatMap Function.holders := by
  rw [List.flatMap_map]
  rfl

end Piece

namespace Build

/-- A call of a builder, with the pieces that it takes. -/
inductive Call where
  | ident (name : String)
  | lit (value : Literal)
  | var (name : String)
  | paren (inner : Expr)
  | index (array : String) (subscript : Expr)
  | call (callee : String) (args : List Expr)
  | unary (op : UnaryOp) (operand : Expr)
  | binary (op : BinaryOp) (left right : Expr)
  | target (name : String) (subscript : Option Expr)
  | assign (target : Target) (value : Expr)
  | ite (condition : Expr) (yes : List Stmt) (no : Option (List Stmt))
  | loop (condition : Expr) (body : List Stmt)
  | procedureCall (callee : String) (args : List Expr)
  | read (target : Target)
  | write (value : Expr)
  | print (text : String)
  | ret (value : Option Expr)
  | param (name : String) (spec : TypeSpec)
  | vars (names : List String) (spec : TypeSpec)
  | function (name : String) (params : List Param) (result : Option TypeSpec)
      (vars : List VarDecl) (body : List Stmt)
  | program (functions : List Function)

namespace Call

def uses : Call → List Piece
  | ident _ | lit _ | var _ | print _ | param _ _ | vars _ _ => []
  | paren e | index _ e | unary _ e | write e => [.expr e]
  | call _ args | procedureCall _ args => args.map .expr
  | binary _ l r => [.expr l, .expr r]
  | target _ subscript => subscript.toList.map .expr
  | assign t e => [.target t, .expr e]
  | ite e yes no => .expr e :: yes.map .stmt ++ (no.getD []).map .stmt
  | loop e body => .expr e :: body.map .stmt
  | read t => [.target t]
  | ret value => value.toList.map .expr
  | function _ params _ ds body => params.map .param ++ ds.map .vars ++ body.map .stmt
  | program functions => functions.map .function

def make : Call → Build Piece
  | ident name => return .ident (← Build.ident name)
  | lit value => return .expr (← Build.lit value)
  | var name => return .expr (← Build.var name)
  | paren e => return .expr (← Build.paren e)
  | index array e => return .expr (← Build.index array e)
  | call callee args => return .expr (← Build.call callee args)
  | unary op e => return .expr (← Build.unary op e)
  | binary op l r => return .expr (← Build.binary op l r)
  | target name subscript => return .target (← Build.target name subscript)
  | assign t e => return .stmt (← Build.assign t e)
  | ite e yes no => return .stmt (← Build.ite e yes no)
  | loop e body => return .stmt (← Build.loop e body)
  | procedureCall callee args => return .stmt (← Build.procedureCall callee args)
  | read t => return .stmt (← Build.read t)
  | write e => return .stmt (← Build.write e)
  | print text => return .stmt (← Build.print text)
  | ret value => return .stmt (← Build.ret value)
  | param name spec => return .param (← Build.param name spec)
  | vars names spec => return .vars (← Build.vars names spec)
  | function name params result ds body =>
      return .function (← Build.function name params result ds body)
  | program functions => return .program (← Build.program functions)

end Call

end Build

open Build (Call)

/-- With one builder these pieces have been made and are still at hand: whatever a call takes
it takes away, so that nothing can be taken twice. What is never taken stays. -/
inductive Assembled : Builder → List Piece → Prop where
  | start (file : Option String) : Assembled (.start file) []
  | move {b : Builder} {pieces : List Piece} (line column : Nat) :
      Assembled b pieces → Assembled ((Build.moveTo line column).run b).2 pieces
  | make {b : Builder} {pieces rest : List Piece} (call : Call) :
      Assembled b pieces → pieces.Perm (call.uses ++ rest) →
        Assembled (call.make.run b).2 ((call.make.run b).1 :: rest)

/-- A call adds nodes with the next numbers. Below them stand nodes of the pieces that it
takes, and nothing of those is lost. -/
structure Build.Call.Adds (call : Call) (b : Builder) (new : List Holder) : Prop where
  holders : (call.make.run b).1.holders.Perm (new ++ call.uses.flatMap Piece.holders)
  next : (call.make.run b).2.next = b.next + new.length
  ids : new.map Holder.id = List.range' b.next new.length
  own : ∀ h ∈ new, ∀ id, h.own = some id → id = h.id + 1
  below : ∀ h ∈ new, ∀ id ∈ h.below, id ∈ call.uses.flatMap Piece.ids

namespace Build.Call

variable {b : Builder} {c : Call}

theorem adds_nothing (hnext : (c.make.run b).2.next = b.next)
    (hholders : (c.make.run b).1.holders = c.uses.flatMap Piece.holders) : c.Adds b [] :=
  ⟨.of_eq hholders, hnext, rfl, by simp, by simp⟩

/-- Names that hold nothing. -/
theorem adds_names {xs : List Ident} (hids : xs.map (fun x => x.id) = List.range' b.next xs.length)
    (hnext : (c.make.run b).2.next = b.next + xs.length)
    (hholders : (c.make.run b).1.holders =
      xs.map Ident.holder ++ c.uses.flatMap Piece.holders) :
    c.Adds b (xs.map Ident.holder) := by
  refine ⟨.of_eq hholders, by simpa using hnext, ?_, ?_, ?_⟩
  · simpa [Function.comp_def, Ident.holder] using hids
  · simp [Ident.holder]
  · simp [Ident.holder]

theorem adds_name {x : Ident} (hid : x.id = b.next) (hnext : (c.make.run b).2.next = b.next + 1)
    (hholders : (c.make.run b).1.holders = x.holder :: c.uses.flatMap Piece.holders) :
    c.Adds b [x.holder] := by
  have hids : [x].map (fun x => x.id) = List.range' b.next 1 := by simp [hid]
  exact adds_names hids hnext hholders

/-- A node above all that is taken. -/
theorem adds_node (hnext : (c.make.run b).2.next = b.next + 1)
    (hholders : (c.make.run b).1.holders.Perm
      (⟨b.next, none, c.uses.flatMap Piece.ids⟩ :: c.uses.flatMap Piece.holders)) :
    c.Adds b [⟨b.next, none, c.uses.flatMap Piece.ids⟩] :=
  ⟨hholders, hnext, rfl, by simp, by simp⟩

/-- A node with a name of its own. -/
theorem adds_named (hnext : (c.make.run b).2.next = b.next + 2)
    (hholders : (c.make.run b).1.holders.Perm
      (⟨b.next, some (b.next + 1), c.uses.flatMap Piece.ids⟩ :: ⟨b.next + 1, none, []⟩ ::
        c.uses.flatMap Piece.holders)) :
    c.Adds b [⟨b.next, some (b.next + 1), c.uses.flatMap Piece.ids⟩, ⟨b.next + 1, none, []⟩] :=
  ⟨hholders, hnext, rfl, by simp, by simp⟩

/-- An expression is made over its operands. -/
theorem exists_adds_expr {e : Expr} (hmake : (c.make.run b).1 = .expr e)
    (huses : c.uses = e.operands.map .expr) (hid : e.node.id = b.next)
    (hname : e.ownName? = none ∧ (c.make.run b).2.next = b.next + 1 ∨
      ∃ x, e.ownName? = some x ∧ x.id = b.next + 1 ∧ (c.make.run b).2.next = b.next + 2) :
    ∃ new, c.Adds b new := by
  have hids : (reachedExprs everyCall e.operands).map Part.id = c.uses.flatMap Piece.ids := by
    rw [huses, Piece.flatMap_ids_expr]
  have hbelow : (reachedExprs everyCall e.operands).map Part.holder =
      c.uses.flatMap Piece.holders := by
    rw [huses, Piece.flatMap_holders_expr]
  have hholders : (c.make.run b).1.holders = e.ownName?.toList.map Ident.holder ++
      c.uses.flatMap Piece.holders ++
        [⟨b.next, e.ownName?.map fun x => x.id, c.uses.flatMap Piece.ids⟩] := by
    rw [hmake, Piece.holders, e.holders_eq, Part.holder, hids, hbelow, hid]
  have hperm := (List.Perm.of_eq hholders).trans (List.perm_append_singleton _ _)
  obtain ⟨hnone, hnext⟩ | ⟨x, hsome, hx, hnext⟩ := hname
  · rw [hnone] at hperm
    exact ⟨_, adds_node hnext hperm⟩
  · rw [hsome] at hperm
    refine ⟨_, adds_named hnext ?_⟩
    simpa [Ident.holder, hx] using hperm

theorem run_mapM_ident (names : List String) (b : Builder) :
    ((names.mapM Build.ident).run b).1.map (fun x => x.id) = List.range' b.next names.length ∧
      ((names.mapM Build.ident).run b).2.next = b.next + names.length := by
  induction names generalizing b with
  | nil => exact ⟨rfl, rfl⟩
  | cons name rest ih =>
      obtain ⟨hids, hnext⟩ := ih { b with next := b.next + 1 }
      have hrun : ((name :: rest).mapM Build.ident).run b =
          let later := (rest.mapM Build.ident).run { b with next := b.next + 1 }
          (⟨⟨b.next, b.cursor⟩, name⟩ :: later.1, later.2) := by
        rw [List.mapM_cons]
        rfl
      rw [hrun]
      constructor
      · simp [hids, List.range'_succ]
      · simp [hnext, Nat.add_assoc, Nat.add_comm 1]

theorem exists_adds_vars (names : List String) (spec : TypeSpec) (b : Builder) :
    ∃ new, (vars names spec).Adds b new := by
  obtain ⟨hids, hnext⟩ := run_mapM_ident names b
  have hlength : names.length = ((names.mapM Build.ident).run b).1.length := by
    simpa using (congrArg List.length hids).symm
  rw [hlength] at hids hnext
  exact ⟨_, adds_names hids hnext (List.append_nil _).symm⟩

theorem exists_adds_target (name : String) (subscript : Option Expr) (b : Builder) :
    ∃ new, (target name subscript).Adds b new := by
  let t : Target := ⟨⟨b.next, b.cursor⟩, ⟨⟨b.next + 1, b.cursor⟩, name⟩, subscript⟩
  have hreached : subscript.elim [] (Expr.reached everyCall) =
      reachedExprs everyCall subscript.toList := by
    cases subscript <;> simp [reachedExprs]
  have hholders : ((target name subscript).make.run b).1.holders =
      t.ident.holder :: (target name subscript).uses.flatMap Piece.holders ++
        [⟨b.next, some (b.next + 1), (target name subscript).uses.flatMap Piece.ids⟩] := by
    have heq := t.holders_eq
    rw [Part.holder, hreached] at heq
    rw [uses, Piece.flatMap_holders_expr, Piece.flatMap_ids_expr]
    exact heq
  exact ⟨_, adds_named rfl ((List.Perm.of_eq hholders).trans (List.perm_append_singleton _ _))⟩

/-- A statement is nothing but what it is made of. -/
theorem adds_stmt {s : Stmt} (hmake : c.make.run b = (.stmt s, b))
    (hs : (s.reached everyCall).map Part.holder = c.uses.flatMap Piece.holders) : c.Adds b [] :=
  adds_nothing (by rw [hmake]) (by rw [hmake]; exact hs)

/-- Every call adds nodes with the next numbers, as many as it hands out. -/
theorem exists_adds (c : Call) (b : Builder) : ∃ new, c.Adds b new := by
  cases c with
  | lit | paren | unary | binary => exact exists_adds_expr rfl rfl rfl (.inl ⟨rfl, rfl⟩)
  | var | index | call => exact exists_adds_expr rfl rfl rfl (.inr ⟨_, rfl, rfl, rfl⟩)
  | ident | param => exact ⟨_, adds_name rfl rfl rfl⟩
  | vars names spec => exact exists_adds_vars names spec b
  | procedureCall callee args =>
      refine ⟨_, adds_name (x := ⟨⟨b.next, b.cursor⟩, callee⟩) rfl rfl ?_⟩
      rw [uses, Piece.flatMap_holders_expr]
      rfl
  | target name subscript => exact exists_adds_target name subscript b
  | assign | loop | read | write | print =>
      refine ⟨_, adds_stmt rfl ?_⟩
      simp [uses, Stmt.reached, Piece.holders]
  | ite e yes no =>
      refine ⟨_, adds_stmt rfl ?_⟩
      cases no <;> simp [uses, Stmt.reached, Piece.holders]
  | ret value =>
      refine ⟨_, adds_stmt rfl ?_⟩
      cases value <;> simp [uses, Stmt.reached, Piece.holders]
  | function name params result ds body =>
      refine ⟨_, adds_named rfl (.of_eq ?_)⟩
      let f : Function :=
        ⟨⟨b.next, b.cursor⟩, ⟨⟨b.next + 1, b.cursor⟩, name⟩, params, result, ds, body⟩
      have hinner : (function name params result ds body).uses.flatMap Piece.holders = f.inner := by
        simp [f, uses, Function.inner, Function.parts]
      rw [Piece.flatMap_ids, hinner]
      rfl
  | program functions =>
      refine ⟨_, adds_node rfl (.of_eq ?_)⟩
      have hids : (functions.flatMap Function.holders).map Holder.id =
          functions.flatMap Function.ids := by
        simp [List.map_flatMap, Function.map_id_holders]
      rw [Piece.flatMap_ids, uses, Piece.flatMap_holders_function, hids]
      rfl

end Build.Call

/-- The numbers that have been handed out are in the pieces, each once and each in its place. -/
structure Numbered (b : Builder) (pieces : List Piece) : Prop where
  ids : (pieces.flatMap Piece.ids).Perm (List.range b.next)
  inOrder : ∀ h ∈ pieces.flatMap Piece.holders, h.InOrder

/-- The pieces that are taken are counted already, what is added is numbered from there on. -/
theorem Numbered.make {b : Builder} {pieces rest : List Piece} (h : Numbered b pieces) {c : Call}
    (hpieces : pieces.Perm (c.uses ++ rest)) :
    Numbered (c.make.run b).2 ((c.make.run b).1 :: rest) := by
  obtain ⟨new, hadds⟩ := c.exists_adds b
  have hholders : ((c.make.run b).1 :: rest).flatMap Piece.holders |>.Perm
      (new ++ pieces.flatMap Piece.holders) := by
    have htaken := (hpieces.flatMap_right Piece.holders).symm
    rw [List.flatMap_append] at htaken
    rw [List.flatMap_cons]
    have hall := (hadds.holders.append_right (rest.flatMap Piece.holders)).trans
      (.of_eq (List.append_assoc ..))
    exact hall.trans (htaken.append_left new)
  have hold (id : NodeId) (hid : id ∈ c.uses.flatMap Piece.ids) : id < b.next := by
    have hmem : id ∈ pieces.flatMap Piece.ids := by
      rw [(hpieces.flatMap_right Piece.ids).mem_iff, List.flatMap_append]
      exact List.mem_append_left _ hid
    exact List.mem_range.mp (h.ids.mem_iff.mp hmem)
  have hnew (holder : Holder) (hmem : holder ∈ new) : b.next ≤ holder.id := by
    have hid : holder.id ∈ List.range' b.next new.length :=
      hadds.ids ▸ List.mem_map_of_mem hmem
    exact (List.mem_range'_1.mp hid).1
  constructor
  · rw [Piece.flatMap_ids, hadds.next]
    calc (((c.make.run b).1 :: rest).flatMap Piece.holders).map Holder.id
        |>.Perm (List.range' b.next new.length ++ pieces.flatMap Piece.ids) := by
          simpa [hadds.ids, Piece.flatMap_ids] using hholders.map Holder.id
      _ |>.Perm (List.range b.next ++ List.range' b.next new.length) :=
          List.perm_append_comm.trans (h.ids.append_right _)
      _ = List.range (b.next + new.length) := by
          simp [List.range_add, List.range'_eq_map_range]
  · intro holder hholder
    rw [hholders.mem_iff, List.mem_append] at hholder
    rcases hholder with hmem | hmem
    · refine ⟨hadds.own holder hmem, fun id hid => ?_⟩
      exact Nat.lt_of_lt_of_le (hold id (hadds.below holder hmem id hid)) (hnew holder hmem)
    · exact h.inOrder holder hmem

theorem Assembled.numbered {b : Builder} {pieces : List Piece} (h : Assembled b pieces) :
    Numbered b pieces := by
  induction h with
  | start file => exact ⟨.refl _, by simp⟩
  | move line column _ ih => exact ⟨ih.ids, ih.inOrder⟩
  | make call _ hpieces ih => exact ih.make hpieces

/-- However pieces are put together, no number comes twice in one and none is missing in one
that holds all there is; a node is numbered after all that is below it, but for its own name,
which comes next. So no run over a built program meets a fault. -/
theorem built_trees_never_fault {b : Builder} {pieces : List Piece} (h : Assembled b pieces) :
    (∀ piece ∈ pieces, piece.ids.Nodup ∧ (∀ id ∈ piece.ids, id < b.next) ∧
        ∀ holder ∈ piece.holders, holder.InOrder) ∧
      (∀ piece, pieces = [piece] → piece.ids.Perm (List.range b.next)) ∧
      ∀ p, .program p ∈ pieces → ∀ c, ∃ t, analyse p c = .ok t := by
  obtain ⟨hids, hinOrder⟩ := h.numbered
  have hnodup : ∀ piece ∈ pieces, piece.ids.Nodup := by
    intro piece hpiece
    exact (List.nodup_flatMap.mp (hids.nodup_iff.mpr List.nodup_range)).1 piece hpiece
  refine ⟨fun piece hpiece => ⟨hnodup piece hpiece, fun id hid => ?_, fun holder hholder => ?_⟩,
    fun piece hpieces => ?_, fun p hp c => ?_⟩
  · exact List.mem_range.mp (hids.mem_iff.mp (List.mem_flatMap_of_mem hpiece hid))
  · exact hinOrder holder (List.mem_flatMap_of_mem hpiece hholder)
  · simpa [hpieces] using hids
  · have hp : p.ids.Nodup := p.map_id_holders ▸ hnodup _ hp
    obtain ⟨t, ht, -⟩ := Program.exists_outcome c (p.scopeIds_sublist_ids.nodup hp)
      (p.partIds_sublist_ids.nodup hp)
    exact ⟨t, ht⟩

/-- The parts are put together from the pieces made last. -/
theorem halving_assembled : Assembled ⟨16, ⟨1, 1, none⟩⟩ [.program halving] := by
  have hx := Assembled.make (.param "x" (.basic .float)) (.start none) (.refl _)
  have hoperand := hx.make (.var "x") (.refl _)
  have htwo := hoperand.make (.lit (.int 2)) (.refl _)
  have hquotient := htwo.make (.binary (.arith .div) _ _) (.swap _ _ _)
  have hret := hquotient.make (.ret (some _)) (.refl _)
  have hhalf := hret.make (.function "half" [_] (some (.basic .float)) [] [_]) (.swap _ _ _)
  have hy := hhalf.make (.vars ["y"] (.basic .float)) (.refl _)
  have hthree := hy.make (.lit (.int 3)) (.refl _)
  have hvalue := hthree.make (.call "half" [_]) (.refl _)
  have htarget := hvalue.make (.target "y" none) (.refl _)
  have hstore := htarget.make (.assign _ _) (.refl _)
  have hstart := hstore.make (.function "main" [] none [_] [_]) (.swap _ _ _)
  exact hstart.make (.program [_, _]) (.swap _ _ _)

theorem halving_numbers :
    Assembled ⟨16, ⟨1, 1, none⟩⟩ [.program halving] ∧ halving.ids.Perm (List.range 16) ∧
      ∃ t, analyse halving ⟨"start"⟩ = .ok t := by
  obtain ⟨-, hall, hruns⟩ := built_trees_never_fault halving_assembled
  refine ⟨halving_assembled, ?_, hruns halving List.mem_cons_self ⟨"start"⟩⟩
  exact halving.map_id_holders ▸ hall _ rfl

end Asl
