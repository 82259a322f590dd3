import Asl.Proofs.Replay

/-!
# Checking replays a reading

A pass is compared with the replay of a reading. Both meet the same fault or both come to
their end, and then the tables differ in their symbols at most. For the traversal of a
body the symbols do not change, so that a name means the same from its beginning to its
end. What the traversal looks up among the annotations it has written itself; the facts
written so far are carried along for that.
-/

namespace Asl

/-- The symbols with one more scope active. -/
def Symbols.activate (s : Symbols) (id : ScopeId) : Symbols := { s with stack := id :: s.stack }

/-- From `t` the pass does what the replay of `es` does. At its end it gives `a` and leaves
the symbols `s`. -/
def Pass.Replays (t : Tables) (pass : Pass α) (a : α) (es : Reading) (s : Symbols) : Prop :=
  match es.replay t with
  | .ok _ u => pass t = .ok a (u.withSymbols s)
  | .error fault u => ∃ s', pass t = .error fault (u.withSymbols s')

namespace Pass.Replays

variable {t : Tables} {p : Pass α} {f : α → Pass β} {a : α} {b : β} {es fs : Reading}
  {s s' : Symbols}

/-- The pass comes to its end, or the first fact that is not new is its fault. -/
theorem ends (h : Replays t p a es s) :
    (firstRepeat t.annotations.knows es.keys = none ∧
        ∃ u, es.replay t = .ok () u ∧ p t = .ok a (u.withSymbols s)) ∨
      ∃ key, firstRepeat t.annotations.knows es.keys = some key ∧
        ∃ u, p t = .error (.rewritten key.1 key.2) u := by
  unfold Replays at h
  obtain ⟨hnone, u, hu⟩ | ⟨key, hkey, u, hu⟩ := es.replay_cases t
  · simp only [hu] at h
    exact .inl ⟨hnone, u, hu, h⟩
  · simp only [hu] at h
    obtain ⟨s', h⟩ := h
    exact .inr ⟨key, hkey, _, h⟩

theorem bind (hp : Replays t p a es s)
    (hf : ∀ u, es.replay t = .ok () u → Replays (u.withSymbols s) (f a) b fs s') :
    Replays t (p >>= f) b (es ++ fs) s' := by
  unfold Replays at hp ⊢
  rw [Reading.replay_append]
  simp only [Bind.bind, EStateM.bind]
  cases hes : es.replay t with
  | error fault u =>
      simp only [hes] at hp ⊢
      obtain ⟨s'', hp⟩ := hp
      exact ⟨s'', by simp [hp]⟩
  | ok _ u =>
      simp only [hes] at hp ⊢
      have hrest := hf u hes
      unfold Replays at hrest
      rw [Reading.replay_withSymbols] at hrest
      simp only [hp]
      cases hfs : fs.replay u with
      | error fault v => simpa only [hfs, Tables.withSymbols_withSymbols] using hrest
      | ok _ v => simpa only [hfs, Tables.withSymbols_withSymbols] using hrest

theorem get_bind {f : Tables → Pass β} (h : Replays t (f t) b fs s) :
    Replays t (get >>= f) b fs s := h

theorem congr (h : Replays t p a es s) (hes : es = fs) : Replays t p a fs s := hes ▸ h

/-- A pass that adds no fact and no complaint. -/
theorem of_eq_ok (h : p t = .ok a (t.withSymbols s)) : Replays t p a [] s := h

theorem report (ds : List Diagnostic) :
    Replays t (Pass.report ds) () (Reading.reports ds) t.symbols := by
  unfold Replays
  rw [Reading.replay_reports]
  rfl

theorem put (node : NodeId) (fact : Fact) :
    Replays t (Pass.put node fact) () [.write node fact] t.symbols := by
  unfold Replays
  cases hput : t.annotations.put node fact with
  | error fault =>
      rw [Reading.replay_write_of_error hput]
      exact ⟨t.symbols, by simp [Pass.put, hput, Tables.withSymbols]⟩
  | ok b =>
      rw [Reading.replay_write_of_ok hput]
      simp [Reading.replay, Pass.put, hput, Tables.withSymbols, Pure.pure, EStateM.pure]

/-- Tidying the symbols afterwards does not touch what was written. -/
theorem ensuring {tidy : Tables → Tables} {change : Symbols → Symbols}
    (htidy : ∀ (u : Tables) s', tidy (u.withSymbols s') = u.withSymbols (change s'))
    (h : Replays t p a es s) : Replays t (p.ensuring tidy) a es (change s) := by
  unfold Replays at h ⊢
  cases hes : es.replay t with
  | error fault u =>
      simp only [hes] at h ⊢
      obtain ⟨s', h⟩ := h
      exact ⟨change s', by simp [Pass.ensuring, h, htidy]⟩
  | ok _ u =>
      simp only [hes] at h ⊢
      simp [Pass.ensuring, h, htidy]

/-- A scope is active while a pass runs and inactive after it. -/
theorem within {id : ScopeId} (hid : id < t.symbols.scopes.size)
    (h : Replays (t.withSymbols (t.symbols.activate id)) p a es s) :
    Replays t (Pass.within id p) a es s.leave := by
  have henter : Replays t (Pass.enter id) () [] (t.symbols.activate id) :=
    .of_eq_ok (by simp [Pass.enter, Symbols.enter, hid, Tables.withSymbols, Symbols.activate])
  refine henter.bind fun u hu => .ensuring (fun _ _ => rfl) ?_
  cases hu
  exact h

end Pass.Replays

/-- Under the symbols `s`, and once the facts `known` hold, the pass does what the replay of
`es` does and gives `a`. -/
def Pass.Reads (s : Symbols) (known : List (NodeId × Fact)) (pass : Pass α) (a : α)
    (es : Reading) : Prop :=
  ∀ t : Tables, t.symbols = s →
    (∀ node fact, (node, fact) ∈ known → t.annotations.Holds node fact) →
      Pass.Replays t pass a es s

namespace Pass.Reads

variable {s : Symbols} {known : List (NodeId × Fact)} {p : Pass α} {f : α → Pass β} {a : α} {b : β}
  {es fs : Reading}

theorem bind (hp : Reads s known p a es) (hf : Reads s (known ++ es.facts) (f a) b fs) :
    Reads s known (p >>= f) b (es ++ fs) := by
  intro t hs hknown
  refine (hp t hs hknown).bind fun u hu => hf _ rfl fun node fact hmem => ?_
  rw [Tables.withSymbols, (Reading.done_of_replay hu).holds]
  exact (List.mem_append.mp hmem).imp (hknown node fact) id

theorem get_bind {f : Tables → Pass β}
    (h : ∀ t : Tables, t.symbols = s → Reads s known (f t) b fs) :
    Reads s known (get >>= f) b fs :=
  fun t hs hknown => h t hs t hs hknown

theorem congr (h : Reads s known p a es) (hes : es = fs) : Reads s known p a fs := hes ▸ h

theorem pure (a : α) : Reads s known (Pure.pure a) a [] := by
  rintro t rfl -
  exact .of_eq_ok rfl

theorem report (ds : List Diagnostic) : Reads s known (Pass.report ds) () (Reading.reports ds) := by
  rintro t rfl -
  exact .report ds

theorem put (node : NodeId) (fact : Fact) :
    Reads s known (Pass.put node fact) () [.write node fact] := by
  rintro t rfl -
  exact .put node fact

theorem annotate (node : NodeId) (type : Ty) (lvalue : Bool) :
    Reads s known (Pass.annotate node type lvalue) type
      [.write node (.type type), .write node (.lvalue lvalue)] :=
  (put node _).bind ((put node _).bind (pure type))

theorem lvalueOf {node : NodeId} {lvalue : Bool} (h : (node, .lvalue lvalue) ∈ known) :
    Reads s known (Pass.lvalueOf node) lvalue [] := by
  rintro t rfl hknown
  have hlvalue : t.annotations.lvalue? node = some lvalue := hknown node _ h
  exact .of_eq_ok (by simp [Pass.lvalueOf, hlvalue, Tables.withSymbols])

end Pass.Reads

open Pass (Reads)

section

variable {s : Symbols} {env : Env} {known : List (NodeId × Fact)}

theorem visit_reads (part : Part) :
    Reads s known (Pass.annotate part.id (part.type env) (part.lvalue env)) (part.type env)
      (part.visit env) :=
  Reads.annotate _ _ _

theorem checkIdent_reads (henv : ∀ x, s.find? x = env x) (use : Use) (x : Ident) :
    Reads s known (checkIdent x) (env.typeOf x) (x.reading env use) := by
  refine .get_bind fun t ht => ?_
  rw [ht, henv]
  exact (Reads.report _).bind (visit_reads (.name use x))

/-- The identifier has just been given what is looked up. -/
theorem checkIdent_then_lvalue_reads (henv : ∀ x, s.find? x = env x) {x : Ident}
    {k : Ty → Bool → Pass α} {a : α} {es : Reading}
    (hk : Reads s (known ++ (Part.name .plain x).facts env) (k (env.typeOf x) (env.lvalueOf x)) a
      es) :
    Reads s known
      (do
        let type ← checkIdent x
        let lvalue ← Pass.lvalueOf x.id
        k type lvalue) a (x.reading env .plain ++ es) := by
  refine (checkIdent_reads henv .plain x).bind ?_
  rw [Ident.facts_reading]
  refine ((Reads.lvalueOf ?_).bind (by simpa using hk)).congr (List.nil_append es)
  simp [Part.facts, Part.lvalue, Part.id]

mutual
-- What the parts before a part have written is known when it is visited, so `known` grows
-- along the recursion.
theorem checkExpr_reads (henv : ∀ x, s.find? x = env x) :
    ∀ (e : Expr) (known : List (NodeId × Fact)),
      Reads s known (checkExpr e) (e.type env) (e.reading env)
  | .lit n v, known => by
      rw [checkExpr, Expr.reading]
      exact visit_reads (.expr (.lit n v))
  | .var n x, known => by
      rw [checkExpr, Expr.reading]
      exact checkIdent_then_lvalue_reads henv (visit_reads (.expr (.var n x)))
  | .paren n e, known => by
      rw [checkExpr, Expr.reading]
      exact (checkExpr_reads henv e _).bind (visit_reads (.expr (.paren n e)))
  | .index n x e, known => by
      rw [checkExpr, Expr.reading]
      refine (checkIdent_then_lvalue_reads henv ((checkExpr_reads henv e _).bind
        ((Reads.report _).bind (visit_reads (.expr (.index n x e)))))).congr ?_
      simp only [List.append_assoc]
  | .call n f args, known => by
      rw [checkExpr, Expr.reading]
      refine ((checkIdent_reads henv .called f).bind ((Reads.report _).bind
        ((checkArgs_reads henv f 1 _ args _).bind (visit_reads (.expr (.call n f args)))))).congr ?_
      simp only [List.append_assoc]
  | .unary n op e, known => by
      rw [checkExpr, Expr.reading]
      refine ((checkExpr_reads henv e _).bind ((Reads.report _).bind
        (visit_reads (.expr (.unary n op e))))).congr ?_
      simp only [List.append_assoc]
  | .binary n op l r, known => by
      rw [checkExpr, Expr.reading]
      refine ((checkExpr_reads henv l _).bind ((checkExpr_reads henv r _).bind
        ((Reads.report _).bind (visit_reads (.expr (.binary n op l r)))))).congr ?_
      simp only [List.append_assoc]
theorem checkArgs_reads (henv : ∀ x, s.find? x = env x) (f : Ident) :
    ∀ (k : Nat) (params : List Ty) (args : List Expr) (known : List (NodeId × Fact)),
      Reads s known (checkArgs f k params args) () (argsReading env f k params args)
  | _, [], args, known => by
      rw [argsReading_nil]
      simpa [checkArgs] using Reads.pure ()
  | _, _ :: _, [], known => by
      simpa [checkArgs, argsReading] using Reads.pure ()
  | k, param :: params, e :: rest, known => by
      rw [checkArgs, argsReading]
      refine ((checkExpr_reads henv e _).bind ((Reads.report _).bind
        (checkArgs_reads henv f (k + 1) params rest _))).congr ?_
      simp only [List.append_assoc]
end

theorem checkExprs_reads (henv : ∀ x, s.find? x = env x) (es : List Expr) :
    Reads s known (checkExprs es) (es.map (Expr.type env)) (exprsReading env es) := by
  induction es generalizing known with
  | nil => exact Reads.pure _
  | cons e rest ih =>
      rw [checkExprs, exprsReading]
      refine (checkExpr_reads henv e _).bind ((ih.bind ?_).congr (List.append_nil _))
      exact Reads.pure _

theorem checkTarget_reads (henv : ∀ x, s.find? x = env x) (t : Target) :
    Reads s known (checkTarget t) (t.type env) (t.reading env) := by
  have hvisit {known'} : Reads s known' (Pass.annotate t.id (t.type env) (env.lvalueOf t.ident))
      (t.type env) ((Part.target t).visit env) := visit_reads (.target t)
  unfold checkTarget Target.reading
  cases hsubscript : t.subscript with
  | none =>
      have htype : t.type env = env.typeOf t.ident := by simp [Target.type, hsubscript]
      rw [htype] at hvisit ⊢
      refine (checkIdent_then_lvalue_reads henv hvisit).congr ?_
      rw [List.append_nil]
  | some e =>
      have htype : t.type env = Rule.elementPlace (env.typeOf t.ident) (e.type env) := by
        simp [Target.type, hsubscript]
      rw [htype] at hvisit ⊢
      refine (checkIdent_then_lvalue_reads henv ((checkExpr_reads henv e _).bind
        ((Reads.report _).bind hvisit))).congr ?_
      simp only [List.append_assoc]

theorem Target.lvalue_mem_facts (env : Env) (t : Target) :
    (t.id, .lvalue (env.lvalueOf t.ident)) ∈ (t.reading env).facts := by
  simp [Target.reading, Part.facts, Part.id, Part.lvalue]

theorem unaddressable_reads {t : Target} (complaint : Complaint) (loc : Location)
    (hknown : (t.id, .lvalue (env.lvalueOf t.ident)) ∈ known) :
    Reads s known
      (do
        let lvalue ← Pass.lvalueOf t.id
        Pass.report (Rule.addressable (t.type env) lvalue complaint loc))
      () (Reading.reports (t.unaddressable env complaint loc)) :=
  (Reads.lvalueOf hknown).bind (Reads.report _)

theorem declaredResult_reads {result : Ty} (hresult : s.signature.bind Ty.result? = some result)
    (loc : Location) : Reads s known (declaredResult loc) result [] := by
  rintro t rfl -
  exact .of_eq_ok (by simp [declaredResult, hresult, Tables.withSymbols])

/-- A call by itself needs no function around it. -/
theorem checkCall_reads (henv : ∀ x, s.find? x = env x) (result : Ty) (loc : Location) (f : Ident)
    (args : List Expr) :
    Reads s known (checkStmt (.call loc f args)) ()
      ((Stmt.call loc f args).reading env result) := by
  rw [checkStmt, Stmt.reading]
  have hargs : (args.map (Expr.type env)).zip (args.map Expr.loc) =
      args.map fun e => (e.type env, e.loc) := List.zip_map' ..
  refine ((checkIdent_reads henv .called f).bind ((checkExprs_reads henv args).bind
    ((Reads.report _).bind (Reads.report _)))).congr ?_
  simp only [List.append_assoc, hargs]

mutual
theorem checkStmt_reads (henv : ∀ x, s.find? x = env x) {result : Ty}
    (hresult : s.signature.bind Ty.result? = some result) :
    ∀ (st : Stmt) (known : List (NodeId × Fact)),
      Reads s known (checkStmt st) () (st.reading env result)
  | .assign loc target value, known => by
      rw [checkStmt, Stmt.reading]
      refine ((checkTarget_reads henv target).bind ((checkExpr_reads henv value _).bind
        ((Reads.report _).bind (unaddressable_reads _ _ ?_)))).congr ?_
      · have hmem := target.lvalue_mem_facts env
        simp [hmem]
      · simp only [List.append_assoc]
  | .ite loc condition yes none, known => by
      rw [checkStmt, Stmt.reading]
      refine ((checkExpr_reads henv condition _).bind ((Reads.report _).bind
        ((checkBlock_reads henv hresult yes _).bind (Reads.pure ())))).congr ?_
      simp only [List.append_assoc]
  | .ite loc condition yes (some no), known => by
      rw [checkStmt, Stmt.reading]
      refine ((checkExpr_reads henv condition _).bind ((Reads.report _).bind
        ((checkBlock_reads henv hresult yes _).bind (checkBlock_reads henv hresult no _)))).congr ?_
      simp only [List.append_assoc]
  | .loop loc condition body, known => by
      rw [checkStmt, Stmt.reading]
      refine ((checkExpr_reads henv condition _).bind ((Reads.report _).bind
        (checkBlock_reads henv hresult body _))).congr ?_
      simp only [List.append_assoc]
  | .call loc f args, known => checkCall_reads henv result loc f args
  | .read loc target, known => by
      rw [checkStmt, Stmt.reading]
      refine ((checkTarget_reads henv target).bind ((Reads.report _).bind
        (unaddressable_reads _ _ ?_))).congr ?_
      · have hmem := target.lvalue_mem_facts env
        simp [hmem]
      · simp only [List.append_assoc]
  | .write loc value, known => by
      rw [checkStmt, Stmt.reading]
      exact (checkExpr_reads henv value _).bind (Reads.report _)
  | .print _ _, known => by
      rw [checkStmt, Stmt.reading]
      exact Reads.pure ()
  | .ret loc none, known => by
      rw [checkStmt, Stmt.reading]
      exact (declaredResult_reads hresult loc).bind (Reads.report _)
  | .ret loc (some value), known => by
      rw [checkStmt, Stmt.reading]
      exact (declaredResult_reads hresult loc).bind
        ((checkExpr_reads henv value _).bind (Reads.report _))
theorem checkBlock_reads (henv : ∀ x, s.find? x = env x) {result : Ty}
    (hresult : s.signature.bind Ty.result? = some result) :
    ∀ (ss : List Stmt) (known : List (NodeId × Fact)),
      Reads s known (checkBlock ss) () (blockReading env result ss)
  | [], known => by
      rw [checkBlock, blockReading]
      exact Reads.pure ()
  | st :: rest, known => by
      rw [checkBlock, blockReading]
      exact (checkStmt_reads henv hresult st _).bind (checkBlock_reads henv hresult rest _)
end

end

end Asl
