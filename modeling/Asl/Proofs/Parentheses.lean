import Asl.Proofs.Complaints
import Asl.Proofs.Meanings

/-!
# Parentheses

No rule looks at the form of an operand: it asks for its type, and some complaints are placed where
the operand stands. Parentheses have the type of what they enclose, so a program without them is
complained of in the same way, and what is annotated on the nodes that remain is the same. Only
the place of a complaint can change, and only where parentheses stand elsewhere than what they
enclose.
-/

namespace Asl

mutual
def Expr.bare : Expr → Expr
  | .lit n v => .lit n v
  | .var n x => .var n x
  | .paren _ e => e.bare
  | .index n x e => .index n x e.bare
  | .call n f args => .call n f (bareExprs args)
  | .unary n op e => .unary n op e.bare
  | .binary n op l r => .binary n op l.bare r.bare
def bareExprs : List Expr → List Expr
  | [] => []
  | e :: rest => e.bare :: bareExprs rest
end

def Target.bare (t : Target) : Target := { t with subscript := t.subscript.map Expr.bare }

mutual
def Stmt.bare : Stmt → Stmt
  | .assign loc target value => .assign loc target.bare value.bare
  | .ite loc condition yes none => .ite loc condition.bare (bareBlock yes) none
  | .ite loc condition yes (some no) =>
      .ite loc condition.bare (bareBlock yes) (some (bareBlock no))
  | .loop loc condition body => .loop loc condition.bare (bareBlock body)
  | .call loc f args => .call loc f (bareExprs args)
  | .read loc target => .read loc target.bare
  | .write loc value => .write loc value.bare
  | .print loc text => .print loc text
  | .ret loc value => .ret loc (value.map Expr.bare)
def bareBlock : List Stmt → List Stmt
  | [] => []
  | s :: rest => s.bare :: bareBlock rest
end

def Function.bare (f : Function) : Function := { f with body := bareBlock f.body }

/-- The program without the parentheses in it. -/
def Program.bare (p : Program) : Program := p.mapBodies bareBlock

namespace Part

/-- Other than parentheses. -/
def isBare : Part → Bool
  | expr (.paren _ _) => false
  | _ => true

def bare : Part → Part
  | expr e => expr e.bare
  | target t => target t.bare
  | name use x => name use x

end Part

def Site.bare : Site → Site
  | name x => name x
  | subscript loc x e => subscript loc x e.bare
  | valueCall f arity => valueCall f arity
  | call f arity => call f arity
  | argument f k param e => argument f k param e.bare
  | unary n op e => unary n op e.bare
  | binary n op l r => binary n op l.bare r.bare
  | assignment loc t e => assignment loc t.bare e.bare
  | assigned t => assigned t.bare
  | condition instruction loc e => condition instruction loc e.bare
  | readable loc t => readable loc t.bare
  | stored loc t => stored loc t.bare
  | writable loc e => writable loc e.bare
  | result loc value => result loc (value.map Expr.bare)

theorem length_bareExprs (es : List Expr) : (bareExprs es).length = es.length := by
  induction es with
  | nil => rfl
  | cons e rest ih => simp [bareExprs, ih]

section

variable {env : Env}

theorem Expr.type_bare (e : Expr) : e.bare.type env = e.type env := by
  induction e with
  | lit n v => rfl
  | var n x => rfl
  | paren n e ih => exact ih
  | index n x e ih => exact congrArg (Rule.elementValue (env.typeOf x)) ih
  | call n f args ih => rfl
  | unary n op e ih => rw [bare, type, type, ih]
  | binary n op l r ihl ihr => rw [bare, type, type, ihl, ihr]

theorem Target.type_bare (t : Target) : t.bare.type env = t.type env := by
  obtain ⟨n, x, _ | e⟩ := t
  · rfl
  · exact congrArg (Rule.elementPlace (env.typeOf x)) e.type_bare

theorem Part.id_bare {part : Part} (h : part.isBare = true) : part.bare.id = part.id := by
  rcases part with e | t | ⟨use, x⟩
  · cases e with
    | paren n e => cases h
    | _ => rfl
  · rfl
  · rfl

/-- Parentheses have the type of what they enclose, but they are no place. -/
theorem Part.facts_bare {part : Part} (h : part.isBare = true) :
    part.bare.facts env = part.facts env := by
  have htype : part.bare.type env = part.type env := by
    rcases part with e | t | ⟨use, x⟩
    · exact e.type_bare
    · exact t.type_bare
    · rfl
  have hlvalue : part.bare.lvalue env = part.lvalue env := by
    rcases part with e | t | ⟨use, x⟩
    · cases e with
      | paren n e => cases h
      | _ => rfl
    · rfl
    · rfl
  rw [facts, facts, id_bare h, htype, hlvalue]

section

variable {into : Entered}

mutual
theorem Expr.reached_bare : ∀ e : Expr,
    e.bare.reached into = ((e.reached into).filter Part.isBare).map Part.bare
  | .lit _ _ | .var _ _ => rfl
  | .paren _ e => by simp [Expr.bare, Expr.reached, Part.isBare, e.reached_bare]
  | .index _ _ e | .unary _ _ e => by
      simp [Expr.bare, Expr.reached, List.filter_cons, Part.isBare, Part.bare, e.reached_bare]
  | .call _ f args => by
      have hargs := reachedExprs_bare args
      have hlength := length_bareExprs args
      cases hinto : into f args.length <;>
        simp [Expr.bare, Expr.reached, List.filter_cons, Part.isBare, Part.bare, hargs, hlength,
          hinto]
  | .binary _ _ l r => by
      simp [Expr.bare, Expr.reached, List.filter_cons, Part.isBare, Part.bare, l.reached_bare,
        r.reached_bare]
theorem reachedExprs_bare : ∀ es : List Expr,
    reachedExprs into (bareExprs es) = ((reachedExprs into es).filter Part.isBare).map Part.bare
  | [] => rfl
  | e :: rest => by simp [bareExprs, reachedExprs, e.reached_bare, reachedExprs_bare rest]
end

theorem Target.reached_bare (t : Target) :
    t.bare.reached into = ((t.reached into).filter Part.isBare).map Part.bare := by
  obtain ⟨n, x, _ | e⟩ := t
  · rfl
  · simp [bare, reached, List.filter_cons, Part.isBare, Part.bare, e.reached_bare]

mutual
theorem Stmt.reached_bare : ∀ s : Stmt,
    s.bare.reached into = ((s.reached into).filter Part.isBare).map Part.bare
  | .assign _ target value => by
      simp [Stmt.bare, Stmt.reached, target.reached_bare, value.reached_bare]
  | .ite _ condition yes none => by
      simp [Stmt.bare, Stmt.reached, condition.reached_bare, reachedBlock_bare yes]
  | .ite _ condition yes (some no) => by
      simp [Stmt.bare, Stmt.reached, condition.reached_bare, reachedBlock_bare yes,
        reachedBlock_bare no]
  | .loop _ condition body => by
      simp [Stmt.bare, Stmt.reached, condition.reached_bare, reachedBlock_bare body]
  | .call _ _ args => by
      simp [Stmt.bare, Stmt.reached, List.filter_cons, Part.isBare, Part.bare,
        reachedExprs_bare args]
  | .read _ target => by simp [Stmt.bare, Stmt.reached, target.reached_bare]
  | .write _ value | .ret _ (some value) => by
      simp [Stmt.bare, Stmt.reached, value.reached_bare]
  | .print _ _ | .ret _ none => by simp [Stmt.bare, Stmt.reached]
theorem reachedBlock_bare : ∀ ss : List Stmt,
    reachedBlock into (bareBlock ss) = ((reachedBlock into ss).filter Part.isBare).map Part.bare
  | [] => rfl
  | s :: rest => by simp [bareBlock, reachedBlock, s.reached_bare, reachedBlock_bare rest]
end

end

mutual
theorem Expr.sites_bare : ∀ e : Expr, e.bare.sites env = (e.sites env).map Site.bare
  | .lit _ _ => rfl
  | .var _ _ => by simp [Expr.bare, Expr.sites, Site.bare]
  | .paren _ e => by simp [Expr.bare, Expr.sites, e.sites_bare]
  | .index _ _ e | .unary _ _ e => by simp [Expr.bare, Expr.sites, Site.bare, e.sites_bare]
  | .call _ f args => by
      have hargs := argsSites_bare f 1 (Rule.params (env.typeOf f) args.length) args
      simp [Expr.bare, Expr.sites, Site.bare, length_bareExprs, hargs]
  | .binary _ _ l r => by simp [Expr.bare, Expr.sites, Site.bare, l.sites_bare, r.sites_bare]
theorem argsSites_bare (f : Ident) : ∀ (k : Nat) (params : List Ty) (args : List Expr),
    argsSites env f k params (bareExprs args) = (argsSites env f k params args).map Site.bare
  | _, [], _ => by simp [argsSites]
  | _, _ :: _, [] => by simp [argsSites, bareExprs]
  | k, param :: params, e :: rest => by
      simp [argsSites, bareExprs, Site.bare, e.sites_bare, argsSites_bare f (k + 1) params rest]
end

theorem sites_bareExprs (es : List Expr) :
    (bareExprs es).flatMap (Expr.sites env) = (es.flatMap (Expr.sites env)).map Site.bare := by
  induction es with
  | nil => rfl
  | cons e rest ih => simp [bareExprs, e.sites_bare, ih]

theorem argumentSites_bare (f : Ident) (k : Nat) (params : List Ty) (args : List Expr) :
    argumentSites f k params (bareExprs args) = (argumentSites f k params args).map Site.bare := by
  induction params generalizing k args with
  | nil => simp [argumentSites]
  | cons param params ih =>
      cases args with
      | nil => simp [argumentSites, bareExprs]
      | cons e rest => simp [argumentSites, bareExprs, Site.bare, ih]

theorem Target.sites_bare (t : Target) : t.bare.sites env = (t.sites env).map Site.bare := by
  obtain ⟨n, x, _ | e⟩ := t
  · simp [bare, sites, Site.bare]
  · simp [bare, sites, Site.bare, e.sites_bare]

mutual
theorem Stmt.sites_bare : ∀ s : Stmt, s.bare.sites env = (s.sites env).map Site.bare
  | .assign _ target value => by
      simp [Stmt.bare, Stmt.sites, Site.bare, target.sites_bare, value.sites_bare]
  | .ite _ condition yes none => by
      simp [Stmt.bare, Stmt.sites, Site.bare, condition.sites_bare, blockSites_bare yes]
  | .ite _ condition yes (some no) => by
      simp [Stmt.bare, Stmt.sites, Site.bare, condition.sites_bare, blockSites_bare yes,
        blockSites_bare no]
  | .loop _ condition body => by
      simp [Stmt.bare, Stmt.sites, Site.bare, condition.sites_bare, blockSites_bare body]
  | .call _ _ args => by
      simp [Stmt.bare, Stmt.sites, Site.bare, length_bareExprs, sites_bareExprs args,
        argumentSites_bare]
  | .read _ target => by simp [Stmt.bare, Stmt.sites, Site.bare, target.sites_bare]
  | .write _ value | .ret _ (some value) => by
      simp [Stmt.bare, Stmt.sites, Site.bare, value.sites_bare]
  | .print _ _ => rfl
  | .ret _ none => rfl
theorem blockSites_bare : ∀ ss : List Stmt,
    blockSites env (bareBlock ss) = (blockSites env ss).map Site.bare
  | [] => rfl
  | s :: rest => by simp [bareBlock, blockSites, s.sites_bare, blockSites_bare rest]
end

theorem map_complaint_complainIf (wrong : Bool) (complaint : Complaint) (loc : Location) :
    (complainIf wrong complaint loc).map Diagnostic.complaint =
      if wrong = true then [complaint] else [] := by
  cases wrong <;> rfl

namespace Site

/-- The operand at which some of the complaints of a site are placed. -/
def placedAt : Site → Option Expr
  | subscript _ _ e | argument _ _ _ e => some e
  | _ => none

theorem mem_operands_of_placedAt {site : Site} {e : Expr} (h : site.placedAt = some e) :
    .expr e ∈ site.operands := by
  cases site with
  | subscript loc x e => simpa [operands, eq_comm, placedAt] using h
  | argument f k param e => simpa [operands, eq_comm, placedAt] using h
  | _ => cases h

/-- Only a complaint that is placed at an operand can move. -/
theorem found_bare (env : Env) (declared : Ty) {site : Site}
    (h : ∀ e, site.placedAt = some e → e.bare.loc = e.loc) :
    site.bare.found env declared = site.found env declared := by
  cases site with
  | name | valueCall | call => rfl
  | subscript loc x e | argument f k param e => simp only [bare, found, e.type_bare, h e rfl]
  | unary _ _ e | condition _ _ e | writable _ e => simp only [bare, found, e.type_bare]
  | binary n op l r => simp only [bare, found, l.type_bare, r.type_bare]
  | assignment loc t e => simp only [bare, found, t.type_bare, e.type_bare]
  | readable loc t => simp only [bare, found, t.type_bare]
  | assigned t | stored loc t =>
      simp only [bare, found, Target.unaddressable, t.type_bare]
      rfl
  | result loc value =>
      cases value with
      | none => rfl
      | some e => simp only [bare, found, Option.map_some, e.type_bare]

theorem complaints_bare (env : Env) (declared : Ty) (site : Site) :
    (site.bare.found env declared).map Diagnostic.complaint =
      (site.found env declared).map Diagnostic.complaint := by
  cases site with
  | subscript loc x e =>
      simp only [bare, found, Rule.subscript, e.type_bare, List.map_append,
        map_complaint_complainIf]
  | argument f k param e =>
      simp only [bare, found, Rule.argument, e.type_bare, map_complaint_complainIf]
  | _ => rw [found_bare env declared fun e he => by cases he]

end Site

end

/-- With an expression its parts are in the list. -/
def Whole (into : Entered) (parts : List Part) : Prop :=
  ∀ e, .expr e ∈ parts → e.reached into ⊆ parts

namespace Whole

variable {into : Entered} {parts rest : List Part}

theorem nil (into : Entered) : Whole into [] := nofun

theorem append (h : Whole into parts) (hrest : Whole into rest) : Whole into (parts ++ rest) := by
  intro e he
  rcases List.mem_append.mp he with he | he
  · exact List.subset_append_of_subset_left _ (h e he)
  · exact List.subset_append_of_subset_right _ (hrest e he)

theorem name (use : Use) (x : Ident) (h : Whole into parts) :
    Whole into (.name use x :: parts) := by
  intro e he
  have hmem : .expr e ∈ parts := by simpa using he
  exact List.subset_cons_of_subset _ (h e hmem)

theorem target (t : Target) (h : Whole into parts) : Whole into (parts ++ [.target t]) := by
  intro e he
  have hmem : .expr e ∈ parts := by simpa using he
  exact List.subset_append_of_subset_left _ (h e hmem)

/-- The parts of an expression end with the expression. -/
theorem expr {e : Expr} (he : e.reached into = parts ++ [.expr e]) (h : Whole into parts) :
    Whole into (e.reached into) := by
  intro a ha
  rw [he, List.mem_append, List.mem_singleton] at ha
  rcases ha with ha | ha
  · rw [he]
    exact List.subset_append_of_subset_left _ (h a ha)
  · obtain rfl := Part.expr.inj ha
    exact List.Subset.refl _

theorem inner (h : Whole into parts) {n : Node} {e : Expr} (he : .expr (.paren n e) ∈ parts) :
    .expr e ∈ parts := by
  have hinner : .expr e ∈ (Expr.paren n e).reached into := by
    simp [Expr.reached, e.mem_reached]
  exact h _ he hinner

end Whole

section

variable (into : Entered)

mutual
theorem Expr.whole : ∀ e : Expr, Whole into (e.reached into)
  | .lit _ _ => .expr (List.nil_append _).symm (.nil into)
  | .var _ x => .expr rfl (.name .plain x (.nil into))
  | .paren _ e | .unary _ _ e => .expr rfl e.whole
  | .index _ x e => .expr rfl (.name .plain x e.whole)
  | .call _ f args => by
      refine .expr rfl (.name .called f ?_)
      cases into f args.length with
      | true => exact whole_exprs args
      | false => exact .nil into
  | .binary _ _ l r => .expr rfl (l.whole.append r.whole)
theorem whole_exprs : ∀ es : List Expr, Whole into (reachedExprs into es)
  | [] => .nil into
  | e :: rest => e.whole.append (whole_exprs rest)
end

theorem Target.whole (t : Target) : Whole into (t.reached into) := by
  obtain ⟨n, x, _ | e⟩ := t
  · exact .target _ (.name .plain x (.nil into))
  · exact .target _ (.name .plain x (e.whole into))

mutual
theorem Stmt.whole : ∀ s : Stmt, Whole into (s.reached into)
  | .assign _ target value => (target.whole into).append (value.whole into)
  | .ite _ condition yes none =>
      ((condition.whole into).append (whole_block yes)).append (.nil into)
  | .ite _ condition yes (some no) =>
      ((condition.whole into).append (whole_block yes)).append (whole_block no)
  | .loop _ condition body => (condition.whole into).append (whole_block body)
  | .call _ f args => .name .called f (whole_exprs into args)
  | .read _ target => target.whole into
  | .write _ value | .ret _ (some value) => value.whole into
  | .print _ _ | .ret _ none => .nil into
theorem whole_block : ∀ ss : List Stmt, Whole into (reachedBlock into ss)
  | [] => .nil into
  | s :: rest => s.whole.append (whole_block rest)
end

end

/-- Parentheses stand where what they enclose stands. -/
def Part.isTight : Part → Bool
  | expr (.paren n e) => decide (n.loc = e.loc)
  | _ => true

theorem Expr.loc_bare {f : Function} (h : ∀ part ∈ f.parts, part.isTight = true) (e : Expr)
    (he : .expr e ∈ f.parts) : e.bare.loc = e.loc := by
  induction e with
  | paren n e ih =>
      have hinner : .expr e ∈ f.parts := (whole_block everyCall f.body).inner he
      have hloc : n.loc = e.loc := of_decide_eq_true (h _ he)
      exact (ih hinner).trans hloc.symm
  | _ => rfl

namespace Program

variable {p : Program}

theorem functions_bare (p : Program) : p.bare.functions = p.functions.map Function.bare := rfl

theorem env_bare (p : Program) (f : Function) : p.bare.env f.bare = p.env f :=
  p.env_mapBodies bareBlock f (bareBlock f.body)

theorem callable_bare (p : Program) (f : Function) : p.bare.callable f.bare = p.callable f :=
  p.callable_mapBodies bareBlock f (bareBlock f.body)

theorem parts_bare (p : Program) :
    p.bare.parts = (p.parts.filter Part.isBare).map Part.bare := by
  have hparts (f : Function) : f.bare.parts = (f.parts.filter Part.isBare).map Part.bare :=
    reachedBlock_bare f.body
  simp only [parts, functions_bare, List.flatMap_map, hparts, List.filter_flatMap,
    List.map_flatMap]

theorem partIds_bare (p : Program) : p.bare.partIds = (p.parts.filter Part.isBare).map Part.id := by
  rw [partIds, parts_bare, List.map_map]
  refine List.map_congr_left fun part hpart => ?_
  exact Part.id_bare (List.mem_filter.mp hpart).2

theorem partIds_bare_sublist (p : Program) : p.bare.partIds.Sublist p.partIds := by
  rw [partIds_bare]
  exact List.filter_sublist.map Part.id

theorem mem_facts_bare_iff (p : Program) (c : Config) (fact : NodeId × Fact) :
    fact ∈ (p.bare.bodiesReading c).facts ↔
      ∃ f ∈ p.functions, ∃ part ∈ reachedBlock (p.callable f) f.body,
        part.isBare = true ∧ fact ∈ part.facts (p.env f) := by
  have hvisited (f : Function) : reachedBlock (p.callable f) f.bare.body =
      ((reachedBlock (p.callable f) f.body).filter Part.isBare).map Part.bare :=
    reachedBlock_bare f.body
  rw [facts_bodiesReading, functions_bare, List.flatMap_map]
  simp only [env_bare, callable_bare, hvisited, List.flatMap_map, List.mem_flatMap, List.mem_filter]
  constructor
  · rintro ⟨f, hf, part, ⟨hpart, hbare⟩, hfact⟩
    exact ⟨f, hf, part, hpart, hbare, Part.facts_bare hbare ▸ hfact⟩
  · rintro ⟨f, hf, part, hpart, hbare, hfact⟩
    exact ⟨f, hf, part, ⟨hpart, hbare⟩, (Part.facts_bare hbare).symm ▸ hfact⟩

/-- On the nodes that remain the same is written. -/
theorem facts_bare_iff (hparts : p.partIds.Nodup) (c : Config) {node : NodeId}
    (hnode : node ∈ p.bare.partIds) (fact : Fact) :
    (node, fact) ∈ (p.bare.bodiesReading c).facts ↔ (node, fact) ∈ (p.bodiesReading c).facts := by
  rw [mem_facts_bare_iff, facts_bodiesReading]
  simp only [List.mem_flatMap]
  constructor
  · rintro ⟨f, hf, part, hpart, -, hfact⟩
    exact ⟨f, hf, part, hpart, hfact⟩
  · rintro ⟨f, hf, part, hpart, hfact⟩
    refine ⟨f, hf, part, hpart, ?_, hfact⟩
    rw [partIds_bare] at hnode
    obtain ⟨other, hother, hid⟩ := List.mem_map.mp hnode
    obtain ⟨hmem, hbare⟩ := List.mem_filter.mp hother
    have hvisited : part ∈ p.parts :=
      List.mem_flatMap.mpr ⟨f, hf, (reachedBlock_sublist _ _).subset hpart⟩
    -- no other part has the number of this one, so it is the one that remains
    obtain rfl := List.inj_on_of_nodup_map hparts hmem hvisited
      (hid.trans (Part.eq_id_of_mem_facts hfact))
    exact hbare

theorem found_bare (p : Program) (c : Config) :
    (p.bare.reading c 0).found =
      p.redeclared ++
        (p.functions.flatMap fun f =>
          (f.sites p).flatMap fun site => site.bare.found (p.env f) f.resultType) ++
        p.entryReports c := by
  have hsites (f : Function) : f.bare.sites p.bare = (f.sites p).map Site.bare := by
    rw [Function.sites, env_bare]
    exact blockSites_bare f.body
  have hredeclared : p.bare.redeclared = p.redeclared := p.redeclared_mapBodies bareBlock
  have hentry : p.bare.entryReports c = p.entryReports c := p.entryReports_mapBodies bareBlock c
  rw [found_eq_sites, hredeclared, hentry, functions_bare, List.flatMap_map]
  simp only [hsites, env_bare, List.flatMap_map]
  rfl

theorem complaints_bare (p : Program) (c : Config) :
    (p.bare.reading c 0).found.map Diagnostic.complaint =
      (p.reading c 0).found.map Diagnostic.complaint := by
  rw [found_bare, found_eq_sites]
  simp only [List.map_append, List.map_flatMap, Site.complaints_bare]

theorem found_bare_of_isTight (h : ∀ part ∈ p.parts, part.isTight = true) (c : Config) :
    (p.bare.reading c 0).found = (p.reading c 0).found := by
  rw [found_bare, found_eq_sites]
  congr 2
  refine List.flatMap_congr fun f hf => List.flatMap_congr fun site hsite => ?_
  have htight : ∀ part ∈ f.parts, part.isTight = true := fun part hpart =>
    h part (List.mem_flatMap.mpr ⟨f, hf, hpart⟩)
  refine Site.found_bare (p.env f) f.resultType fun e he => e.loc_bare htight ?_
  have hmem := f.askedAmong_sites p site hsite (Site.mem_operands_of_placedAt he)
  exact (reachedBlock_sublist _ _).subset hmem

end Program

/-! ## Runs -/

/-- Without its parentheses a program is complained of in the same way and in the same order, at
the same places if parentheses stand where what they enclose stands, and the nodes that remain are
annotated as they were. A visited pair of parentheses has the type of what it encloses and is no
place. -/
theorem parentheses_are_transparent (p : Program) (c : Config) (hscopes : p.scopeIds.Nodup)
    (hparts : p.partIds.Nodup) :
    ∃ t u, analyse p c = .ok t ∧ analyse p.bare c = .ok u ∧
      u.diagnostics.toList.map Diagnostic.complaint =
        t.diagnostics.toList.map Diagnostic.complaint ∧
      ((∀ part ∈ p.parts, part.isTight = true) →
        u.diagnostics.toList = t.diagnostics.toList) ∧
      (∀ node ∈ p.bare.partIds,
        u.annotations.type? node = t.annotations.type? node ∧
          u.annotations.lvalue? node = t.annotations.lvalue? node) ∧
      ∀ f ∈ p.functions, ∀ n e, .expr (.paren n e) ∈ reachedBlock (p.callable f) f.body →
        (∃ τ, t.annotations.type? n.id = some τ ∧ t.annotations.type? e.node.id = some τ) ∧
          t.annotations.lvalue? n.id = some false := by
  obtain ⟨t, ht, houtcome⟩ := Program.exists_outcome c hscopes hparts
  obtain ⟨u, hu, hbare⟩ := Program.exists_outcome (p := p.bare) c
    (by rwa [Program.bare, Program.scopeIds_mapBodies]) (p.partIds_bare_sublist.nodup hparts)
  have hsame (node : NodeId) (hnode : node ∈ p.bare.partIds) (fact : Fact)
      (hfact : fact.field ≠ .scope) :
      u.annotations.Holds node fact ↔ t.annotations.Holds node fact := by
    rw [hbare.holds_iff_of_ne_scope hfact, houtcome.holds_iff_of_ne_scope hfact,
      Program.facts_bare_iff hparts c hnode]
  refine ⟨t, u, ht, hu, ?_, fun htight => ?_, fun node hnode => ⟨?_, ?_⟩, fun f hf n e he => ?_⟩
  · rw [houtcome.found, hbare.found, p.complaints_bare c]
  · rw [houtcome.found, hbare.found, Program.found_bare_of_isTight htight]
  · exact Option.ext fun τ => hsame node hnode (.type τ) (by simp [Fact.field])
  · exact Option.ext fun lvalue => hsame node hnode (.lvalue lvalue) (by simp [Fact.field])
  · have hinner := (whole_block (p.callable f) f.body).inner he
    obtain ⟨htype, hlvalue⟩ := houtcome.visited hf he
    exact ⟨⟨_, htype, (houtcome.visited hf hinner).1⟩, hlvalue⟩

/-- An argument of the wrong type at column 4, in parentheses at some column. -/
def enclosed (column : Nat) : Program :=
  let build : Build Program := do
    let x ← Build.param "x" (.basic .bool)
    let f ← Build.function "f" [x] none [] []
    Build.moveTo 2 4
    let one ← Build.lit (.int 1)
    Build.moveTo 2 column
    let call ← Build.procedureCall "f" [← Build.paren one]
    let start ← Build.function "main" [] none [] [call]
    Build.program [f, start]
  (build.run {}).1

theorem enclosed_without_parentheses :
    (∃ t u, analyse (enclosed 4) {} = .ok t ∧ analyse (enclosed 4).bare {} = .ok u ∧
      u.diagnostics.toList = t.diagnostics.toList) ∧
    ∃ t u, analyse (enclosed 3) {} = .ok t ∧ analyse (enclosed 3).bare {} = .ok u ∧
      t.diagnostics.toList = [⟨.argumentType "f" 1, ⟨2, 3, none⟩⟩] ∧
      u.diagnostics.toList = [⟨.argumentType "f" 1, ⟨2, 4, none⟩⟩] ∧
      ∀ node ∈ (enclosed 3).bare.partIds,
        u.annotations.type? node = t.annotations.type? node := by
  constructor
  · obtain ⟨t, u, ht, hu, -, htight, -⟩ :=
      parentheses_are_transparent (enclosed 4) {} (by decide) (by decide)
    exact ⟨t, u, ht, hu, htight (by decide +kernel)⟩
  · obtain ⟨t, u, ht, hu, -, -, hsame, -⟩ :=
      parentheses_are_transparent (enclosed 3) {} (by decide) (by decide)
    refine ⟨t, u, ht, hu, ?_, ?_, fun node hnode => (hsame node hnode).1⟩
    · rw [(outcome_of_analyse ht).found]
      decide +kernel
    · rw [(outcome_of_analyse hu).found]
      decide +kernel

end Asl
