import Asl.Proofs.Acceptance
import Mathlib.Data.List.Forall2
import Mathlib.Data.List.Perm.Basic

/-!
# The order of functions and of statements

The reading of a statement depends on what its names mean and on nothing that is read before
it. So statements may change places within a list, at whatever depth the list stands: the same
events come in another order. Functions may change places as well. As long as their names are
distinct, the same functions stand behind the same names, and only the numbers of the scopes
tell in which order they were registered.
-/

namespace Asl

mutual
/-- The same statement but for the order within the lists in it. -/
inductive Stmt.Reordered : Stmt → Stmt → Prop where
  | refl (s : Stmt) : Stmt.Reordered s s
  | iteThen {yes yes' : List Stmt} (loc : Location) (condition : Expr) :
      BlockReordered yes yes' →
        Stmt.Reordered (.ite loc condition yes none) (.ite loc condition yes' none)
  | iteElse {yes yes' no no' : List Stmt} (loc : Location) (condition : Expr) :
      BlockReordered yes yes' → BlockReordered no no' →
        Stmt.Reordered (.ite loc condition yes (some no)) (.ite loc condition yes' (some no'))
  | loop {body body' : List Stmt} (loc : Location) (condition : Expr) :
      BlockReordered body body' →
        Stmt.Reordered (.loop loc condition body) (.loop loc condition body')
inductive BlockReordered : List Stmt → List Stmt → Prop where
  | nil : BlockReordered [] []
  | cons {s s' : Stmt} {ss ss' : List Stmt} :
      s.Reordered s' → BlockReordered ss ss' → BlockReordered (s :: ss) (s' :: ss')
  | swap (s s' : Stmt) (ss : List Stmt) : BlockReordered (s' :: s :: ss) (s :: s' :: ss)
  | trans {ss ss' ss'' : List Stmt} :
      BlockReordered ss ss' → BlockReordered ss' ss'' → BlockReordered ss ss''
end

theorem BlockReordered.of_perm {ss ss' : List Stmt} (h : ss.Perm ss') : BlockReordered ss ss' := by
  induction h with
  | nil => exact .nil
  | cons s _ ih => exact .cons (.refl s) ih
  | swap s s' ss => exact .swap s s' ss
  | trans _ _ ih ih' => exact .trans ih ih'

section

variable (env : Env) (result : Ty)

mutual
theorem Stmt.Reordered.perm_reading : ∀ {s s' : Stmt}, s.Reordered s' →
    (s.reading env result).Perm (s'.reading env result)
  | _, _, .refl s => .refl _
  | _, _, .iteThen loc condition hyes => by
      simp only [Stmt.reading]
      exact (hyes.perm_reading.append_left _).append_right _
  | _, _, .iteElse loc condition hyes hno => by
      simp only [Stmt.reading]
      exact (hyes.perm_reading.append_left _).append hno.perm_reading
  | _, _, .loop loc condition hbody => by
      simp only [Stmt.reading]
      exact hbody.perm_reading.append_left _
theorem BlockReordered.perm_reading : ∀ {ss ss' : List Stmt}, BlockReordered ss ss' →
    (blockReading env result ss).Perm (blockReading env result ss')
  | _, _, .nil => .refl _
  | _, _, .cons hs hss => by
      simp only [blockReading]
      exact hs.perm_reading.append hss.perm_reading
  | _, _, .swap s s' ss => by
      simp only [blockReading, ← List.append_assoc]
      exact List.perm_append_comm.append_right _
  | _, _, .trans h h' => h.perm_reading.trans h'.perm_reading
end

end

structure Function.Reordered (f g : Function) : Prop where
  eq : g = { f with body := g.body }
  body : BlockReordered f.body g.body

/-- The same program but for the order of its functions and within their bodies. -/
structure Program.Reordered (p q : Program) : Prop where
  node : q.toNode = p.toNode
  functions : ∃ fs, List.Forall₂ Function.Reordered p.functions fs ∧ fs.Perm q.functions

namespace Function.Reordered

variable {f g : Function}

theorem id (h : f.Reordered g) : g.id = f.id := by
  rw [h.eq]

theorem name (h : f.Reordered g) : g.name = f.name := by
  rw [h.eq]

theorem signature (h : f.Reordered g) : g.signature = f.signature := by
  rw [h.eq]
  rfl

theorem decls (h : f.Reordered g) : g.decls = f.decls := by
  rw [h.eq]
  rfl

theorem resultType (h : f.Reordered g) : g.resultType = f.resultType := by
  rw [h.eq]
  rfl

theorem scope (h : f.Reordered g) : g.scope = f.scope := by
  rw [h.eq]
  rfl

end Function.Reordered

namespace Program.Reordered

variable {p q : Program}

/-- What is the same for each function up to its order is so for the program. -/
theorem perm_flatMap {part : Function → List α} (h : p.Reordered q)
    (hpart : ∀ f g, f.Reordered g → (part f).Perm (part g)) :
    (p.functions.flatMap part).Perm (q.functions.flatMap part) := by
  obtain ⟨fs, hfs, hperm⟩ := h.functions
  have hparts : List.Forall₂ (·.Perm ·) (p.functions.map part) (fs.map part) := by
    rw [List.forall₂_map_left_iff, List.forall₂_map_right_iff]
    exact hfs.imp hpart
  exact (List.Perm.flatten_congr hparts).trans (hperm.flatMap_right part)

theorem perm_map {view : Function → α} (h : p.Reordered q)
    (hview : ∀ f g, f.Reordered g → view g = view f) :
    (p.functions.map view).Perm (q.functions.map view) := by
  rw [List.map_eq_flatMap, List.map_eq_flatMap]
  refine h.perm_flatMap fun f g hfg => ?_
  rw [hview f g hfg]

theorem perm_names (h : p.Reordered q) :
    (p.functions.map fun f => f.name.name).Perm (q.functions.map fun f => f.name.name) :=
  h.perm_map fun f g hfg => by rw [hfg.name]

theorem perm_scopeIds (h : p.Reordered q) : p.scopeIds.Perm q.scopeIds := by
  have hids : (p.functions.map fun f => f.id).Perm (q.functions.map fun f => f.id) :=
    h.perm_map fun f g hfg => hfg.id
  rw [scopeIds, scopeIds, h.node]
  exact hids.cons _

end Program.Reordered

section

variable {p q : Program}

theorem Program.map_function?_eq_some_iff (hnames : (p.functions.map fun f => f.name.name).Nodup)
    {view : Function → α} {x : String} {a : α} :
    (p.function? x).map view = some a ↔
      (x, a) ∈ p.functions.map fun f => (f.name.name, view f) := by
  simp only [Option.map_eq_some_iff, function?_eq_some_iff hnames, List.mem_map, Prod.mk.injEq,
    and_assoc]

namespace Program.Reordered

/-- Behind a name there is the same function. -/
theorem map_function? (h : p.Reordered q) (hnames : (p.functions.map fun f => f.name.name).Nodup)
    (view : Function → α) (hview : ∀ f g, f.Reordered g → view g = view f) (x : String) :
    (q.function? x).map view = (p.function? x).map view := by
  have hviews : (p.functions.map fun f => (f.name.name, view f)).Perm
      (q.functions.map fun f => (f.name.name, view f)) :=
    h.perm_map fun f g hfg => by rw [hfg.name, hview f g hfg]
  refine Option.ext fun a => ?_
  rw [map_function?_eq_some_iff (h.perm_names.nodup hnames), map_function?_eq_some_iff hnames]
  exact hviews.mem_iff.symm

theorem env_eq (h : p.Reordered q) (hnames : (p.functions.map fun f => f.name.name).Nodup)
    (f : Function) : q.env f = p.env f := by
  let view (g : Function) : Binding := ⟨g.signature, .function⟩
  have hview (f g : Function) (hfg : f.Reordered g) : view g = view f := by
    simp only [view, hfg.signature]
  funext x
  exact congrArg ((f.declared? x).or ·) (h.map_function? hnames view hview x)

theorem startsAt_eq (h : p.Reordered q) (hnames : (p.functions.map fun f => f.name.name).Nodup)
    (x : String) : q.startsAt x = p.startsAt x := by
  let view (f : Function) : Bool := f.params.isEmpty && f.result.isNone
  have hview (f g : Function) (hfg : f.Reordered g) : view g = view f := by
    rw [hfg.eq]
  have hstart := congrArg (Option.any id) (h.map_function? hnames view hview x)
  simpa [startsAt, Option.any_map, Function.comp_def] using hstart

end Program.Reordered

theorem Function.Reordered.env_eq {f g : Function} (h : f.Reordered g) : p.env g = p.env f := by
  funext x
  rw [Program.env, Program.env, Function.declared?, Function.declared?, h.decls]

theorem functionsRedeclared_eq_flatMap {names : List String} {fs : List Function}
    (hnames : redeclared names (fs.map fun f => f.name) = []) :
    functionsRedeclared names fs = fs.flatMap fun f => redeclared [] (f.decls.map Prod.fst) := by
  induction fs generalizing names with
  | nil => rfl
  | cons f rest ih =>
      rw [List.map_cons, redeclared, List.append_eq_nil_iff] at hnames
      obtain ⟨hname, hrest⟩ := hnames
      simp only [functionsRedeclared, redeclared, hname, ih hrest, List.append_nil,
        List.nil_append, List.flatMap_cons]

namespace Program.Reordered

theorem perm_redeclared (h : p.Reordered q)
    (hnames : (p.functions.map fun f => f.name.name).Nodup) :
    p.redeclared.Perm q.redeclared := by
  have hdistinct {r : Program} (hr : (r.functions.map fun f => f.name.name).Nodup) :
      Asl.redeclared [] (r.functions.map fun f => f.name) = [] := by
    simpa [Asl.redeclared_eq_nil_iff, Function.comp_def] using hr
  rw [Program.redeclared, Program.redeclared, functionsRedeclared_eq_flatMap (hdistinct hnames),
    functionsRedeclared_eq_flatMap (hdistinct (h.perm_names.nodup hnames))]
  exact h.perm_flatMap fun f g hfg => by rw [hfg.decls]

theorem perm_bodiesReading (h : p.Reordered q)
    (hnames : (p.functions.map fun f => f.name.name).Nodup) (c : Config) :
    (p.bodiesReading c).Perm (q.bodiesReading c) := by
  have hreading : Function.reading q = Function.reading p := by
    funext f
    rw [Function.reading, Function.reading, h.env_eq hnames]
  have hentry : q.entryReports c = p.entryReports c := by
    rw [entryReports, entryReports, h.startsAt_eq hnames, h.node]
  rw [bodiesReading, bodiesReading, hreading, hentry]
  refine (h.perm_flatMap fun f g hfg => ?_).append_right _
  rw [Function.reading, Function.reading, hfg.env_eq, hfg.resultType]
  exact hfg.body.perm_reading _ _

theorem perm_found (h : p.Reordered q) (hnames : (p.functions.map fun f => f.name.name).Nodup)
    (c : Config) (base : ScopeId) : (p.reading c base).found.Perm (q.reading c base).found := by
  have hfound (r : Program) :
      (r.reading c base).found = r.redeclared ++ (r.bodiesReading c).found := by
    simp [reading, registering, found_functionsRegistering, Program.redeclared]
  rw [hfound, hfound]
  exact (h.perm_redeclared hnames).append ((h.perm_bodiesReading hnames c).filterMap _)

theorem perm_keys (h : p.Reordered q) (hnames : (p.functions.map fun f => f.name.name).Nodup)
    (c : Config) (base : ScopeId) : (p.reading c base).keys.Perm (q.reading c base).keys := by
  rw [reading, reading, Reading.keys_append, Reading.keys_append, keys_registering,
    keys_registering]
  have hbodies := (h.perm_bodiesReading hnames c).filterMap Event.fact?
  exact (h.perm_scopeIds.map _).append (hbodies.map _)

end Program.Reordered

end

/-! ## Reordered runs -/

/-- The scope that a node opens. -/
def Tables.scopeAt? (t : Tables) (node : NodeId) : Option Scope :=
  (t.annotations.scope? node).bind fun id => t.symbols.scopes[id]?

/-- Scopes with the same declarations, in whatever order. -/
structure Scope.Same (s s' : Scope) : Prop where
  name : s'.name = s.name
  find? : ∀ x, s'.find? x = s.find? x

/-- The same is found, in whatever order, and the same is known of each node, whatever the
numbers of the scopes. -/
structure Tables.SameInOrder (t u : Tables) : Prop where
  found : t.diagnostics.toList.Perm u.diagnostics.toList
  record : ∀ node, (u.annotations.get? node).isSome = (t.annotations.get? node).isSome
  type : ∀ node, u.annotations.type? node = t.annotations.type? node
  lvalue : ∀ node, u.annotations.lvalue? node = t.annotations.lvalue? node
  scope : ∀ node, Option.Rel Scope.Same (t.scopeAt? node) (u.scopeAt? node)

section

variable {p q : Program} {c : Config} {t u : Tables}

theorem Registered.scopeAt? (h : Registered p t) :
    t.scopeAt? p.id = some p.scope ∧ ∀ f ∈ p.functions, t.scopeAt? f.id = some f.scope := by
  have hopens {node : NodeId} {scope : Scope}
      (hnode : ∃ id, t.annotations.scope? node = some id ∧ t.symbols.scopes[id]? = some scope) :
      t.scopeAt? node = some scope := by
    obtain ⟨id, hid, hscope⟩ := hnode
    simp [Tables.scopeAt?, hid, hscope]
  exact ⟨hopens h.program, fun f hf => hopens (h.function f hf)⟩

theorem Scope.Same.refl (s : Scope) : s.Same s := ⟨rfl, fun _ => rfl⟩

/-- There is a record of a node if something is written down about it. -/
theorem Program.Outcome.isSome_get?_iff (h : p.Outcome c t) (node : NodeId) :
    (t.annotations.get? node).isSome = true ↔ ∃ field, (node, field) ∈ (p.reading c 0).keys := by
  simp only [← h.knows_iff]
  exact ⟨h.noBlank node, fun ⟨_, hfield⟩ => Annotations.isSome_get?_of_knows hfield⟩

namespace Program.Reordered

theorem same_scope (h : p.Reordered q)
    (hnames : (p.functions.map fun f => f.name.name).Nodup) : p.scope.Same q.scope := by
  refine ⟨?_, fun x => ?_⟩
  · rw [Program.scope, Program.scope, Scope.name_declareAll, Scope.name_declareAll]
  · rw [q.find?_scope, p.find?_scope]
    exact h.map_function? hnames _ (fun f g hfg => by rw [hfg.signature]) x

theorem analyse_eq_ok (h : p.Reordered q)
    (hnames : (p.functions.map fun f => f.name.name).Nodup) (ht : analyse p c = .ok t) :
    ∃ u, analyse q c = .ok u := by
  refine exists_analyse_eq_ok ?_
  have hkeys : (p.reading c 0).keys.Nodup := by
    obtain ⟨key, -, hfault⟩ | ⟨hnone, -⟩ := analyse_cases p c
    · rw [ht] at hfault
      cases hfault
    · exact (firstRepeat_eq_none_iff.mp hnone).1
  rw [firstRepeat_eq_none_iff]
  exact ⟨(h.perm_keys hnames c 0).nodup hkeys, fun _ _ => rfl⟩

theorem same_holds (h : p.Reordered q) (hnames : (p.functions.map fun f => f.name.name).Nodup)
    (ht : p.Outcome c t) (hu : q.Outcome c u) (fact : Fact) (hfact : fact.field ≠ .scope)
    (node : NodeId) : u.annotations.Holds node fact ↔ t.annotations.Holds node fact := by
  rw [hu.holds_iff_of_ne_scope hfact, ht.holds_iff_of_ne_scope hfact]
  exact ((h.perm_bodiesReading hnames c).filterMap Event.fact?).mem_iff.symm

theorem same_scopeAt? (h : p.Reordered q)
    (hnames : (p.functions.map fun f => f.name.name).Nodup) (ht : analyse p c = .ok t)
    (hu : analyse q c = .ok u) (node : NodeId) :
    Option.Rel Scope.Same (t.scopeAt? node) (u.scopeAt? node) := by
  obtain ⟨hp, hfunctions⟩ := (registered_of_analyse ht).scopeAt?
  obtain ⟨hq, hfunctions'⟩ := (registered_of_analyse hu).scopeAt?
  by_cases hnode : node ∈ p.scopeIds
  · rcases List.mem_cons.mp hnode with rfl | hmem
    · rw [hp, ← congrArg Node.id h.node, hq]
      exact .some (h.same_scope hnames)
    · have hscopes : (p.functions.map fun f => (f.id, f.scope)).Perm
          (q.functions.map fun f => (f.id, f.scope)) :=
        h.perm_map fun f g hfg => by rw [hfg.id, hfg.scope]
      obtain ⟨f, hf, rfl⟩ := List.mem_map.mp hmem
      obtain ⟨g, hg, hsame⟩ := List.mem_map.mp (hscopes.mem_iff.mp (List.mem_map_of_mem hf))
      obtain ⟨hid, hscope⟩ := Prod.mk.inj hsame
      rw [hfunctions f hf, ← hid, hfunctions' g hg, hscope]
      exact .some (.refl _)
  · have hnone : t.annotations.scope? node = none := by
      rw [← Option.not_isSome_iff_eq_none, (outcome_of_analyse ht).covers.scope]
      exact hnode
    have hnone' : u.annotations.scope? node = none := by
      rw [← Option.not_isSome_iff_eq_none, (outcome_of_analyse hu).covers.scope,
        ← h.perm_scopeIds.mem_iff]
      exact hnode
    simp only [Tables.scopeAt?, hnone, hnone', Option.bind_none]
    exact .none

theorem sameInOrder (h : p.Reordered q) (hnames : (p.functions.map fun f => f.name.name).Nodup)
    (ht : analyse p c = .ok t) (hu : analyse q c = .ok u) : t.SameInOrder u := by
  have hp := outcome_of_analyse ht
  have hq := outcome_of_analyse hu
  refine ⟨?_, fun node => ?_, fun node => ?_, fun node => ?_, h.same_scopeAt? hnames ht hu⟩
  · rw [hp.found, hq.found]
    exact h.perm_found hnames c 0
  · rw [Bool.eq_iff_iff, hq.isSome_get?_iff, hp.isSome_get?_iff]
    simp only [(h.perm_keys hnames c 0).mem_iff]
  · exact Option.ext fun type => h.same_holds hnames hp hq (.type type) nofun node
  · exact Option.ext fun lvalue => h.same_holds hnames hp hq (.lvalue lvalue) nofun node

end Program.Reordered

end

/-- Functions may be put in any order and so may the statements in every list of a body. -/
theorem order_does_not_matter (c : Config) {p q : Program} (hscopes : p.scopeIds.Nodup)
    (hparts : p.partIds.Nodup) (hnames : (p.functions.map fun f => f.name.name).Nodup)
    (h : p.Reordered q) :
    ∃ t u, analyse p c = .ok t ∧ analyse q c = .ok u ∧ t.SameInOrder u := by
  obtain ⟨t, ht, -⟩ := Program.exists_outcome c hscopes hparts
  obtain ⟨u, hu⟩ := h.analyse_eq_ok hnames ht
  exact ⟨t, u, ht, hu, h.sameInOrder hnames ht hu⟩

/-- The body of a function after a `return` in a loop, with all lists arranged in some way. -/
def Function.looping (arrange : {α : Type} → List α → List α) (f : Function) : Function :=
  let body := arrange (.ret f.loc none :: f.body)
  let again := .loop f.loc (.lit ⟨16 + f.id, f.loc⟩ (.bool true)) body
  { f with body := arrange [.print f.loc f.name.name, again] }

def halvingAgain (arrange : {α : Type} → List α → List α) : Program :=
  { halving with functions := arrange (halving.functions.map (Function.looping arrange)) }

theorem halvingAgain_reordered : (halvingAgain id).Reordered (halvingAgain List.reverse) := by
  have hfunction (f : Function) : (f.looping id).Reordered (f.looping List.reverse) := by
    have hagain := (List.reverse_perm (Stmt.ret f.loc none :: f.body)).symm
    exact ⟨rfl, .trans (.cons (.refl _) (.cons (.loop _ _ (.of_perm hagain)) .nil)) (.swap _ _ _)⟩
  have hfunctions : List.Forall₂ Function.Reordered (halving.functions.map (Function.looping id))
      (halving.functions.map (Function.looping List.reverse)) := by
    rw [List.forall₂_map_left_iff, List.forall₂_map_right_iff, List.forall₂_same]
    exact fun f _ => hfunction f
  exact ⟨rfl, _, hfunctions, (List.reverse_perm _).symm⟩

theorem halvingAgain_backwards :
    ∃ t u, analyse (halvingAgain id) {} = .ok t ∧
      analyse (halvingAgain List.reverse) {} = .ok u ∧ t.SameInOrder u :=
  order_does_not_matter {} (by decide +kernel) (by decide +kernel) (by decide +kernel)
    halvingAgain_reordered

end Asl
