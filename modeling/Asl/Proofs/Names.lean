import Asl.Proofs.Keeps
import Asl.Proofs.Outcome
import Asl.Proofs.Relabelling
import Mathlib.Logic.Equiv.Basic

/-!
# Names are opaque

Names are compared with one another and nothing else is asked of them. So when all of them are
changed, equal ones alike and distinct ones apart, every body is read with names that mean the
same, and what is declared is declared anew under the new names. The one name that a run makes up
itself is that of the scope of the program, which is never looked up.
-/

namespace Asl

section

variable (σ : String → String)

def Param.rename (p : Param) : Param := { p with name := p.name.relabel (.ofNames σ) }

def VarDecl.rename (d : VarDecl) : VarDecl :=
  { d with names := d.names.map (Ident.relabel (.ofNames σ)) }

def Function.rename (f : Function) : Function :=
  { f with
    name := f.name.relabel (.ofNames σ)
    params := f.params.map (Param.rename σ)
    vars := f.vars.map (VarDecl.rename σ)
    body := relabelBlock (.ofNames σ) f.body }

def Program.rename (p : Program) : Program :=
  { p with functions := p.functions.map (Function.rename σ) }

def Config.rename (c : Config) : Config := ⟨σ c.entryPoint⟩

def Diagnostics.rename (ds : Diagnostics) : Diagnostics := ⟨ds.entries.map (Diagnostic.rename σ)⟩

def Decl.rename (d : Decl) : Decl := (d.1.relabel (.ofNames σ), d.2)

end

/-- A scope under a new label, with what it declares under new names. -/
def Scope.rename (label σ : String → String) (s : Scope) : Scope :=
  ⟨label s.name, s.bindings.map fun (x, b) => (σ x, b)⟩

section

variable {σ : String → String}

theorem beq_rename (hσ : σ.Injective) (x y : String) : (σ x == σ y) = (x == y) := by
  rw [Bool.eq_iff_iff, beq_iff_eq, beq_iff_eq, hσ.eq_iff]

namespace Scope

variable {label : String → String}

theorem find?_rename (hσ : σ.Injective) (s : Scope) (x : String) :
    (s.rename label σ).find? (σ x) = s.find? x := by
  obtain ⟨name, bindings⟩ := s
  unfold find? rename
  induction bindings with
  | nil => rfl
  | cons d rest ih =>
      obtain ⟨y, b⟩ := d
      simp only [List.map_cons, List.lookup_cons, beq_rename hσ]
      rw [← ih]

theorem declare_rename (hσ : σ.Injective) (s : Scope) (x : String) (b : Binding) :
    (s.rename label σ).declare (σ x) b = (s.declare x b).rename label σ := by
  unfold declare
  rw [s.find?_rename hσ]
  split
  · rfl
  · simp [rename]

theorem declareAll_rename (hσ : σ.Injective) (s : Scope) (ds : List Decl) :
    (s.rename label σ).declareAll (ds.map (Decl.rename σ)) =
      (s.declareAll ds).rename label σ := by
  induction ds generalizing s with
  | nil => rfl
  | cons d ds ih =>
      have hdeclare : (s.rename label σ).declare (d.rename σ).1.name (d.rename σ).2 =
          (s.declare d.1.name d.2).rename label σ := s.declare_rename hσ d.1.name d.2
      rw [List.map_cons, declareAll_cons, declareAll_cons, hdeclare, ih]

end Scope

namespace Function

theorem decls_rename (f : Function) : (f.rename σ).decls = f.decls.map (Decl.rename σ) := by
  simp [decls, paramDecls, varDecls, rename, Param.rename, VarDecl.rename, Decl.rename,
    List.flatMap_map, List.map_flatMap, Function.comp_def]

theorem signature_rename (f : Function) : (f.rename σ).signature = f.signature := by
  simp [signature, rename, Param.rename, Function.comp_def]

theorem decl_rename (f : Function) : (f.rename σ).decl = f.decl.rename σ := by
  rw [decl, signature_rename]
  rfl

theorem declared?_rename (hσ : σ.Injective) (f : Function) (x : String) :
    (f.rename σ).declared? (σ x) = f.declared? x := by
  simp [declared?, decls_rename, List.find?_map, Decl.rename, Function.comp_def, beq_rename hσ]

theorem scope_rename (hσ : σ.Injective) (f : Function) :
    (f.rename σ).scope = f.scope.rename σ σ := by
  rw [scope, decls_rename]
  exact Scope.declareAll_rename hσ ⟨f.name.name, []⟩ f.decls

end Function

namespace Program

theorem scope_rename (hσ : σ.Injective) (p : Program) :
    (p.rename σ).scope = p.scope.rename id σ := by
  have hdecls : (p.rename σ).functions.map Function.decl =
      (p.functions.map Function.decl).map (Decl.rename σ) := by
    simp [rename, Function.comp_def, Function.decl_rename]
  have hempty : (⟨globalScope, []⟩ : Scope) = Scope.rename id σ ⟨globalScope, []⟩ := rfl
  rw [scope, hdecls, hempty, Scope.declareAll_rename hσ, scope]

theorem function?_rename (hσ : σ.Injective) (p : Program) (x : String) :
    (p.rename σ).function? (σ x) = (p.function? x).map (Function.rename σ) := by
  have hname (f : Function) : ((f.rename σ).name.name == σ x) = (f.name.name == x) :=
    beq_rename hσ f.name.name x
  simp only [function?, rename, List.find?_map, Function.comp_def, hname]

theorem env_rename (hσ : σ.Injective) (p : Program) (f : Function) :
    (p.env f).Renames σ ((p.rename σ).env (f.rename σ)) := by
  intro x
  simp [env, f.declared?_rename hσ, p.function?_rename hσ, Function.comp_def,
    Function.signature_rename]

theorem startsAt_rename (hσ : σ.Injective) (p : Program) (x : String) :
    (p.rename σ).startsAt (σ x) = p.startsAt x := by
  simp [startsAt, p.function?_rename hσ, Option.any_map, Function.rename]

end Program

theorem redeclared_rename (hσ : σ.Injective) (names : List String) (xs : List Ident) :
    redeclared (names.map σ) (xs.map (Ident.relabel (.ofNames σ))) =
      (redeclared names xs).map (Diagnostic.rename σ) := by
  induction xs generalizing names with
  | nil => rfl
  | cons x rest ih =>
      have hcontains : (names.map σ).contains (σ x.name) = names.contains x.name := by
        rw [Bool.eq_iff_iff, List.contains_iff_mem, List.contains_iff_mem,
          List.mem_map_of_injective hσ]
      have hrest := ih (x.name :: names)
      rw [List.map_cons] at hrest
      rw [List.map_cons, redeclared, redeclared, x.name_relabel, hcontains, hrest,
        List.map_append, map_rename_complainIf]
      rfl

theorem functionsRegistering_rename (hσ : σ.Injective) (names : List String) (next : ScopeId)
    (fs : List Function) :
    functionsRegistering (names.map σ) next (fs.map (Function.rename σ)) =
      (functionsRegistering names next fs).map (Event.relabel (.ofNames σ)) := by
  induction fs generalizing names next with
  | nil => rfl
  | cons f rest ih =>
      have hname := redeclared_rename hσ names [f.name]
      have hdecls := redeclared_rename hσ [] (f.decls.map Prod.fst)
      have hidents : (f.rename σ).decls.map Prod.fst =
          (f.decls.map Prod.fst).map (Ident.relabel (.ofNames σ)) := by
        simp [f.decls_rename, Function.comp_def, Decl.rename]
      have hrest := ih (f.name.name :: names) (next + 1)
      simp only [List.map_cons, List.map_nil] at hname hdecls hrest
      simp only [List.map_cons, functionsRegistering, List.map_append, map_relabel_reports,
        ← hrest, ← hname, ← hdecls, hidents]
      rfl

namespace Program

theorem registering_rename (hσ : σ.Injective) (p : Program) (base : ScopeId) :
    (p.rename σ).registering base = (p.registering base).map (Event.relabel (.ofNames σ)) := by
  have hfunctions := functionsRegistering_rename hσ [] (base + 1) p.functions
  rw [registering, registering, List.map_cons, ← hfunctions]
  rfl

theorem bodiesReading_rename (hσ : σ.Injective) (p : Program) (c : Config) :
    (p.rename σ).bodiesReading (c.rename σ) =
      (p.bodiesReading c).map (Event.relabel (.ofNames σ)) := by
  have hreading (f : Function) :
      (f.rename σ).reading (p.rename σ) = (f.reading p).map (Event.relabel (.ofNames σ)) :=
    blockReading_relabel (p.env_rename hσ f) f.resultType f.body
  have hentry : (p.rename σ).entryReports (c.rename σ) =
      (p.entryReports c).map (Diagnostic.rename σ) := by
    rw [entryReports, entryReports, map_rename_complainIf, Config.rename, p.startsAt_rename hσ]
    rfl
  have hfunctions : (p.rename σ).functions = p.functions.map (Function.rename σ) := rfl
  rw [bodiesReading, bodiesReading, hentry, hfunctions, List.map_append, map_relabel_reports,
    List.flatMap_map, List.map_flatMap]
  simp only [hreading]

theorem reading_rename (hσ : σ.Injective) (p : Program) (c : Config) (base : ScopeId) :
    (p.rename σ).reading (c.rename σ) base =
      (p.reading c base).map (Event.relabel (.ofNames σ)) := by
  rw [reading, reading, p.registering_rename hσ, p.bodiesReading_rename hσ, List.map_append]

end Program

end

/-! ## Runs -/

section

variable (σ : String → String)

/-- The first scope is that of the program, whose label does not come from the program. -/
def Symbols.rename (s : Symbols) : Symbols :=
  { s with scopes := s.scopes.mapIdx fun i => Scope.rename (if i = 0 then id else σ) σ }

def Tables.rename (t : Tables) : Tables :=
  { t with symbols := t.symbols.rename σ, diagnostics := t.diagnostics.rename σ }

end

section

variable {σ : String → String}

theorem Tables.report_rename (t : Tables) (d : Diagnostic) :
    (t.rename σ).report [d.rename σ] = (t.report [d]).rename σ := by
  simp [report, rename, Diagnostics.append, Diagnostics.rename]

/-- Renamed events are replayed as they are, since what is put into effect are facts. -/
theorem Reading.replay_rename (σ : String → String) (es : Reading) (t : Tables) :
    replay (es.map (Event.relabel (.ofNames σ))) (t.rename σ) =
      match replay es t with
      | .ok a u => .ok a (u.rename σ)
      | .error fault u => .error fault (u.rename σ) := by
  induction es generalizing t with
  | nil => rfl
  | cons e es ih =>
      cases e with
      | report d =>
          rw [List.map_cons, Event.relabel, replay_report, replay_report, t.report_rename]
          exact ih (t.report [d])
      | write node fact =>
          have hwrite : (Event.write node fact).relabel (.ofNames σ) = .write node fact := rfl
          rw [List.map_cons, hwrite]
          cases hput : t.annotations.put node fact with
          | error fault =>
              have hput' : (t.rename σ).annotations.put node fact = .error fault := hput
              rw [replay_write_of_error hput, replay_write_of_error hput']
          | ok b =>
              have hput' : (t.rename σ).annotations.put node fact = .ok b := hput
              rw [replay_write_of_ok hput, replay_write_of_ok hput']
              exact ih { t with annotations := b }

theorem Program.symbols_rename (hσ : σ.Injective) (p : Program) :
    (p.rename σ).symbols = p.symbols.rename σ := by
  have hfunctions : (p.rename σ).functions = p.functions.map (Function.rename σ) := rfl
  have hscopes : (p.rename σ).functions.map Function.scope =
      (p.functions.map Function.scope).map (Scope.rename σ σ) := by
    simp [hfunctions, Function.comp_def, Function.scope_rename hσ]
  have hlater (scopes : List Scope) :
      scopes.mapIdx (fun _ => Scope.rename σ σ) = scopes.map (Scope.rename σ σ) :=
    List.ext_getElem? fun i => by simp
  have hpushed : ({} : Symbols).pushAll
        ((p.rename σ).scope :: (p.rename σ).functions.map Function.scope) =
      (({} : Symbols).pushAll (p.scope :: p.functions.map Function.scope)).rename σ := by
    rw [p.scope_rename hσ, hscopes, ← hlater]
    simp [Symbols.pushAll, Symbols.rename, List.mapIdx_cons]
  rw [symbols, symbols, hpushed, hfunctions]
  cases p.functions <;> rfl

/-- Both runs come to the same end. One that is broken off has written down the same by then. -/
theorem analysis_rename (hσ : σ.Injective) (c : Config) (p : Program) :
    (∃ n m t, analysis c p {} = .ok n t ∧
        analysis (c.rename σ) (p.rename σ) {} = .ok m (t.rename σ)) ∨
      ∃ fault t u, analysis c p {} = .error fault t ∧
        analysis (c.rename σ) (p.rename σ) {} = .error fault u ∧
          u.annotations = t.annotations ∧ u.diagnostics = t.diagnostics.rename σ := by
  have hempty : ({} : Tables).rename σ = {} := by
    simp [Tables.rename, Symbols.rename, Diagnostics.rename]
  have hreplay := Reading.replay_rename σ (p.reading c 0) {}
  rw [hempty, ← p.reading_rename hσ] at hreplay
  obtain ⟨n, u, hu, hrun⟩ | ⟨fault, u, s, hu, hrun⟩ := analysis_cases c p
  · rw [hu] at hreplay
    obtain ⟨m, v, hv, hrun'⟩ | ⟨fault, v, s, hv, -⟩ := analysis_cases (c.rename σ) (p.rename σ)
    · cases hv.symm.trans hreplay
      rw [p.symbols_rename hσ] at hrun'
      exact .inl ⟨n, m, _, hrun, hrun'⟩
    · cases hv.symm.trans hreplay
  · rw [hu] at hreplay
    obtain ⟨m, v, hv, -⟩ | ⟨fault', v, s', hv, hrun'⟩ := analysis_cases (c.rename σ) (p.rename σ)
    · cases hv.symm.trans hreplay
    · cases hv.symm.trans hreplay
      exact .inr ⟨fault, _, _, hrun, hrun', rfl, rfl⟩

/-- A run over a program with other names is the run over the program with other names. -/
theorem names_are_opaque {σ : String → String} (hσ : σ.Injective) (c : Config) (p : Program) :
    analyse (p.rename σ) (c.rename σ) = (analyse p c).map (Tables.rename σ) ∧
      let run := (analysis c p).after {}
      let renamed := (analysis (c.rename σ) (p.rename σ)).after {}
      renamed.annotations = run.annotations ∧ renamed.diagnostics = run.diagnostics.rename σ := by
  obtain ⟨n, m, t, hrun, hrun'⟩ | ⟨fault, t, u, hrun, hrun', hsame⟩ := analysis_rename hσ c p
  · refine ⟨by rw [analyse, analyse, hrun, hrun', Except.map], ?_⟩
    simp only [Pass.after, hrun, hrun']
    exact ⟨rfl, rfl⟩
  · refine ⟨by rw [analyse, analyse, hrun, hrun', Except.map], ?_⟩
    simp only [Pass.after, hrun, hrun']
    exact hsame

/-- A function may go by the label that the scope of the program has. -/
theorem halving_under_global_label :
    let σ := Equiv.swap "half" globalScope
    ((halving.rename σ).functions.map fun f => f.name.name) = [globalScope, "main"] ∧
      ∃ t, analyse halving {} = .ok t ∧ analyse (halving.rename σ) {} = .ok (t.rename σ) := by
  intro σ
  obtain ⟨t, ht, -⟩ := halving_accepted
  have hstart : Config.rename σ {} = {} := congrArg Config.mk (by decide : σ "main" = "main")
  obtain ⟨hrun, -⟩ := names_are_opaque σ.injective {} halving
  rw [hstart, ht, Except.map] at hrun
  exact ⟨by decide +kernel, t, ht, hrun⟩

end

end Asl
