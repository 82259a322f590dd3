import Asl.Proofs.Bodies
import Asl.Proofs.Outcome

/-!
# A run accepts what is well-typed

The scopes that registration fills give each body an environment that agrees with its
context, so bodies without complaints are the well-typed ones. What is declared again is
what keeps names from being distinct, and among distinct names the first function of a
name is the only one.
-/

namespace Asl

namespace Function

theorem names_locals (f : Function) : f.locals.map Prod.fst = f.decls.map fun d => d.1.name := by
  simp [locals, decls, paramDecls, varDecls, List.map_flatMap, Function.comp_def]

theorem type_declared? (f : Function) (x : String) :
    (f.declared? x).map Binding.type =
      (f.locals.find? fun l => l.1 == x).map fun l => l.2.type := by
  simp [declared?, locals, decls, paramDecls, varDecls, List.find?_map, List.find?_flatMap,
    Function.comp_def, Option.map_or]

theorem isFunction_declared? (f : Function) (x : String) :
    (f.declared? x).map Binding.isFunction =
      (f.locals.find? fun l => l.1 == x).map fun _ => false := by
  have hparam : (Role.parameter == .function) = false := rfl
  have hvar : (Role.variable == .function) = false := rfl
  simp [declared?, locals, decls, paramDecls, varDecls, List.find?_map, List.find?_flatMap,
    Function.comp_def, Option.map_or, Binding.isFunction, hparam, hvar]

theorem type_written (f : Function) : f.written.type = f.signature := by
  simp [written, Written.type, signature, Function.comp_def]

end Function

theorem Program.env_agrees (p : Program) (f : Function) : (p.env f).Agrees (p.context f) := by
  constructor
  · intro x
    have hvalue (τ : TypeSpec) : (Written.value τ).type = τ.type := rfl
    simp [env, context, signatures, function?, Option.map_or, f.type_declared?, hvalue,
      Function.comp_def, Function.type_written]
  · intro x
    simp [env, context, signatures, function?, Option.map_or, f.isFunction_declared?,
      Function.comp_def, Written.isFunction, Function.written, Binding.isFunction]

theorem redeclared_eq_nil_iff {names : List String} {idents : List Ident} :
    redeclared names idents = [] ↔
      (idents.map Ident.name).Nodup ∧ ∀ x ∈ idents, x.name ∉ names := by
  induction idents generalizing names with
  | nil => simp [redeclared]
  | cons x rest ih =>
      simp only [redeclared, List.append_eq_nil_iff, complainIf_eq_nil_iff, ih, List.map_cons,
        List.nodup_cons, List.mem_cons, not_or, List.contains_eq_mem, decide_eq_false_iff_not]
      constructor
      · rintro ⟨hx, hnodup, hrest⟩
        refine ⟨⟨?_, hnodup⟩, ?_⟩
        · intro hmem
          obtain ⟨y, hy, hxy⟩ := List.mem_map.mp hmem
          exact (hrest y hy).1 hxy
        · rintro y (rfl | hy)
          · exact hx
          · exact (hrest y hy).2
      · rintro ⟨⟨hmem, hnodup⟩, hall⟩
        refine ⟨hall x (.inl rfl), hnodup, fun y hy => ⟨fun hyx => ?_, hall y (.inr hy)⟩⟩
        exact hmem (hyx ▸ List.mem_map_of_mem hy)

theorem functionsRedeclared_eq_nil_iff {names : List String} {fs : List Function} :
    functionsRedeclared names fs = [] ↔
      redeclared names (fs.map fun f => f.name) = [] ∧
        ∀ f ∈ fs, (f.locals.map Prod.fst).Nodup := by
  induction fs generalizing names with
  | nil => simp [functionsRedeclared, redeclared]
  | cons f rest ih =>
      have hlocals : redeclared [] (f.decls.map Prod.fst) = [] ↔ (f.locals.map Prod.fst).Nodup := by
        simp [redeclared_eq_nil_iff, f.names_locals, Function.comp_def]
      simp only [functionsRedeclared, redeclared, List.append_nil, List.append_eq_nil_iff, hlocals,
        ih, List.map_cons, List.forall_mem_cons]
      constructor
      · rintro ⟨⟨hname, hf⟩, hnames, hrest⟩
        exact ⟨⟨hname, hnames⟩, hf, hrest⟩
      · rintro ⟨⟨hname, hnames⟩, hf, hrest⟩
        exact ⟨⟨hname, hf⟩, hnames, hrest⟩

namespace Program

theorem redeclared_eq_nil_iff (p : Program) :
    p.redeclared = [] ↔ (p.functions.map fun f => f.name.name).Nodup ∧
      ∀ f ∈ p.functions, (f.locals.map Prod.fst).Nodup := by
  simp [redeclared, functionsRedeclared_eq_nil_iff, Asl.redeclared_eq_nil_iff, Function.comp_def]

theorem function?_eq_some_iff {p : Program}
    (hnames : (p.functions.map fun f => f.name.name).Nodup) {x : String} {f : Function} :
    p.function? x = some f ↔ f ∈ p.functions ∧ f.name.name = x := by
  constructor
  · intro h
    exact ⟨List.mem_of_find?_eq_some h, by simpa using List.find?_some h⟩
  · rintro ⟨hf, rfl⟩
    obtain ⟨g, hg⟩ : ∃ g, p.function? f.name.name = some g := by
      rw [← Option.isSome_iff_exists, function?, List.find?_isSome]
      exact ⟨f, hf, by simp⟩
    have hname : g.name.name = f.name.name := by simpa using List.find?_some hg
    rw [hg, List.inj_on_of_nodup_map hnames (List.mem_of_find?_eq_some hg) hf hname]

/-- With distinct names the first function of a name is any of that name. -/
theorem startsAt_iff {p : Program} (hnames : (p.functions.map fun f => f.name.name).Nodup)
    (start : String) :
    p.startsAt start = true ↔
      ∃ f ∈ p.functions, f.name.name = start ∧ f.params = [] ∧ f.result = none := by
  simp [startsAt, Option.any_eq_true, function?_eq_some_iff hnames, and_assoc]

theorem found_bodies_eq_nil_iff (p : Program) :
    (p.functions.flatMap fun f => (f.reading p).found) = [] ↔
      ∀ f ∈ p.functions, BlockTyped (p.context f) f.result f.body := by
  have hbody (f : Function) :
      (f.reading p).found = [] ↔ BlockTyped (p.context f) f.result f.body :=
    found_blockReading_eq_nil_iff (p.env_agrees f) f.result f.body
  simp [hbody]

theorem found_reading_eq_nil_iff (p : Program) (c : Config) (base : ScopeId) :
    (p.reading c base).found = [] ↔ p.WellTyped c.entryPoint := by
  simp only [found_reading, List.append_eq_nil_iff, redeclared_eq_nil_iff,
    found_bodies_eq_nil_iff, entryReports, complainIf_eq_nil_iff, Bool.not_eq_false']
  constructor
  · rintro ⟨⟨⟨hnames, hlocals⟩, hbodies⟩, hstart⟩
    exact ⟨hnames, hlocals, (startsAt_iff hnames _).mp hstart, hbodies⟩
  · rintro ⟨hnames, hlocals, hstart, hbodies⟩
    exact ⟨⟨⟨hnames, hlocals⟩, hbodies⟩, (startsAt_iff hnames _).mpr hstart⟩

end Program

theorem Tables.isOk_iff {t : Tables} : t.isOk = true ↔ t.diagnostics.toList = [] := by
  simp [isOk, Diagnostics.isEmpty, Diagnostics.toList]

theorem Program.Outcome.isOk_iff {p : Program} {c : Config} {t : Tables} (h : p.Outcome c t) :
    t.isOk = true ↔ p.WellTyped c.entryPoint := by
  rw [Tables.isOk_iff, h.found, found_reading_eq_nil_iff]

/-- As long as no node comes twice, a run accepts the well-typed programs and no others. -/
theorem analyse_accepts_iff_wellTyped (p : Program) (c : Config) (hscopes : p.scopeIds.Nodup)
    (hparts : p.partIds.Nodup) :
    (∃ t, analyse p c = .ok t ∧ t.isOk = true) ↔ p.WellTyped c.entryPoint := by
  obtain ⟨t, ht, houtcome⟩ := p.exists_outcome c hscopes hparts
  constructor
  · rintro ⟨u, hu, hok⟩
    exact (outcome_of_analyse hu).isOk_iff.mp hok
  · intro h
    exact ⟨t, ht, houtcome.isOk_iff.mpr h⟩

theorem halving_wellTyped : halving.WellTyped "main" :=
  (analyse_accepts_iff_wellTyped halving {} (by decide) (by decide)).mp halving_accepted

end Asl
