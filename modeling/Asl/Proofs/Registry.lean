import Asl.Proofs.Acceptance

/-!
# The registry of a program

Registration is told here without its loops. All declarations of a program stand in one list,
each with the number of the scope it goes to: the function at place `i` in scope 0, what it
declares itself in scope `i + 1`. An entry is reported if an earlier one has its scope and its
name. A scope binds the names of its entries, each to its first declaration, so a name can be
taken in scope 0 and free in another.
-/

namespace Asl

/-- A name and the scope in which it is declared. -/
structure Entry where
  scope : ScopeId
  ident : Ident

namespace Entry

/-- What the entries of a program should differ in. -/
def key (e : Entry) : ScopeId × String := (e.scope, e.ident.name)

def complaint (e : Entry) : Diagnostic := ⟨.redeclared e.ident.name, e.ident.loc⟩

/-- The entries before which there is another of the same key. -/
def repeats (es : List Entry) : List Entry :=
  (es.zipIdx.filter fun (e, i) => (es.take i).any fun first => first.key == e.key).map Prod.fst

/-- The repeats of a list that come after a first part of it. -/
def repeatsAfter (before es : List Entry) : List Entry :=
  ((es.zipIdx before.length).filter fun (e, i) =>
    ((before ++ es).take i).any fun first => first.key == e.key).map Prod.fst

theorem repeats_eq (es : List Entry) : repeats es = repeatsAfter [] es := rfl

@[simp] theorem repeatsAfter_nil (before : List Entry) : repeatsAfter before [] = [] := rfl

theorem repeatsAfter_cons (before : List Entry) (e : Entry) (es : List Entry) :
    repeatsAfter before (e :: es) =
      (if before.any fun first => first.key == e.key then [e] else []) ++
        repeatsAfter (before ++ [e]) es := by
  have hlater : ((es.zipIdx (before.length + 1)).filter fun (e', i) =>
      ((before ++ e :: es).take i).any fun first => first.key == e'.key).map Prod.fst =
        repeatsAfter (before ++ [e]) es := by
    simp [repeatsAfter]
  rw [← hlater, repeatsAfter, List.zipIdx_cons, List.filter_cons]
  simp only [List.take_left]
  split <;> rfl

theorem repeatsAfter_append (before es fs : List Entry) :
    repeatsAfter before (es ++ fs) =
      repeatsAfter before es ++ repeatsAfter (before ++ es) fs := by
  induction es generalizing before with
  | nil => simp
  | cons e es ih =>
      rw [List.cons_append, repeatsAfter_cons, repeatsAfter_cons, ih]
      simp

end Entry

open Entry (repeats repeatsAfter repeatsAfter_cons repeatsAfter_append)

/-- What the function at a place enters: itself among the functions, then what it declares. -/
def Function.entries (f : Function) (place : Nat) : List Entry :=
  ⟨0, f.name⟩ :: f.decls.map fun d => ⟨place + 1, d.1⟩

def functionsEntries (fs : List Function) (place : Nat) : List Entry :=
  (fs.zipIdx place).flatMap fun (f, i) => f.entries i

/-- All declarations of a program in the order of its text. -/
def Program.entries (p : Program) : List Entry := functionsEntries p.functions 0

/-- Names declared side by side in one scope, of which some names are taken. -/
theorem complaints_names {id : ScopeId} {before : List Entry} {names : List String}
    (hnames : ∀ x, x ∈ names ↔ ∃ first ∈ before, first.key = (id, x)) (xs : List Ident) :
    (repeatsAfter before (xs.map (Entry.mk id))).map Entry.complaint = redeclared names xs := by
  induction xs generalizing before names with
  | nil => rfl
  | cons x rest ih =>
      have htaken : (before.any fun first => first.key == (⟨id, x⟩ : Entry).key) =
          names.contains x.name := by
        rw [Bool.eq_iff_iff, List.any_eq_true, List.contains_iff_mem, hnames]
        simp [Entry.key]
      have hnext : ∀ y, y ∈ x.name :: names ↔
          ∃ first ∈ before ++ [⟨id, x⟩], first.key = (id, y) := by
        intro y
        rw [List.mem_cons, hnames y]
        simp [Entry.key, or_and_right, exists_or, or_comm, eq_comm]
      rw [List.map_cons, repeatsAfter_cons, List.map_append, ih hnext, redeclared, htaken]
      cases names.contains x.name <;> rfl

theorem complaints_functions {before : List Entry} {names : List String} {place : Nat}
    (hnames : ∀ x, x ∈ names ↔ ∃ first ∈ before, first.key = (0, x))
    (hscopes : ∀ first ∈ before, first.scope ≤ place) (fs : List Function) :
    (repeatsAfter before (functionsEntries fs place)).map Entry.complaint =
      functionsRedeclared names fs := by
  induction fs generalizing before names place with
  | nil => rfl
  | cons f rest ih =>
      let named := before ++ [⟨0, f.name⟩]
      have hname := complaints_names hnames [f.name]
      -- The scope of `f` has the next number, under which nothing has been entered yet.
      have hfresh : ∀ x, x ∈ ([] : List String) ↔
          ∃ first ∈ named, first.key = (place + 1, x) := by
        intro x
        refine iff_of_false List.not_mem_nil ?_
        rintro ⟨first, hfirst, hkey⟩
        have hscope : first.scope = place + 1 := congrArg Prod.fst hkey
        rcases List.mem_append.mp hfirst with hfirst | hfirst
        · have hle := hscopes first hfirst
          rw [hscope] at hle
          exact Nat.not_succ_le_self place hle
        · obtain rfl := List.mem_singleton.mp hfirst
          simp at hscope
      have hdecls := complaints_names hfresh (f.decls.map Prod.fst)
      rw [List.map_map] at hdecls
      let filed := named ++ f.decls.map fun d => (⟨place + 1, d.1⟩ : Entry)
      have hfiled : ∀ x, x ∈ f.name.name :: names ↔ ∃ first ∈ filed, first.key = (0, x) := by
        intro x
        rw [List.mem_cons, hnames x]
        simp [filed, named, Entry.key, or_and_right, exists_or, or_comm, eq_comm]
      have hbelow : ∀ first ∈ filed, first.scope ≤ place + 1 := by
        intro first hfirst
        rcases List.mem_append.mp hfirst with hfirst | hfirst
        · rcases List.mem_append.mp hfirst with hfirst | hfirst
          · exact Nat.le_succ_of_le (hscopes first hfirst)
          · obtain rfl := List.mem_singleton.mp hfirst
            exact Nat.zero_le _
        · obtain ⟨d, -, rfl⟩ := List.mem_map.mp hfirst
          exact Nat.le_refl _
      have hentries : functionsEntries (f :: rest) place =
          [⟨0, f.name⟩] ++ (f.decls.map fun d => ⟨place + 1, d.1⟩) ++
            functionsEntries rest (place + 1) := by
        simp [functionsEntries, Function.entries]
      rw [hentries, repeatsAfter_append, repeatsAfter_append, List.map_append, List.map_append,
        functionsRedeclared, ← hname, ← hdecls, ← List.append_assoc before, ih hfiled hbelow]
      rfl

theorem Program.redeclared_eq (p : Program) :
    p.redeclared = (repeats p.entries).map Entry.complaint := by
  have hnames : ∀ x, x ∈ ([] : List String) ↔ ∃ first ∈ ([] : List Entry), first.key = (0, x) := by
    simp
  have hscopes : ∀ first ∈ ([] : List Entry), first.scope ≤ 0 := by simp
  rw [Entry.repeats_eq]
  exact (complaints_functions hnames hscopes p.functions).symm

/-- What registration makes of a program on fresh tables. -/
structure Program.Registry (p : Program) (t : Tables) : Prop where
  size : t.symbols.scopes.size = p.functions.length + 1
  programName : t.symbols.scopeName? 0 = some "$global$"
  programNode : t.annotations.scope? p.id = some 0
  programNames : ∀ x, t.symbols.findIn? 0 x =
    (p.functions.find? fun f => f.name.name == x).map fun f => ⟨f.signature, .function⟩
  functionName : ∀ i f, p.functions[i]? = some f →
    t.symbols.scopeName? (i + 1) = some f.name.name
  functionNode : ∀ i f, p.functions[i]? = some f → t.annotations.scope? f.id = some (i + 1)
  functionNames : ∀ i f, p.functions[i]? = some f →
    ∀ x, t.symbols.findIn? (i + 1) x = (f.decls.find? fun d => d.1.name == x).map Prod.snd
  annotated : t.annotations.Covers p.scopeIds []
  found : t.diagnostics.toList = (repeats p.entries).map Entry.complaint

namespace Program

variable {p : Program}

theorem firstRepeat_registering (hscopes : p.scopeIds.Nodup) (base : ScopeId) :
    firstRepeat (fun _ => false) (p.registering base).keys = none := by
  have hinjective : (fun id : NodeId => ((id, .scope) : Key)).Injective := by
    intro id other h
    exact congrArg Prod.fst h
  rw [p.keys_registering, firstRepeat_eq_none_iff]
  exact ⟨hscopes.map hinjective, fun _ _ => rfl⟩

/-- With distinct nodes registration comes to its end. -/
theorem exists_registered (hscopes : p.scopeIds.Nodup) :
    ∃ u, (p.registering 0).replay {} = .ok () u ∧
      registerProgram p {} =
        .ok () (u.withSymbols (({} : Symbols).pushAll (p.scope :: p.functions.map Function.scope)))
    := by
  have hruns : Pass.Replays {} (registerProgram p) () (p.registering 0) _ :=
    registerProgram_replays p {}
  have hends := hruns.ends
  rw [Annotations.knows_empty, firstRepeat_registering hscopes] at hends
  obtain ⟨-, u, hu, hrun⟩ | ⟨key, hkey, -⟩ := hends
  · exact ⟨u, hu, hrun⟩
  · cases hkey

theorem registry_of_replay {u : Tables} (hu : (p.registering 0).replay {} = .ok () u) :
    p.Registry
      (u.withSymbols (({} : Symbols).pushAll (p.scope :: p.functions.map Function.scope))) := by
  let s := ({} : Symbols).pushAll (p.scope :: p.functions.map Function.scope)
  have hdone := Reading.done_of_replay hu
  have hscope (i : Nat) : s.scopes[i]? = (p.scope :: p.functions.map Function.scope)[i]? := by
    simpa using ({} : Symbols).getElem?_pushAll (p.scope :: p.functions.map Function.scope) i
  have hfunction (i : Nat) (f : Function) (hf : p.functions[i]? = some f) :
      s.scopes[i + 1]? = some f.scope := by
    simp [hscope, hf]
  have hnode (node : NodeId) (id : ScopeId) (h : (node, .scope id) ∈ (p.registering 0).facts) :
      u.annotations.scope? node = some id :=
    (hdone.holds node (.scope id)).mpr (.inr h)
  constructor
  · simp [Symbols.pushAll]
  · have hname : p.scope.name = "$global$" := Scope.name_declareAll _ _
    simp [s, Symbols.scopeName?, hscope, hname]
  · exact hnode _ _ (by simp [registering])
  · intro x
    simp [s, Symbols.findIn?, hscope, p.find?_scope, function?]
  · intro i f hf
    have hname : f.scope.name = f.name.name := Scope.name_declareAll _ _
    simp [s, Symbols.scopeName?, hfunction i f hf, hname]
  · intro i f hf
    refine hnode _ _ ?_
    rw [registering, Reading.facts_write, facts_functionsRegistering]
    have hmem : (f, i + 1) ∈ p.functions.zipIdx 1 := by
      simp [List.mk_mem_zipIdx_iff_le_and_getElem?_sub, hf]
    exact List.mem_cons_of_mem _ (List.mem_map_of_mem hmem)
  · intro i f hf x
    simp [s, Symbols.findIn?, hfunction i f hf, f.find?_scope, Function.declared?]
  · refine Annotations.covers_of_knows (fun key => ?_) (hdone.noBlank Annotations.noBlank_empty)
    have hknows : (u.withSymbols s).annotations.knows key = true ↔ _ := hdone.knows_iff key
    rw [Annotations.knows_empty] at hknows
    simpa [p.keys_registering] using hknows
  · have hfound := hdone.found
    rw [Program.registering, Reading.found_write, found_functionsRegistering] at hfound
    exact hfound.trans p.redeclared_eq

end Program

/-- As long as no node opens two scopes, registration comes to its end and leaves the registry
of the program. No name is reported for standing in scope 0 as well. -/
theorem registration_is_exact (p : Program) (hscopes : p.scopeIds.Nodup) :
    ∃ t, registerProgram p {} = .ok () t ∧ p.Registry t ∧
      (t.diagnostics.toList = [] ↔ (p.functions.map fun f => f.name.name).Nodup ∧
        ∀ f ∈ p.functions, (f.decls.map fun d => d.1.name).Nodup) := by
  obtain ⟨u, hu, hrun⟩ := p.exists_registered hscopes
  have hregistry := p.registry_of_replay hu
  refine ⟨_, hrun, hregistry, ?_⟩
  rw [hregistry.found, ← p.redeclared_eq, p.redeclared_eq_nil_iff]
  simp only [Function.names_locals]

/-- Two functions of one name, the first of which declares a variable like its parameter and the
second a variable like itself. -/
def twice : Program :=
  let build : Build Program := do
    let x ← Build.param "x" (.basic .int)
    Build.moveTo 2 3
    let floats ← Build.vars ["x", "y"] (.basic .float)
    let first ← Build.function "f" [x] none [floats] []
    Build.moveTo 5 1
    let own ← Build.vars ["f"] (.basic .bool)
    let second ← Build.function "f" [] (some (.basic .int)) [own] []
    Build.program [first, second]
  (build.run {}).1

theorem twice_keeps_first_declarations :
    ∃ t, registerProgram twice {} = .ok () t ∧
      t.diagnostics.toList =
        [⟨.redeclared "x", ⟨2, 3, none⟩⟩, ⟨.redeclared "f", ⟨5, 1, none⟩⟩] ∧
      t.symbols.findIn? 0 "f" = some ⟨.func [.int] .void, .function⟩ ∧
      t.symbols.findIn? 1 "x" = some ⟨.int, .parameter⟩ ∧
      t.symbols.findIn? 2 "f" = some ⟨.bool, .variable⟩ := by
  obtain ⟨t, ht, hregistry, -⟩ := registration_is_exact twice (by decide)
  refine ⟨t, ht, hregistry.found.trans (by decide), ?_, ?_, ?_⟩
  · exact (hregistry.programNames "f").trans (by decide)
  · exact (hregistry.functionNames 0 (twice.functions.head (by decide)) rfl "x").trans (by decide)
  · have hnames := hregistry.functionNames 1 (twice.functions.getLast (by decide)) rfl
    exact (hnames "f").trans (by decide)

end Asl
