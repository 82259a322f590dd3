import Asl.Proofs.Meanings
import Asl.Proofs.Traversal

/-!
# What registration makes of a program

Registration appends one scope for the program and one for each function to the scopes
that are there. The contents of a scope are a fold over the declarations that belong to
it, and a name looked up in it is the first of them. The reading of a registration holds
the scopes given to the nodes and the complaints about names declared again. None of this
depends on the bodies of the functions.
-/

namespace Asl

abbrev Decl := Ident × Binding

namespace Scope

def declareAll (s : Scope) (ds : List Decl) : Scope :=
  ds.foldl (fun s d => s.declare d.1.name d.2) s

@[simp] theorem find?_empty (name x : String) : (⟨name, []⟩ : Scope).find? x = none := rfl

@[simp] theorem declareAll_nil (s : Scope) : s.declareAll [] = s := rfl

@[simp] theorem declareAll_cons (s : Scope) (d : Decl) (ds : List Decl) :
    s.declareAll (d :: ds) = (s.declare d.1.name d.2).declareAll ds := rfl

theorem find?_declareAll (s : Scope) (ds : List Decl) (x : String) :
    (s.declareAll ds).find? x =
      (s.find? x).or ((ds.find? fun d => d.1.name == x).map Prod.snd) := by
  induction ds generalizing s with
  | nil => simp
  | cons d ds ih =>
      rw [declareAll_cons, ih, find?_declare]
      by_cases hx : d.1.name = x
      · subst hx
        cases s.find? d.1.name <;> simp
      · simp [hx]

theorem name_declareAll (s : Scope) (ds : List Decl) : (s.declareAll ds).name = s.name := by
  induction ds generalizing s with
  | nil => rfl
  | cons d ds ih =>
      rw [declareAll_cons, ih, declare]
      split <;> rfl

theorem declare_of_isSome {s : Scope} {x : String} (h : (s.find? x).isSome = true) (b : Binding) :
    s.declare x b = s := by
  simp [declare, h]

/-- The names that a scope declares. -/
def Declares (s : Scope) (names : List String) : Prop :=
  ∀ x, (s.find? x).isSome = true ↔ x ∈ names

theorem declares_empty (name : String) : Declares ⟨name, []⟩ [] := by
  intro x
  simp

theorem Declares.declare {s : Scope} {names : List String} (h : s.Declares names) (x : String)
    (b : Binding) : (s.declare x b).Declares (x :: names) := by
  intro y
  rw [find?_declare, List.mem_cons, ← h y]
  by_cases hxy : x = y
  · simp [hxy]
  · simp [hxy, Ne.symm hxy]

end Scope

/-- The declaration of a function as such. -/
def Function.decl (f : Function) : Decl := (f.name, ⟨f.signature, .function⟩)

def Function.scope (f : Function) : Scope := Scope.declareAll ⟨f.name.name, []⟩ f.decls

def Program.scope (p : Program) : Scope :=
  Scope.declareAll ⟨globalScope, []⟩ (p.functions.map Function.decl)

theorem Function.find?_scope (f : Function) (x : String) : f.scope.find? x = f.declared? x := by
  simp [Function.scope, Scope.find?_declareAll, Function.declared?]

theorem Program.find?_scope (p : Program) (x : String) :
    p.scope.find? x = (p.function? x).map fun f => ⟨f.signature, .function⟩ := by
  simp [Program.scope, Scope.find?_declareAll, Program.function?, List.find?_map, Function.decl,
    Function.comp_def]

/-- One complaint for each name that stands earlier in the list or was declared before. -/
def redeclared (names : List String) : List Ident → List Diagnostic
  | [] => []
  | x :: rest =>
      complainIf (names.contains x.name) (.redeclared x.name) x.loc ++
        redeclared (x.name :: names) rest

/-- The name of a function comes before its own declarations. -/
def functionsRedeclared (names : List String) : List Function → List Diagnostic
  | [] => []
  | f :: rest =>
      redeclared names [f.name] ++ redeclared [] (f.decls.map Prod.fst) ++
        functionsRedeclared (f.name.name :: names) rest

def Program.redeclared (p : Program) : List Diagnostic := functionsRedeclared [] p.functions

open Reading (reports reports_append)

/-- Registers functions under the next numbers. -/
def functionsRegistering (names : List String) (next : ScopeId) : List Function → Reading
  | [] => []
  | f :: rest =>
      reports (redeclared names [f.name]) ++ [.write f.id (.scope next)] ++
        reports (redeclared [] (f.decls.map Prod.fst)) ++
          functionsRegistering (f.name.name :: names) (next + 1) rest

def Program.registering (p : Program) (next : ScopeId) : Reading :=
  .write p.id (.scope next) :: functionsRegistering [] (next + 1) p.functions

theorem found_functionsRegistering (names : List String) (next : ScopeId) (fs : List Function) :
    (functionsRegistering names next fs).found = functionsRedeclared names fs := by
  induction fs generalizing names next with
  | nil => rfl
  | cons f rest ih => simp [functionsRegistering, functionsRedeclared, ih]

theorem facts_functionsRegistering (names : List String) (next : ScopeId) (fs : List Function) :
    (functionsRegistering names next fs).facts =
      (fs.zipIdx next).map fun (f, scope) => (f.id, .scope scope) := by
  induction fs generalizing names next with
  | nil => rfl
  | cons f rest ih => simp [functionsRegistering, ih]

namespace Symbols

def modify (s : Symbols) (id : ScopeId) (change : Scope → Scope) : Symbols :=
  { s with scopes := s.scopes.modify id change }

theorem modify_eq_self {s : Symbols} {id : ScopeId} {scope : Scope} {change : Scope → Scope}
    (hscope : s.scopes[id]? = some scope) (hchange : change scope = scope) :
    s.modify id change = s := by
  have hscopes : s.scopes.modify id change = s.scopes := by
    refine Array.ext_getElem? fun i => ?_
    rw [Array.getElem?_modify]
    split
    · next hi => subst hi; simp [hscope, hchange]
    · rfl
  simp [modify, hscopes]

end Symbols

section

variable {s : Symbols} {t : Tables} {id : ScopeId} {scope : Scope} {names : List String}

open Pass (Replays)

/-- The innermost scope is the one that is declared into. -/
structure Symbols.Top (s : Symbols) (id : ScopeId) (scope : Scope) (names : List String) :
    Prop where
  innermost : s.innermost? = some id
  get : s.scopes[id]? = some scope
  declares : scope.Declares names

theorem Symbols.Top.declaredHere (h : s.Top id scope names) (x : String) :
    s.declaredHere x = names.contains x := by
  have hname := h.declares x
  simp only [Symbols.declaredHere, h.innermost, Option.bind_some, findIn?, h.get]
  cases hfind : scope.find? x <;> simp_all

theorem Symbols.Top.declare (h : s.Top id scope names) (x : String) (b : Binding) :
    (s.modify id (·.declare x b)).Top id (scope.declare x b) (x :: names) :=
  ⟨h.innermost, by simp [Symbols.modify, Array.getElem?_modify, h.get], h.declares.declare x b⟩

theorem registerName_replays (h : t.symbols.Top id scope names) (x : Ident) (b : Binding) :
    Replays t (registerName x b) () (reports (redeclared names [x]))
      (t.symbols.modify id (·.declare x.name b)) := by
  refine .get_bind ?_
  rw [h.declaredHere x.name]
  by_cases hx : x.name ∈ names
  · have hdeclared := Scope.declare_of_isSome ((h.declares x.name).mpr hx) b
    rw [if_pos (by simpa using hx), Symbols.modify_eq_self h.get hdeclared]
    exact (Replays.report _).congr (by simp [redeclared, complainIf, hx])
  · rw [if_neg (by simpa using hx)]
    have hdeclare : t.symbols.declare x.name b =
        .ok (t.symbols.modify id (·.declare x.name b)) := by
      simp [Symbols.declare, h.innermost, Symbols.modify]
    refine Replays.congr (.of_eq_ok ?_) (by simp [redeclared, complainIf, hx])
    simp [Pass.declare, hdeclare, Tables.withSymbols]

theorem Symbols.modify_modify (s : Symbols) (id : ScopeId) (f g : Scope → Scope) :
    (s.modify id f).modify id g = s.modify id fun scope => g (f scope) := by
  have hscopes : (s.scopes.modify id f).modify id g =
      s.scopes.modify id fun scope => g (f scope) := by
    refine Array.ext_getElem? fun i => ?_
    simp only [Array.getElem?_modify]
    split
    · simp [Option.map_map, Function.comp_def]
    · rfl
  simp [modify, hscopes]

theorem registerNames_replays (h : t.symbols.Top id scope names) (ds : List Decl) :
    Replays t (registerNames ds) () (reports (redeclared names (ds.map Prod.fst)))
      (t.symbols.modify id (·.declareAll ds)) := by
  induction ds generalizing t scope names with
  | nil =>
      have hsame : t.symbols.modify id (·.declareAll []) = t.symbols :=
        Symbols.modify_eq_self h.get rfl
      rw [hsame]
      exact .of_eq_ok rfl
  | cons d ds ih =>
      obtain ⟨x, b⟩ := d
      have hrest (u : Tables) :
          Replays (u.withSymbols (t.symbols.modify id (·.declare x.name b))) (registerNames ds) ()
            (reports (redeclared (x.name :: names) (ds.map Prod.fst)))
            (t.symbols.modify id (·.declareAll ((x, b) :: ds))) := by
        have hnext := h.declare x.name b
        rw [← Tables.symbols_withSymbols u (t.symbols.modify id _)] at hnext
        simpa [Symbols.modify_modify] using ih hnext
      refine ((registerName_replays h x b).bind fun u _ => hrest u).congr ?_
      simp [redeclared, reports_append]

namespace Symbols

def push (s : Symbols) (scope : Scope) : Symbols := { s with scopes := s.scopes.push scope }

theorem modify_push_of_lt {s : Symbols} {id : ScopeId} (hid : id < s.scopes.size)
    (scope : Scope) (change : Scope → Scope) :
    (s.push scope).modify id change = (s.modify id change).push scope := by
  have hscopes : (s.scopes.push scope).modify id change =
      (s.scopes.modify id change).push scope := by
    refine Array.ext_getElem? fun i => ?_
    simp only [Array.getElem?_modify, Array.getElem?_push, Array.size_modify]
    grind
  simp [modify, push, hscopes]

theorem modify_push_size (s : Symbols) (scope : Scope) (change : Scope → Scope) :
    (s.push scope).modify s.scopes.size change = s.push (change scope) := by
  have hscopes : (s.scopes.push scope).modify s.scopes.size change =
      s.scopes.push (change scope) := by
    refine Array.ext_getElem? fun i => ?_
    simp only [Array.getElem?_modify, Array.getElem?_push]
    grind
  simp [modify, push, hscopes]

def pushAll (s : Symbols) (scopes : List Scope) : Symbols :=
  { s with scopes := s.scopes ++ scopes.toArray }

@[simp] theorem pushAll_nil (s : Symbols) : s.pushAll [] = s := by
  simp [pushAll]

theorem getElem?_pushAll (s : Symbols) (scopes : List Scope) (i : Nat) :
    (s.pushAll scopes).scopes[s.scopes.size + i]? = scopes[i]? := by
  simp [pushAll, Array.getElem?_append_right]

theorem push_pushAll (s : Symbols) (scope : Scope) (scopes : List Scope) :
    (s.push scope).pushAll scopes = s.pushAll (scope :: scopes) := by
  simp [push, pushAll]

theorem leave_modify_activate (s : Symbols) (id other : ScopeId) (change : Scope → Scope) :
    ((s.activate id).modify other change).leave = s.modify other change := rfl

theorem top_activate_push (s : Symbols) (name : String) :
    ((s.push ⟨name, []⟩).activate s.scopes.size).Top s.scopes.size ⟨name, []⟩ [] :=
  ⟨rfl, by simp [push, activate], Scope.declares_empty name⟩

end Symbols

theorem newScope_replays (name : String) :
    Replays t (Pass.newScope name) t.symbols.scopes.size [] (t.symbols.push ⟨name, []⟩) :=
  .of_eq_ok rfl

/-- A new scope is made for a node and filled. -/
theorem opening_replays {name : String} {node : NodeId} {body : Pass Unit} {es : Reading}
    {s' : Symbols}
    (hbody : ∀ u : Tables,
      Replays (u.withSymbols ((t.symbols.push ⟨name, []⟩).activate t.symbols.scopes.size)) body ()
        es s') :
    Replays t
      (do
        let scope ← Pass.newScope name
        Pass.put node (.scope scope)
        Pass.within scope body)
      () ([.write node (.scope t.symbols.scopes.size)] ++ es) s'.leave := by
  refine ((newScope_replays name).bind fun u _ => ?_).congr (List.nil_append _)
  refine (Replays.put node _).bind fun v _ => ?_
  exact Replays.within (by simp [Symbols.push]) (hbody _)

theorem registerFunction_replays (h : t.symbols.Top id scope names) (f : Function) :
    Replays t (registerFunction f) ()
      (reports (redeclared names [f.name]) ++ ([.write f.id (.scope t.symbols.scopes.size)] ++
        reports (redeclared [] (f.decls.map Prod.fst))))
      ((t.symbols.modify id (·.declare f.name.name ⟨f.signature, .function⟩)).push f.scope) := by
  refine (registerName_replays h f.name _).bind fun u _ => ?_
  let s := t.symbols.modify id (·.declare f.name.name ⟨f.signature, .function⟩)
  have hsize : t.symbols.scopes.size = s.scopes.size := by simp [s, Symbols.modify]
  have hfilled : s.push f.scope =
      (((s.push ⟨f.name.name, []⟩).activate s.scopes.size).modify s.scopes.size
        (·.declareAll f.decls)).leave := by
    rw [Symbols.leave_modify_activate]
    exact (s.modify_push_size ⟨f.name.name, []⟩ (·.declareAll f.decls)).symm
  rw [hsize, hfilled]
  exact opening_replays fun v => registerNames_replays (s.top_activate_push f.name.name) f.decls

theorem Symbols.Top.push (h : s.Top id scope names) (new : Scope) :
    (s.push new).Top id scope names := by
  have hid : id < s.scopes.size := (Array.getElem?_eq_some_iff.mp h.get).1
  refine ⟨h.innermost, ?_, h.declares⟩
  simp [Symbols.push, Array.getElem?_push, Nat.ne_of_lt hid, h.get]

theorem registerFunctions_replays (h : t.symbols.Top id scope names) (fs : List Function) :
    Replays t (registerFunctions fs) () (functionsRegistering names t.symbols.scopes.size fs)
      ((t.symbols.modify id (·.declareAll (fs.map Function.decl))).pushAll
        (fs.map Function.scope)) := by
  induction fs generalizing t scope names with
  | nil =>
      have hsame : t.symbols.modify id (·.declareAll []) = t.symbols :=
        Symbols.modify_eq_self h.get rfl
      simp only [List.map_nil, hsame, Symbols.pushAll_nil]
      exact .of_eq_ok rfl
  | cons f rest ih =>
      -- The scope of `f` goes behind that of the program, which stays the one declared into.
      let filled := t.symbols.modify id (·.declare f.name.name ⟨f.signature, .function⟩)
      have hid : id < filled.scopes.size := by
        simpa [filled, Symbols.modify] using (Array.getElem?_eq_some_iff.mp h.get).1
      have htop : (filled.push f.scope).Top id _ (f.name.name :: names) :=
        (h.declare f.name.name ⟨f.signature, .function⟩).push f.scope
      have hsize : (filled.push f.scope).scopes.size = t.symbols.scopes.size + 1 := by
        simp [filled, Symbols.push, Symbols.modify]
      have hsymbols : ((filled.push f.scope).modify id
            (·.declareAll (rest.map Function.decl))).pushAll (rest.map Function.scope) =
          (t.symbols.modify id (·.declareAll ((f :: rest).map Function.decl))).pushAll
            ((f :: rest).map Function.scope) := by
        rw [Symbols.modify_push_of_lt hid, Symbols.push_pushAll, Symbols.modify_modify]
        rfl
      have hrest (u : Tables) :
          Replays (u.withSymbols (filled.push f.scope)) (registerFunctions rest) ()
            (functionsRegistering (f.name.name :: names) (t.symbols.scopes.size + 1) rest)
            ((t.symbols.modify id (·.declareAll ((f :: rest).map Function.decl))).pushAll
              ((f :: rest).map Function.scope)) := by
        rw [← hsymbols, ← hsize]
        exact ih htop
      refine ((registerFunction_replays h f).bind fun u _ => hrest u).congr ?_
      simp only [functionsRegistering, List.append_assoc]

/-- Registration appends the scope of the program and those of its functions. -/
theorem registerProgram_replays (p : Program) (t : Tables) :
    Replays t (registerProgram p) () (p.registering t.symbols.scopes.size)
      (t.symbols.pushAll (p.scope :: p.functions.map Function.scope)) := by
  let opened := t.symbols.push ⟨globalScope, []⟩
  have hsize : (opened.activate t.symbols.scopes.size).scopes.size = t.symbols.scopes.size + 1 := by
    simp [opened, Symbols.push, Symbols.activate]
  have hsymbols : t.symbols.pushAll (p.scope :: p.functions.map Function.scope) =
      (((opened.activate t.symbols.scopes.size).modify t.symbols.scopes.size
        (·.declareAll (p.functions.map Function.decl))).pushAll
          (p.functions.map Function.scope)).leave := by
    have hfilled := t.symbols.modify_push_size ⟨globalScope, []⟩
      (·.declareAll (p.functions.map Function.decl))
    rw [← Symbols.push_pushAll, Program.scope, ← hfilled]
    rfl
  rw [hsymbols, Program.registering, ← hsize]
  exact opening_replays fun u =>
    registerFunctions_replays (t.symbols.top_activate_push globalScope) p.functions

end

/-- The same functions with other bodies. What names mean and what registration does is settled
before any body is looked at. -/
def Program.mapBodies (change : List Stmt → List Stmt) (p : Program) : Program :=
  { p with functions := p.functions.map fun f => { f with body := change f.body } }

namespace Program

variable (change : List Stmt → List Stmt)

theorem function?_mapBodies (p : Program) (x : String) :
    (p.mapBodies change).function? x =
      (p.function? x).map fun f => { f with body := change f.body } := by
  simp only [function?, mapBodies, List.find?_map]
  rfl

theorem env_mapBodies (p : Program) (f : Function) (body : List Stmt) :
    (p.mapBodies change).env { f with body } = p.env f := by
  funext x
  rw [env, function?_mapBodies, Option.map_map]
  rfl

theorem callable_mapBodies (p : Program) (f : Function) (body : List Stmt) :
    (p.mapBodies change).callable { f with body } = p.callable f := by
  rw [← takes_env, ← takes_env, env_mapBodies]

theorem redeclared_mapBodies (p : Program) : (p.mapBodies change).redeclared = p.redeclared := by
  have hfunctions (names : List String) (fs : List Function) :
      functionsRedeclared names (fs.map fun f => { f with body := change f.body }) =
        functionsRedeclared names fs := by
    induction fs generalizing names with
    | nil => rfl
    | cons f rest ih =>
        rw [List.map_cons, functionsRedeclared, functionsRedeclared, ih]
        rfl
  exact hfunctions [] p.functions

theorem entryReports_mapBodies (p : Program) (c : Config) :
    (p.mapBodies change).entryReports c = p.entryReports c := by
  rw [entryReports, entryReports, startsAt, function?_mapBodies, Option.any_map]
  rfl

theorem register_mapBodies (p : Program) :
    registerProgram (p.mapBodies change) = registerProgram p := by
  have hfunctions (fs : List Function) :
      registerFunctions (fs.map fun f => { f with body := change f.body }) =
        registerFunctions fs := by
    induction fs with
    | nil => rfl
    | cons f rest ih =>
        rw [List.map_cons, registerFunctions, registerFunctions, ih]
        rfl
  unfold registerProgram
  rw [mapBodies, hfunctions]

theorem scopeIds_mapBodies (p : Program) : (p.mapBodies change).scopeIds = p.scopeIds := by
  simp [scopeIds, mapBodies, Function.comp_def]

end Program

end Asl
