import Asl.Analysis
import Asl.Proofs.Declarations

/-!
# Whole runs

Registration leaves behind what checking needs: each function finds its scope under its
node, and in that scope and the one of the program a name means what the reading takes it
to mean. So registration followed by checking replays one reading, made of the tree and of
the number of scopes that were there before.
-/

namespace Asl

open Pass (Replays)
open Reading (reports)

/-- The nodes of a program know their scopes, and these are filled. -/
structure Registered (p : Program) (t : Tables) : Prop where
  program : ∃ id, t.annotations.scope? p.id = some id ∧ t.symbols.scopes[id]? = some p.scope
  function : ∀ f ∈ p.functions,
    ∃ id, t.annotations.scope? f.id = some id ∧ t.symbols.scopes[id]? = some f.scope

theorem Registered.of_replay {p : Program} {t u : Tables} {es : Reading} {s : Symbols}
    (h : Registered p t) (hu : es.replay t = .ok () u) (hs : s.scopes = t.symbols.scopes) :
    Registered p (u.withSymbols s) := by
  have hkeeps {node : NodeId} {id : ScopeId} (hscope : t.annotations.scope? node = some id) :
      u.annotations.scope? node = some id :=
    ((Reading.done_of_replay hu).holds node (.scope id)).mpr (.inl hscope)
  constructor
  · obtain ⟨id, hid, hscope⟩ := h.program
    exact ⟨id, hkeeps hid, by simpa [hs] using hscope⟩
  · intro f hf
    obtain ⟨id, hid, hscope⟩ := h.function f hf
    exact ⟨id, hkeeps hid, by simpa [hs] using hscope⟩

theorem registered_of_registering {p : Program} {t u : Tables}
    (hu : (p.registering t.symbols.scopes.size).replay t = .ok () u) :
    Registered p
      (u.withSymbols (t.symbols.pushAll (p.scope :: p.functions.map Function.scope))) := by
  have hdone := Reading.done_of_replay hu
  constructor
  · refine ⟨t.symbols.scopes.size, (hdone.holds _ (.scope _)).mpr (.inr ?_), ?_⟩
    · simp [Program.registering]
    · exact Symbols.getElem?_pushAll t.symbols _ 0
  · intro f hf
    obtain ⟨i, hi⟩ := List.mem_iff_getElem?.mp hf
    refine ⟨t.symbols.scopes.size + 1 + i, (hdone.holds _ (.scope _)).mpr (.inr ?_), ?_⟩
    · have hmem : (f, t.symbols.scopes.size + 1 + i) ∈
          p.functions.zipIdx (t.symbols.scopes.size + 1) := by
        rw [List.mk_mem_zipIdx_iff_le_and_getElem?_sub]
        simp [hi]
      rw [Program.registering, Reading.facts_write, facts_functionsRegistering]
      exact List.mem_cons_of_mem _ (List.mem_map_of_mem hmem)
    · rw [Nat.add_assoc, Nat.add_comm 1 i]
      refine (Symbols.getElem?_pushAll t.symbols _ (i + 1)).trans ?_
      simp [hi]

theorem find?_eq_env {p : Program} {f : Function} {s : Symbols} {outer inner : ScopeId}
    (houter : s.scopes[outer]? = some p.scope) (hinner : s.scopes[inner]? = some f.scope)
    (hstack : s.stack = [inner, outer]) (x : String) : s.find? x = p.env f x := by
  have hlocal : s.findIn? inner x = f.declared? x := by
    simp [Symbols.findIn?, hinner, f.find?_scope]
  have hglobal : s.findIn? outer x =
      (p.function? x).map fun g => ⟨g.signature, .function⟩ := by
    simp [Symbols.findIn?, houter, p.find?_scope]
  simp only [Symbols.find?, hstack, List.findSome?_cons, List.findSome?_nil, hlocal, hglobal,
    Program.env]
  cases f.declared? x with
  | some b => rfl
  | none => cases p.function? x <;> rfl

namespace Function

theorem result?_signature (f : Function) : f.signature.result? = some f.resultType := rfl

theorem arity?_signature (f : Function) : f.signature.arity? = some f.params.length := by
  simp [signature, Ty.arity?, Ty.params?]

theorem isProcedure_signature (f : Function) : f.signature.isProcedure = f.result.isNone := by
  cases hresult : f.result with
  | none => simp [signature, Ty.isProcedure, Ty.isVoid, hresult]
  | some τ =>
      cases τ with
      | basic b => cases b <;> simp [signature, Ty.isProcedure, Ty.isVoid, hresult,
          TypeSpec.type, BasicType.type]
      | array n b => simp [signature, Ty.isProcedure, Ty.isVoid, hresult, TypeSpec.type]

end Function

/-- The outermost scope is the one of the program. -/
theorem hasEntryPoint_eq_startsAt {p : Program} {s : Symbols} {id : ScopeId}
    (hscope : s.scopes[id]? = some p.scope) (hstack : s.stack = [id]) (x : String) :
    s.hasEntryPoint x = p.startsAt x := by
  simp only [Symbols.hasEntryPoint, Symbols.outermost?, hstack, List.getLast?_singleton,
    Option.bind_some, Symbols.findIn?, hscope, p.find?_scope, Program.startsAt]
  cases p.function? x with
  | none => rfl
  | some f =>
      cases hparams : f.params <;>
        simp [Binding.isFunction, f.isProcedure_signature, f.arity?_signature, hparams]

/-- A body clears the signature that was set for it. -/
def Symbols.cleared (s : Symbols) : Symbols := { s with signature := none }

def Symbols.checked (s : Symbols) : List Function → Symbols
  | [] => s
  | _ :: _ => s.cleared

theorem Symbols.scopes_checked (s : Symbols) (fs : List Function) :
    (s.checked fs).scopes = s.scopes := by
  cases fs <;> rfl

theorem Symbols.stack_checked (s : Symbols) (fs : List Function) :
    (s.checked fs).stack = s.stack := by
  cases fs <;> rfl

theorem Symbols.checked_cleared (s : Symbols) (fs : List Function) :
    s.cleared.checked fs = s.cleared := by
  cases fs <;> rfl

section

variable {p : Program} {t : Tables} {outer : ScopeId}

theorem setSignature_replays (signature : Option Ty) :
    Replays t (Pass.setSignature signature) () [] { t.symbols with signature } :=
  .of_eq_ok rfl

theorem scopeOf_replays {node : NodeId} {id : ScopeId}
    (h : t.annotations.scope? node = some id) : Replays t (Pass.scopeOf node) id [] t.symbols :=
  .of_eq_ok (by simp [Pass.scopeOf, h, Tables.withSymbols])

theorem clearing_replays {body : Pass Unit} {es : Reading} {s : Symbols}
    (h : Replays t body () es s) :
    Replays t (body.ensuring (·.withSignature none)) () es s.cleared :=
  .ensuring (fun _ _ => rfl) h

/-- Whatever the tables say about its names, a body is read in the scope that its function has. -/
theorem checkFunction_replays_in {f : Function} {inner : ScopeId} {env : Env}
    (hinner : t.annotations.scope? f.id = some inner) (hsize : inner < t.symbols.scopes.size)
    (henv : ∀ x, (t.symbols.activate inner).find? x = env x) :
    Replays t (checkFunction f) () (blockReading env f.resultType f.body) t.symbols.cleared := by
  let called : Symbols := { t.symbols with signature := some f.signature }
  let s := called.activate inner
  have hnames : ∀ x, s.find? x = env x := henv
  have hbody (u : Tables) : Replays (u.withSymbols s) (checkBlock f.body) ()
      (blockReading env f.resultType f.body) s :=
    checkBlock_reads hnames f.result?_signature f.body [] _ rfl (by simp)
  have hwithin (u : Tables) : Replays (u.withSymbols called) (Pass.within inner (checkBlock f.body))
      () (blockReading env f.resultType f.body) s.leave := .within hsize (hbody _)
  have hleft : t.symbols.cleared = s.leave.cleared := rfl
  rw [hleft]
  refine ((setSignature_replays _).bind fun u hu => ?_).congr (List.nil_append _)
  have hscopeOf : (u.withSymbols called).annotations.scope? f.id = some inner :=
    ((Reading.done_of_replay hu).holds f.id (.scope inner)).mpr (.inl hinner)
  refine ((scopeOf_replays hscopeOf).bind fun v _ => ?_).congr (List.nil_append _)
  exact clearing_replays (hwithin v)

theorem checkFunction_replays (h : Registered p t)
    (houter : t.symbols.scopes[outer]? = some p.scope) (hstack : t.symbols.stack = [outer])
    {f : Function} (hf : f ∈ p.functions) :
    Replays t (checkFunction f) () (f.reading p) t.symbols.cleared := by
  obtain ⟨inner, hinner, hscope⟩ := h.function f hf
  have hsize : inner < t.symbols.scopes.size := (Array.getElem?_eq_some_iff.mp hscope).1
  exact checkFunction_replays_in hinner hsize
    (find?_eq_env houter hscope (by simp [Symbols.activate, hstack]))

theorem checkFunctions_replays (h : Registered p t)
    (houter : t.symbols.scopes[outer]? = some p.scope) (hstack : t.symbols.stack = [outer])
    (fs : List Function) (hfs : fs ⊆ p.functions) :
    Replays t (checkFunctions fs) () (fs.flatMap (Function.reading p)) (t.symbols.checked fs) := by
  induction fs generalizing t with
  | nil => exact .of_eq_ok rfl
  | cons f rest ih =>
      rw [List.flatMap_cons]
      refine (checkFunction_replays h houter hstack (hfs List.mem_cons_self)).bind fun u hu => ?_
      have hnext : Registered p (u.withSymbols t.symbols.cleared) := h.of_replay hu rfl
      have hrest := ih hnext houter hstack (List.subset_of_cons_subset hfs)
      rwa [Tables.symbols_withSymbols, Symbols.checked_cleared] at hrest

theorem checkEntryPoint_replays (c : Config)
    (houter : t.symbols.scopes[outer]? = some p.scope) (hstack : t.symbols.stack = [outer]) :
    Replays t (checkEntryPoint c p.loc) () (reports (p.entryReports c)) t.symbols := by
  refine .get_bind ?_
  rw [hasEntryPoint_eq_startsAt houter hstack]
  exact .report _

/-- Checking gives back how many complaints it found. -/
theorem checkProgram_replays (c : Config) (h : Registered p t) (hstack : t.symbols.stack = []) :
    Replays t (checkProgram c p) (p.bodiesReading c).found.length (p.bodiesReading c)
      (t.symbols.checked p.functions) := by
  obtain ⟨outer, hnode, houter⟩ := h.program
  have hsize : outer < t.symbols.scopes.size := (Array.getElem?_eq_some_iff.mp houter).1
  let s := t.symbols.activate outer
  have hactive : s.stack = [outer] := by simp [s, Symbols.activate, hstack]
  have hwithin : Replays t
      (Pass.within outer do
        checkFunctions p.functions
        checkEntryPoint c p.loc)
      () (p.bodiesReading c) (s.checked p.functions).leave := by
    refine .within hsize ?_
    have hregistered : Registered p (t.withSymbols s) := ⟨h.program, h.function⟩
    refine (checkFunctions_replays hregistered houter hactive p.functions
      (List.Subset.refl _)).bind fun u _ => ?_
    have hscope : (s.checked p.functions).scopes[outer]? = some p.scope := by
      rw [s.scopes_checked]
      exact houter
    exact checkEntryPoint_replays c hscope ((s.stack_checked _).trans hactive)
  have hleft : t.symbols.checked p.functions = (s.checked p.functions).leave := by
    cases p.functions <;> rfl
  rw [hleft]
  refine .get_bind ?_
  refine ((scopeOf_replays hnode).bind fun u hu => ?_).congr (List.nil_append _)
  cases hu
  refine (hwithin.bind fun u hu => .get_bind (.of_eq_ok ?_)).congr (List.append_nil _)
  have hcount : u.diagnostics.size - t.diagnostics.size = (p.bodiesReading c).found.length := by
    simp [Diagnostics.size_eq_length, (Reading.done_of_replay hu).found]
  exact congrArg (EStateM.Result.ok · _) hcount

end

/-- The reading of both passes, where so many scopes are there before. -/
def Program.reading (p : Program) (c : Config) (base : ScopeId) : Reading :=
  p.registering base ++ p.bodiesReading c

/-- With no scope active, a run over a program replays its reading, whatever has been
written to the tables before. -/
theorem analysis_replays (c : Config) (p : Program) {t : Tables} (hstack : t.symbols.stack = []) :
    Replays t (analysis c p) (p.bodiesReading c).found.length (p.reading c t.symbols.scopes.size)
      ((t.symbols.pushAll (p.scope :: p.functions.map Function.scope)).checked p.functions) := by
  refine (registerProgram_replays p t).bind fun u hu => ?_
  exact checkProgram_replays c (registered_of_registering hu) hstack

/-- The symbols that a run leaves behind. -/
def Program.symbols (p : Program) : Symbols :=
  (({} : Symbols).pushAll (p.scope :: p.functions.map Function.scope)).checked p.functions

/-- A run comes to its end as the replay of its reading does, or stops where that stops. -/
theorem analysis_cases (c : Config) (p : Program) :
    (∃ n u, (p.reading c 0).replay {} = .ok () u ∧
        analysis c p {} = .ok n (u.withSymbols p.symbols)) ∨
      ∃ fault u s, (p.reading c 0).replay {} = .error fault u ∧
        analysis c p {} = .error fault (u.withSymbols s) := by
  have hruns : Replays {} (analysis c p) _ (p.reading c 0) p.symbols := analysis_replays c p rfl
  unfold Replays at hruns
  cases hreplay : (p.reading c 0).replay {} with
  | ok _ u =>
      simp only [hreplay] at hruns
      exact .inl ⟨_, u, rfl, hruns⟩
  | error fault u =>
      simp only [hreplay] at hruns
      obtain ⟨s, hs⟩ := hruns
      exact .inr ⟨fault, u, s, rfl, hs⟩

section

variable {p : Program} {c : Config} {t : Tables}

theorem replay_of_analyse (h : analyse p c = .ok t) :
    ∃ u, (p.reading c 0).replay {} = .ok () u ∧ t = u.withSymbols p.symbols := by
  obtain ⟨n, u, hreplay, hrun⟩ | ⟨fault, u, s, -, hrun⟩ := analysis_cases c p
  · rw [analyse, hrun, Except.ok.injEq] at h
    exact ⟨u, hreplay, h.symm⟩
  · rw [analyse, hrun] at h
    cases h

theorem registered_of_analyse (h : analyse p c = .ok t) : Registered p t := by
  obtain ⟨u, hreplay, rfl⟩ := replay_of_analyse h
  obtain ⟨v, hv, hu⟩ := Reading.replay_append_eq_ok hreplay
  let s := ({} : Symbols).pushAll (p.scope :: p.functions.map Function.scope)
  have hregistered : Registered p (v.withSymbols s) := registered_of_registering (t := {}) hv
  have hbodies : (p.bodiesReading c).replay (v.withSymbols s) = .ok () (u.withSymbols s) := by
    rw [Reading.replay_withSymbols, hu]
  have hrun := hregistered.of_replay hbodies (s.scopes_checked p.functions)
  rwa [Tables.withSymbols_withSymbols] at hrun

end

end Asl
