import Asl.Proofs.Acceptance
import Asl.Proofs.Frame

/-!
# Errors are reported where they arise

Registration gives names only such types as can be written in a program, and the erroneous type
is none of them. So wherever names are looked up in scopes that registration has made, an
expression can only turn out erroneous by a complaint about itself or something below it, made in
the course of the very visit that gives it its type.
-/

namespace Asl

open Pass (Keeps)
open Tables (Tolerates)

/-- A meaning that some declaration can give to a name. -/
def Binding.IsWritten (b : Binding) : Prop :=
  ∃ w : Written, b.type = w.type ∧ b.isFunction = w.isFunction

namespace Function

variable {f : Function}

theorem isWritten_signature (f : Function) : Binding.IsWritten ⟨f.signature, .function⟩ :=
  ⟨f.written, f.type_written.symm, rfl⟩

theorem isWritten_of_mem_decls {d : Ident × Binding} (h : d ∈ f.decls) : d.2.IsWritten := by
  rcases List.mem_append.mp h with h | h
  · obtain ⟨param, -, rfl⟩ := List.mem_map.mp h
    exact ⟨.value param.spec, rfl, rfl⟩
  · obtain ⟨decl, -, h⟩ := List.mem_flatMap.mp h
    obtain ⟨x, -, rfl⟩ := List.mem_map.mp h
    exact ⟨.value decl.spec, rfl, rfl⟩

end Function

/-- All names mean something that can be written, each in its scope. -/
def Symbols.AllWritten (s : Symbols) : Prop := ∀ id x b, s.findIn? id x = some b → b.IsWritten

namespace Symbols.AllWritten

variable {s : Symbols}

theorem of_scopes {u : Symbols} (h : s.AllWritten) (hu : u.scopes = s.scopes) : u.AllWritten := by
  intro id x b hb
  rw [findIn?, hu] at hb
  exact h id x b hb

theorem empty : ({} : Symbols).AllWritten := by
  intro id x b hb
  simp [findIn?] at hb

theorem newScope (h : s.AllWritten) (name : String) : (s.newScope name).AllWritten := by
  intro id x b hb
  simp only [findIn?, Symbols.newScope, Array.getElem?_push] at hb
  split at hb
  · cases hb
  · exact h id x b hb

theorem modify_declare (h : s.AllWritten) (id : ScopeId) (x : String) {b : Binding}
    (hb : b.IsWritten) :
    AllWritten { s with scopes := s.scopes.modify id (·.declare x b) } := by
  intro other y c hc
  obtain ⟨scope, hscope, hy⟩ := Option.bind_eq_some_iff.mp hc
  rw [Array.getElem?_modify] at hscope
  split at hscope
  · obtain ⟨old, hold, rfl⟩ := Option.map_eq_some_iff.mp hscope
    have hwritten {z : String} {c : Binding} (hz : old.find? z = some c) : c.IsWritten :=
      h other z c (by simp [findIn?, hold, hz])
    rw [Scope.find?_declare] at hy
    split at hy
    · cases hfind : old.find? x with
      | none =>
          rw [hfind] at hy
          cases hy
          exact hb
      | some first =>
          rw [hfind] at hy
          cases hy
          exact hwritten hfind
    · exact hwritten hy
  · exact h other y c (by simp [findIn?, hscope, hy])

/-- Under any stack, names mean what some context writes for them. -/
theorem exists_agrees (h : s.AllWritten) : ∃ Γ, Env.Agrees s.find? Γ := by
  have hmeaning (x : String) : ∃ w? : Option Written,
      (s.find? x).map Binding.type = w?.map Written.type ∧
        (s.find? x).map Binding.isFunction = w?.map Written.isFunction := by
    cases hx : s.find? x with
    | none => exact ⟨none, rfl, rfl⟩
    | some b =>
        obtain ⟨id, -, hb⟩ := List.exists_of_findSome?_eq_some hx
        obtain ⟨w, htype, hfunction⟩ := h id x b hb
        exact ⟨some w, congrArg some htype, congrArg some hfunction⟩
  choose Γ hΓ using hmeaning
  exact ⟨Γ, fun x => (hΓ x).1, fun x => (hΓ x).2⟩

end Symbols.AllWritten

/-- No name gets a meaning that could not be written. -/
def Tables.StaysWritten (t u : Tables) : Prop := t.symbols.AllWritten → u.symbols.AllWritten

open Tables (StaysWritten)

theorem staysWritten_tolerates : Tolerates anyNode StaysWritten where
  refl _ h := h
  trans h h' ht := h' (h ht)
  put node _ fact t h := by rwa [Pass.symbols_after_put]
  report _ _ h := h

theorem registerName_staysWritten (x : Ident) {b : Binding} (hb : b.IsWritten) :
    Keeps StaysWritten (registerName x b) := by
  refine .get_bind fun t => ?_
  split
  · exact staysWritten_tolerates.report _
  · intro u hu
    cases hinnermost : u.symbols.innermost? with
    | none => rwa [Pass.after_of_error (Pass.declare_of_none hinnermost x.name b)]
    | some id =>
        rw [Pass.after_of_ok (Pass.declare_of_some hinnermost x.name b)]
        exact hu.modify_declare id x.name hb

theorem registerNames_staysWritten (ds : List (Ident × Binding)) (hds : ∀ d ∈ ds, d.2.IsWritten) :
    Keeps StaysWritten (registerNames ds) := by
  induction ds with
  | nil => exact .pure staysWritten_tolerates ()
  | cons d rest ih =>
      rw [List.forall_mem_cons] at hds
      obtain ⟨hd, hrest⟩ := hds
      rw [registerNames]
      exact .bind staysWritten_tolerates (registerName_staysWritten d.1 hd) fun _ => ih hrest

theorem opening_staysWritten {name : String} {node : NodeId} {body : Pass Unit}
    (hbody : Keeps StaysWritten body) :
    Keeps StaysWritten (do
      let scope ← Pass.newScope name
      Pass.put node (.scope scope)
      Pass.within scope body) := by
  have h := staysWritten_tolerates
  have hnew : Keeps StaysWritten (Pass.newScope name) := fun t ht => ht.newScope name
  refine .bind h hnew fun scope => .bind h (h.put node trivial _) fun _ t ht => ?_
  rw [Pass.after_within]
  split
  · let entered : Tables := { t with symbols.stack := scope :: t.symbols.stack }
    have hentered : entered.symbols.AllWritten := ht.of_scopes rfl
    exact (hbody entered hentered).of_scopes rfl
  · exact ht

theorem registerFunctions_staysWritten (fs : List Function) :
    Keeps StaysWritten (registerFunctions fs) := by
  have h := staysWritten_tolerates
  induction fs with
  | nil => exact .pure h ()
  | cons f rest ih =>
      have hdecls : Keeps StaysWritten (registerNames f.decls) :=
        registerNames_staysWritten f.decls fun _ => Function.isWritten_of_mem_decls
      have hname := registerName_staysWritten f.name f.isWritten_signature
      rw [registerFunctions]
      exact .bind h (.bind h hname fun _ => opening_staysWritten hdecls) fun _ => ih

theorem registerProgram_staysWritten (p : Program) : Keeps StaysWritten (registerProgram p) :=
  opening_staysWritten (registerFunctions_staysWritten p.functions)

/-- Scopes made by the registration of programs one after the other, each to its end or to a
fault, whatever else the tables hold. -/
inductive Built : Array Scope → Prop where
  | none : Built #[]
  | register (p : Program) {t : Tables} :
      Built t.symbols.scopes → Built ((registerProgram p).after t).symbols.scopes

theorem Built.allWritten {s : Symbols} (h : Built s.scopes) : s.AllWritten := by
  generalize hscopes : s.scopes = scopes at h
  induction h generalizing s with
  | none => exact Symbols.AllWritten.empty.of_scopes hscopes
  | register p _ ih => exact (registerProgram_staysWritten p _ (ih rfl)).of_scopes hscopes

def Part.loc : Part → Location
  | expr e => e.loc
  | target t => t.loc
  | name _ x => x.loc

theorem locs_complainIf (wrong : Bool) (complaint : Complaint) (loc : Location) :
    (complainIf wrong complaint loc).map Diagnostic.loc ⊆ [loc] := by
  cases wrong <;> simp [complainIf]

namespace Rule

variable {σ τ : Ty} {loc : Location}

theorem locs_subscript (indexLoc : Location) :
    (subscript σ τ loc indexLoc).map Diagnostic.loc ⊆ [loc, indexLoc] := by
  have hbase := locs_complainIf (σ.fails Ty.isArray) .notArray loc
  have hindex := locs_complainIf (τ.fails Ty.isInt) .subscriptNotInt indexLoc
  rw [subscript, List.map_append]
  grind

theorem locs_valueCall (f : Ident) (arity : Nat) :
    (valueCall f τ arity).map Diagnostic.loc ⊆ [f.loc] := by
  have hvalue := locs_complainIf τ.isProcedure (.noValue f.name) f.loc
  have hcall : (call f τ arity).map Diagnostic.loc ⊆ [f.loc] := by
    cases τ with
    | func params result => exact locs_complainIf _ _ _
    | _ => simp [call]
  rw [valueCall, List.map_append]
  grind

theorem locs_unary (op : UnaryOp) : (unary op τ loc).found.map Diagnostic.loc ⊆ [loc] := by
  cases op with
  | not => exact locs_complainIf _ _ _
  | plus | minus => cases h : τ.fails Ty.isNumeric <;> simp [unary, h]

theorem locs_binary (op : BinaryOp) : (binary op σ τ loc).found.map Diagnostic.loc ⊆ [loc] := by
  cases op with
  | arith op =>
      simp only [binary, arith]
      split
      · simp
      · split
        · simp
        · split <;> simp
  | rel op | logic op => exact locs_complainIf _ _ _

end Rule

theorem Ident.locs_reading (env : Env) (use : Use) (x : Ident) :
    (x.reading env use).found.map Diagnostic.loc ⊆ [x.loc] := by
  simpa [reading, Rule.name] using
    locs_complainIf (env x.name).isNone (.undeclared x.name) x.loc

mutual
theorem Expr.locs_reading (env : Env) : ∀ e : Expr,
    (e.reading env).found.map Diagnostic.loc ⊆ (e.reached env.takes).map Part.loc
  | .lit _ _ => by simp [Expr.reading]
  | .var _ x => by
      have hname := x.locs_reading env .plain
      simp only [Expr.found_var, Expr.reached]
      grind [Part.loc]
  | .paren _ e => by
      have hinner := e.locs_reading env
      simp only [Expr.found_paren, Expr.reached]
      grind
  | .index n x e => by
      have hname := x.locs_reading env .plain
      have hsubscript := e.locs_reading env
      have hindex : e.loc ∈ (e.reached env.takes).map Part.loc :=
        List.mem_map_of_mem (e.mem_reached env.takes)
      have hrule : (Rule.subscript (env.typeOf x) (e.type env) n.loc e.loc).map Diagnostic.loc ⊆
          [n.loc, e.loc] := Rule.locs_subscript e.loc
      simp only [Expr.reading, Expr.reached, Reading.found_append, Reading.found_reports,
        Part.found_visit, List.append_nil]
      grind [Part.loc, Expr.loc, Expr.node]
  | .call n f args => by
      have hname := f.locs_reading env .called
      have hrule : (Rule.valueCall f (env.typeOf f) args.length).map Diagnostic.loc ⊆ [f.loc] :=
        Rule.locs_valueCall f args.length
      have hargs := locs_argsReading env f 1 (Rule.params (env.typeOf f) args.length) args
      simp only [Expr.reading, Expr.reached, Reading.found_append, Reading.found_reports,
        Part.found_visit, List.append_nil]
      cases htakes : env.takes f args.length with
      | true => grind [Part.loc]
      | false =>
          rw [Rule.params_eq_nil_of_not_takes htakes, argsReading_nil]
          grind [Part.loc, Reading.found_nil]
  | .unary n op e => by
      have hoperand := e.locs_reading env
      have hrule : (Rule.unary op (e.type env) n.loc).found.map Diagnostic.loc ⊆ [n.loc] :=
        Rule.locs_unary op
      simp only [Expr.reading, Expr.reached, Reading.found_append, Reading.found_reports,
        Part.found_visit, List.append_nil]
      grind [Part.loc, Expr.loc, Expr.node]
  | .binary n op l r => by
      have hleft := l.locs_reading env
      have hright := r.locs_reading env
      have hrule : (Rule.binary op (l.type env) (r.type env) n.loc).found.map Diagnostic.loc ⊆
          [n.loc] := Rule.locs_binary op
      simp only [Expr.reading, Expr.reached, Reading.found_append, Reading.found_reports,
        Part.found_visit, List.append_nil]
      grind [Part.loc, Expr.loc, Expr.node]
theorem locs_argsReading (env : Env) (f : Ident) :
    ∀ (k : Nat) (params : List Ty) (args : List Expr),
      (argsReading env f k params args).found.map Diagnostic.loc ⊆
        (reachedExprs env.takes args).map Part.loc
  | _, [], _ => by simp
  | _, _ :: _, [] => by simp [argsReading]
  | k, param :: params, e :: rest => by
      have harg := e.locs_reading env
      have hself : e.loc ∈ (e.reached env.takes).map Part.loc :=
        List.mem_map_of_mem (e.mem_reached env.takes)
      have hrule : (Rule.argument f k param (e.type env) e.loc).map Diagnostic.loc ⊆ [e.loc] :=
        locs_complainIf _ _ _
      have hrest := locs_argsReading env f (k + 1) params rest
      simp only [argsReading, reachedExprs, Reading.found_append, Reading.found_reports]
      grind
end

theorem Target.locs_reading (env : Env) (t : Target) :
    (t.reading env).found.map Diagnostic.loc ⊆ (t.reached env.takes).map Part.loc := by
  obtain ⟨n, x, _ | e⟩ := t
  · have hname := x.locs_reading env .plain
    simp only [reading, reached, Reading.found_append, Part.found_visit, List.append_nil]
    grind [Part.loc]
  · have hname := x.locs_reading env .plain
    have hsubscript := e.locs_reading env
    have hindex : e.loc ∈ (e.reached env.takes).map Part.loc :=
      List.mem_map_of_mem (e.mem_reached env.takes)
    have hrule : (Rule.subscript (env.typeOf x) (e.type env) n.loc e.loc).map Diagnostic.loc ⊆
        [n.loc, e.loc] := Rule.locs_subscript e.loc
    simp only [reading, reached, Reading.found_append, Reading.found_reports, Part.found_visit,
      Option.elim_some, List.append_nil]
    grind [Part.loc]

section

variable {env : Env} {Γ : Context}

theorem Expr.type_ne_error (h : env.Agrees Γ) {e : Expr} (hfound : (e.reading env).found = []) :
    e.type env ≠ .error := by
  obtain ⟨w, -, htype⟩ := e.typed_of_found h hfound
  rw [htype]
  exact w.type_ne_error

theorem Target.type_ne_error (h : env.Agrees Γ) {t : Target}
    (hfound : (t.reading env).found = []) : t.type env ≠ .error := by
  obtain ⟨n, x, _ | e⟩ := t
  · obtain ⟨w, hx⟩ := (h.found_name_eq_nil_iff .plain x).mp (by simpa [reading] using hfound)
    have htype : type env ⟨n, x, none⟩ = w.type := h.typeOf hx
    rw [htype]
    exact w.type_ne_error
  · obtain ⟨b, -, htype⟩ := Target.element_of_found h hfound
    rw [htype]
    exact (Written.basic b).type_ne_error

end

/-- Between two points something was found, at places of some parts, and a node was annotated as
erroneous. -/
structure Reported (t u : Tables) (node : NodeId) (parts : List Part) : Prop where
  found : ∃ ds, ds ≠ [] ∧ u.diagnostics.toList = t.diagnostics.toList ++ ds ∧
    ∀ d ∈ ds, ∃ part ∈ parts, d.loc = part.loc
  annotated : u.annotations.type? node = some .error

theorem reported_of_replays {t u : Tables} {pass : Pass Ty} {τ : Ty} {es : Reading}
    {node : NodeId} {parts : List Part} (hruns : Pass.Replays t pass τ es t.symbols)
    (hrun : pass t = .ok .error u) (hfound : es.found = [] → τ ≠ .error)
    (hlocs : es.found.map Diagnostic.loc ⊆ parts.map Part.loc)
    (hnode : (node, .type τ) ∈ es.facts) : Reported t u node parts := by
  unfold Pass.Replays at hruns
  cases hreplay : es.replay t with
  | error fault v =>
      rw [hreplay] at hruns
      obtain ⟨s, hruns⟩ := hruns
      rw [hrun] at hruns
      cases hruns
  | ok _ v =>
      rw [hreplay, hrun] at hruns
      cases hruns
      have hdone := Reading.done_of_replay hreplay
      refine ⟨⟨es.found, fun hnil => hfound hnil rfl, hdone.found, fun d hd => ?_⟩, ?_⟩
      · obtain ⟨part, hpart, hloc⟩ := List.mem_map.mp (hlocs (List.mem_map_of_mem hd))
        exact ⟨part, hpart, hloc.symm⟩
      · exact (hdone.holds node (.type .error)).mpr (.inr hnode)

theorem Part.type_mem_facts {env : Env} {part : Part} {parts : List Part} (h : part ∈ parts) :
    (part.id, .type (part.type env)) ∈ parts.flatMap (Part.facts env) :=
  List.mem_flatMap.mpr ⟨part, h, by simp [facts]⟩

/-- Where the scopes are made by registration, whatever of them is active, an expression or a
target only turns out erroneous in a visit that complains of it or of something below it. -/
theorem errors_are_never_silent {t u : Tables} (hbuilt : Built t.symbols.scopes) :
    (∀ e : Expr, checkExpr e t = .ok .error u → Reported t u e.node.id (e.reached everyCall)) ∧
      ∀ place : Target, checkTarget place t = .ok .error u →
        Reported t u place.id (place.reached everyCall) := by
  let env : Env := t.symbols.find?
  obtain ⟨Γ, hagrees⟩ : ∃ Γ, env.Agrees Γ := hbuilt.allWritten.exists_agrees
  constructor
  · intro e hrun
    have hruns : Pass.Replays t (checkExpr e) (e.type env) (e.reading env) t.symbols :=
      checkExpr_reads (fun _ => rfl) e [] t rfl (by simp)
    refine reported_of_replays hruns hrun (Expr.type_ne_error hagrees) ?_ ?_
    · intro loc hloc
      apply ((e.reached_sublist env.takes).map Part.loc).subset
      exact e.locs_reading env hloc
    · rw [e.facts_reading]
      exact Part.type_mem_facts (e.mem_reached env.takes)
  · intro place hrun
    have hreads : Pass.Reads t.symbols [] (checkTarget place) (place.type env)
        (place.reading env) := checkTarget_reads (fun _ => rfl) place
    have hruns := hreads t rfl (by simp)
    refine reported_of_replays hruns hrun (Target.type_ne_error hagrees) ?_ ?_
    · intro loc hloc
      apply ((place.reached_sublist env.takes).map Part.loc).subset
      exact place.locs_reading env hloc
    · rw [place.facts_reading]
      exact Part.type_mem_facts (place.mem_reached env.takes)

/-- The tables in which the body of the second function of `halving` is read. -/
def secondBody : Tables :=
  let t := (registerProgram halving).after {}
  t.withSymbols ((t.symbols.activate 0).activate 2)

theorem built_secondBody : Built secondBody.symbols.scopes := by
  have hbuilt : Built ((registerProgram halving).after {}).symbols.scopes :=
    .register halving .none
  simpa only [secondBody, Tables.symbols_withSymbols, Symbols.activate] using hbuilt

/-- A number is added to a truth value. -/
def oddSum : Expr :=
  let build : Build Expr := do
    Build.binary (.arith .add) (← Build.var "y") (← Build.lit (.bool true))
  (build.run {}).1

theorem oddSum_is_reported :
    ∃ u, checkExpr oddSum secondBody = .ok .error u ∧
      Reported secondBody u oddSum.node.id (oddSum.reached everyCall) := by
  have herror : (match checkExpr oddSum secondBody with
      | .ok type _ => decide (type = .error)
      | .error _ _ => false) = true := by decide +kernel
  cases hrun : checkExpr oddSum secondBody with
  | error fault u =>
      rw [hrun] at herror
      cases herror
  | ok type u =>
      rw [hrun] at herror
      obtain rfl : type = .error := of_decide_eq_true herror
      exact ⟨u, rfl, (errors_are_never_silent built_secondBody).1 oddSum hrun⟩

end Asl
