import Asl.Proofs.Outcome
import Mathlib.Data.List.Pairwise

/-!
# Functions do not influence each other

The reading of a body depends on the environment only at the names that occur in the
body. Of the rest of the program a function therefore sees no more than the signatures
behind the names that it uses and does not declare, and what is found in its body and
annotated there is the same in all programs that agree on these.
-/

namespace Asl

/-- The name means the same in both environments. -/
def Part.MeansSame (env env' : Env) : Part → Prop
  | name _ x => env x.name = env' x.name
  | _ => True

section

variable {env env' : Env}

theorem Env.typeOf_congr {x : Ident} (h : env x.name = env' x.name) :
    env.typeOf x = env'.typeOf x := congrArg Rule.nameType h

theorem Env.lvalueOf_congr {x : Ident} (h : env x.name = env' x.name) :
    env.lvalueOf x = env'.lvalueOf x := congrArg Rule.nameLvalue h

theorem Part.visit_congr {part : Part} (htype : part.type env = part.type env')
    (hlvalue : part.lvalue env = part.lvalue env') : part.visit env = part.visit env' := by
  simp [visit, facts, htype, hlvalue]

theorem Ident.reading_congr {x : Ident} (use : Use) (h : env x.name = env' x.name) :
    x.reading env use = x.reading env' use := by
  have hvisit : (Part.name use x).visit env = (Part.name use x).visit env' :=
    Part.visit_congr (Env.typeOf_congr h) (Env.lvalueOf_congr h)
  rw [reading, reading, h, hvisit]

namespace Expr

theorem type_congr (e : Expr) (h : ∀ part ∈ e.reached everyCall, part.MeansSame env env') :
    e.type env = e.type env' := by
  induction e with
  | lit n v => rfl
  | var n x =>
      rw [forall_reached_var] at h
      exact Env.typeOf_congr h.1
  | paren n e ih =>
      rw [forall_reached_paren] at h
      exact ih h.1
  | index n x e ih =>
      rw [forall_reached_index] at h
      obtain ⟨hx, he, -⟩ := h
      rw [type, type, Env.typeOf_congr hx, ih he]
  | call n f args ih =>
      rw [forall_reached_call] at h
      rw [type, type, Env.typeOf_congr h.1]
  | unary n op e ih =>
      rw [forall_reached_unary] at h
      rw [type, type, ih h.1]
  | binary n op l r ihl ihr =>
      rw [forall_reached_binary] at h
      obtain ⟨hl, hr, -⟩ := h
      rw [type, type, ihl hl, ihr hr]

theorem visit_congr (e : Expr) (h : ∀ part ∈ e.reached everyCall, part.MeansSame env env') :
    (Part.expr e).visit env = (Part.expr e).visit env' := by
  refine Part.visit_congr (e.type_congr h) ?_
  cases e with
  | var n x =>
      rw [forall_reached_var] at h
      exact Env.lvalueOf_congr h.1
  | index n x e =>
      rw [forall_reached_index] at h
      exact Env.lvalueOf_congr h.1
  | lit | paren | call | unary | binary => rfl

end Expr

mutual
theorem Expr.reading_congr : ∀ e : Expr,
    (∀ part ∈ e.reached everyCall, part.MeansSame env env') → e.reading env = e.reading env'
  | .lit n v, h => by
      rw [Expr.reading, Expr.reading, Expr.visit_congr _ h]
  | .var n x, h => by
      have hnode := Expr.visit_congr _ h
      rw [Expr.forall_reached_var] at h
      rw [Expr.reading, Expr.reading, x.reading_congr _ h.1, hnode]
  | .paren n e, h => by
      have hnode := Expr.visit_congr _ h
      rw [Expr.forall_reached_paren] at h
      rw [Expr.reading, Expr.reading, e.reading_congr h.1, hnode]
  | .index n x e, h => by
      have hnode := Expr.visit_congr _ h
      rw [Expr.forall_reached_index] at h
      obtain ⟨hx, he, -⟩ := h
      rw [Expr.reading, Expr.reading, x.reading_congr _ hx, e.reading_congr he,
        Env.typeOf_congr hx, e.type_congr he, hnode]
  | .call n f args, h => by
      have hnode := Expr.visit_congr _ h
      rw [Expr.forall_reached_call] at h
      obtain ⟨hf, hargs, -⟩ := h
      rw [Expr.reading, Expr.reading, f.reading_congr _ hf, Env.typeOf_congr hf,
        argsReading_congr f 1 _ args hargs, hnode]
  | .unary n op e, h => by
      have hnode := Expr.visit_congr _ h
      rw [Expr.forall_reached_unary] at h
      rw [Expr.reading, Expr.reading, e.reading_congr h.1, e.type_congr h.1, hnode]
  | .binary n op l r, h => by
      have hnode := Expr.visit_congr _ h
      rw [Expr.forall_reached_binary] at h
      obtain ⟨hl, hr, -⟩ := h
      rw [Expr.reading, Expr.reading, l.reading_congr hl, r.reading_congr hr, l.type_congr hl,
        r.type_congr hr, hnode]
theorem argsReading_congr (f : Ident) : ∀ (k : Nat) (params : List Ty) (args : List Expr),
    (∀ part ∈ reachedExprs everyCall args, part.MeansSame env env') →
      argsReading env f k params args = argsReading env' f k params args
  | _, [], _, _ => by simp
  | _, _ :: _, [], _ => by simp [argsReading]
  | k, param :: params, e :: rest, h => by
      rw [reachedExprs, List.forall_mem_append] at h
      obtain ⟨he, hrest⟩ := h
      rw [argsReading, argsReading, e.reading_congr he, e.type_congr he,
        argsReading_congr f (k + 1) params rest hrest]
end

theorem exprsReading_congr (es : List Expr)
    (h : ∀ part ∈ reachedExprs everyCall es, part.MeansSame env env') :
    exprsReading env es = exprsReading env' es := by
  induction es with
  | nil => rfl
  | cons e rest ih =>
      rw [reachedExprs, List.forall_mem_append] at h
      obtain ⟨he, hrest⟩ := h
      rw [exprsReading, exprsReading, e.reading_congr he, ih hrest]

/-- Arguments have the same types. -/
theorem argTypes_congr (es : List Expr)
    (h : ∀ part ∈ reachedExprs everyCall es, part.MeansSame env env') :
    (es.map fun e => (e.type env, e.loc)) = es.map fun e => (e.type env', e.loc) := by
  induction es with
  | nil => rfl
  | cons e rest ih =>
      rw [reachedExprs, List.forall_mem_append] at h
      obtain ⟨he, hrest⟩ := h
      rw [List.map_cons, List.map_cons, e.type_congr he, ih hrest]

namespace Target

theorem congr (t : Target) (h : ∀ part ∈ t.reached everyCall, part.MeansSame env env') :
    t.type env = t.type env' ∧ t.reading env = t.reading env' ∧
      ∀ complaint loc, t.unaddressable env complaint loc = t.unaddressable env' complaint loc := by
  obtain ⟨n, x, subscript⟩ := t
  have hident : env x.name = env' x.name := h (.name .plain x) (by simp [reached])
  have htype : type env ⟨n, x, subscript⟩ = type env' ⟨n, x, subscript⟩ := by
    cases subscript with
    | none => exact Env.typeOf_congr hident
    | some e =>
        rw [forall_reached_some] at h
        obtain ⟨-, he, -⟩ := h
        simp only [type, Env.typeOf_congr hident, e.type_congr he]
  have hvisit : (Part.target ⟨n, x, subscript⟩).visit env =
      (Part.target ⟨n, x, subscript⟩).visit env' :=
    Part.visit_congr htype (Env.lvalueOf_congr hident)
  refine ⟨htype, ?_, fun complaint loc => ?_⟩
  · rw [reading, reading, hvisit, x.reading_congr _ hident]
    cases subscript with
    | none => rfl
    | some e =>
        rw [forall_reached_some] at h
        obtain ⟨-, he, -⟩ := h
        simp only [e.reading_congr he, e.type_congr he, Env.typeOf_congr hident]
  · rw [unaddressable, unaddressable, htype, Env.lvalueOf_congr hident]

end Target

mutual
theorem Stmt.reading_congr (result : Ty) : ∀ s : Stmt,
    (∀ part ∈ s.reached everyCall, part.MeansSame env env') →
      s.reading env result = s.reading env' result
  | .assign loc target value, h => by
      rw [Stmt.reached, List.forall_mem_append] at h
      obtain ⟨htarget, hvalue⟩ := h
      obtain ⟨htype, hreading, hplace⟩ := target.congr htarget
      rw [Stmt.reading, Stmt.reading, hreading, htype, hplace, value.reading_congr hvalue,
        value.type_congr hvalue]
  | .ite loc condition yes none, h => by
      simp only [Stmt.reached, List.append_nil, List.forall_mem_append] at h
      obtain ⟨hcondition, hyes⟩ := h
      rw [Stmt.reading, Stmt.reading, condition.reading_congr hcondition,
        condition.type_congr hcondition, blockReading_congr result yes hyes]
  | .ite loc condition yes (some no), h => by
      simp only [Stmt.reached, List.forall_mem_append] at h
      obtain ⟨⟨hcondition, hyes⟩, hno⟩ := h
      simp only [Stmt.reading, condition.reading_congr hcondition,
        condition.type_congr hcondition, blockReading_congr result yes hyes,
        blockReading_congr result no hno]
  | .loop loc condition body, h => by
      rw [Stmt.reached, List.forall_mem_append] at h
      obtain ⟨hcondition, hbody⟩ := h
      rw [Stmt.reading, Stmt.reading, condition.reading_congr hcondition,
        condition.type_congr hcondition, blockReading_congr result body hbody]
  | .call _ f args, h => by
      rw [Stmt.reached, List.forall_mem_cons] at h
      obtain ⟨hf, hargs⟩ := h
      rw [Stmt.reading, Stmt.reading, f.reading_congr _ hf, Env.typeOf_congr hf,
        exprsReading_congr args hargs, argTypes_congr args hargs]
  | .read loc target, h => by
      obtain ⟨htype, hreading, hplace⟩ := target.congr h
      rw [Stmt.reading, Stmt.reading, hreading, htype, hplace]
  | .write loc value, h => by
      rw [Stmt.reading, Stmt.reading, value.reading_congr h, value.type_congr h]
  | .print _ _, _ => rfl
  | .ret _ none, _ => rfl
  | .ret loc (some value), h => by
      rw [Stmt.reading, Stmt.reading, value.reading_congr h, value.type_congr h]
theorem blockReading_congr (result : Ty) : ∀ ss : List Stmt,
    (∀ part ∈ reachedBlock everyCall ss, part.MeansSame env env') →
      blockReading env result ss = blockReading env' result ss
  | [], _ => rfl
  | s :: rest, h => by
      rw [reachedBlock, List.forall_mem_append] at h
      obtain ⟨hs, hrest⟩ := h
      rw [blockReading, blockReading, s.reading_congr result hs,
        blockReading_congr result rest hrest]
end

end

def Part.name? : Part → Option String
  | name _ x => some x.name
  | _ => none

namespace Function

/-- The names that occur in a body. -/
def names (f : Function) : List String := f.parts.filterMap Part.name?

theorem mem_names {f : Function} {use : Use} {x : Ident} (h : .name use x ∈ f.parts) :
    x.name ∈ f.names := List.mem_filterMap.mpr ⟨_, h, rfl⟩

/-- Both programs have first functions of the same signature under the names that a function
uses and does not declare, or none in both. -/
def SeesSame (f : Function) (p p' : Program) : Prop :=
  ∀ x ∈ f.names, f.declared? x = none →
    (p.function? x).map signature = (p'.function? x).map signature

variable {f : Function} {p p' : Program}

theorem SeesSame.env_eq (h : f.SeesSame p p') {x : String} (hx : x ∈ f.names) :
    p.env f x = p'.env f x := by
  cases hdeclared : f.declared? x with
  | some b => simp [Program.env, hdeclared]
  | none =>
      have hsignature := h x hx hdeclared
      cases hp : p.function? x <;> cases hp' : p'.function? x <;>
        simp_all [Program.env]

theorem SeesSame.reading_eq (h : f.SeesSame p p') : f.reading p = f.reading p' := by
  refine blockReading_congr f.resultType f.body fun part hpart => ?_
  cases part with
  | name use x => exact h.env_eq (mem_names hpart)
  | expr _ | target _ => trivial

end Function

/-- The functions that are checked before another. -/
def Program.before (p : Program) (f : Function) : List Function :=
  p.functions.takeWhile fun g => g.id ≠ f.id

/-- Gives what a pass has found. -/
def Pass.finding (body : Pass Unit) : Pass (List Diagnostic) := do
  let known := (← get).diagnostics.size
  body
  return (← get).diagnostics.toList.drop known

/-- Checks the bodies before one and then that one, and gives what is found in it. -/
def Program.watchBody (p : Program) (f : Function) : Pass (List Diagnostic) := do
  let scope ← Pass.scopeOf p.id
  Pass.within scope do
    checkFunctions (p.before f)
    Pass.finding (checkFunction f)

/-- Runs both passes up to the end of one body. -/
def Program.watch (p : Program) (f : Function) : Pass (List Diagnostic) := do
  registerProgram p
  p.watchBody f

open Pass (Replays)

theorem Pass.Replays.finding {t : Tables} {body : Pass Unit} {es : Reading} {s : Symbols}
    (h : Replays t body () es s) : Replays t (Pass.finding body) es.found es s := by
  refine .get_bind ((h.bind fun u hu => .get_bind (.of_eq_ok ?_)).congr (List.append_nil _))
  have hfound : u.diagnostics.toList.drop t.diagnostics.size = es.found := by
    rw [(Reading.done_of_replay hu).found, Diagnostics.size_eq_length, List.drop_left]
  exact congrArg (EStateM.Result.ok · _) hfound

section

variable {p : Program} {f : Function}

theorem Program.functions_eq (hf : f ∈ p.functions) (hscopes : p.scopeIds.Nodup) :
    ∃ after, p.functions = p.before f ++ f :: after := by
  have hids : (p.functions.map fun g => g.id).Nodup := (List.nodup_cons.mp hscopes).2
  obtain ⟨before, after, hsplit⟩ := List.append_of_mem hf
  have hne : ∀ g ∈ before, g.id ≠ f.id := by
    intro g hg heq
    rw [hsplit, List.map_append, List.nodup_append] at hids
    obtain ⟨-, -, hapart⟩ := hids
    exact hapart g.id (List.mem_map_of_mem hg) f.id (by simp) heq
  have hbefore : p.before f = before := by
    rw [Program.before, hsplit, List.takeWhile_append_of_pos (by simpa using hne)]
    simp
  exact ⟨after, hbefore ▸ hsplit⟩

theorem watchBody_replays {t : Tables} (h : Registered p t) (hstack : t.symbols.stack = [])
    (hf : f ∈ p.functions) :
    ∃ s, Replays t (p.watchBody f) (f.reading p).found
      ((p.before f).flatMap (Function.reading p) ++ f.reading p) s := by
  -- What the bodies before leave behind is their annotations; the scopes are as registered.
  have hbefore : p.before f ⊆ p.functions := (List.takeWhile_sublist _).subset
  obtain ⟨outer, hnode, houter⟩ := h.program
  have hsize := (Array.getElem?_eq_some_iff.mp houter).1
  let s := t.symbols.activate outer
  let checked := s.checked (p.before f)
  have hactive : s.stack = [outer] := by simp [s, Symbols.activate, hstack]
  have hchecked : checked.scopes = s.scopes ∧ checked.stack = s.stack := by
    unfold checked
    cases p.before f <;> exact ⟨rfl, rfl⟩
  have hwithin : Replays t
      (Pass.within outer do
        checkFunctions (p.before f)
        Pass.finding (checkFunction f))
      (f.reading p).found ((p.before f).flatMap (Function.reading p) ++ f.reading p)
      checked.cleared.leave := by
    refine .within hsize ?_
    have hregistered : Registered p (t.withSymbols s) := ⟨h.program, h.function⟩
    refine (checkFunctions_replays hregistered houter hactive (p.before f)
      hbefore).bind fun u hu => ?_
    have hnext : Registered p (u.withSymbols checked) := hregistered.of_replay hu hchecked.1
    have hscope : checked.scopes[outer]? = some p.scope := hchecked.1 ▸ houter
    exact (checkFunction_replays hnext hscope (hchecked.2.trans hactive) hf).finding
  refine ⟨checked.cleared.leave, ?_⟩
  refine ((scopeOf_replays hnode).bind fun u hu => ?_).congr (List.nil_append _)
  cases hu
  exact hwithin

theorem Program.exists_replay (c : Config) (hscopes : p.scopeIds.Nodup)
    (hparts : p.partIds.Nodup) : ∃ t, (p.reading c 0).replay {} = .ok () t := by
  obtain ⟨t, hrun, -⟩ := exists_outcome c hscopes hparts
  obtain ⟨u, hreplay, -⟩ := replay_of_analyse hrun
  exact ⟨u, hreplay⟩

/-- What is found in a body while the program is run is what its reading finds. -/
theorem watch_eq_ok (hscopes : p.scopeIds.Nodup) (hparts : p.partIds.Nodup)
    (hf : f ∈ p.functions) : ∃ t, p.watch f {} = .ok (f.reading p).found t := by
  obtain ⟨after, hsplit⟩ := p.functions_eq hf hscopes
  let bodies := (p.before f).flatMap (Function.reading p) ++ f.reading p
  let rest := after.flatMap (Function.reading p) ++ Reading.reports (p.entryReports {})
  have hreading : p.reading {} 0 = p.registering 0 ++ (bodies ++ rest) := by
    rw [Program.reading, Program.bodiesReading, hsplit]
    simp [bodies, rest]
  obtain ⟨v, hv⟩ := p.exists_replay {} hscopes hparts
  rw [hreading] at hv
  obtain ⟨u, hu, hrest⟩ := Reading.replay_append_eq_ok hv
  obtain ⟨w, hw, -⟩ := Reading.replay_append_eq_ok hrest
  let registered := u.withSymbols
    (({} : Symbols).pushAll (p.scope :: p.functions.map Function.scope))
  have hregister : registerProgram p {} = .ok () registered := by
    have hreplays := registerProgram_replays p {}
    unfold Replays at hreplays
    simpa only [show ({} : Tables).symbols.scopes.size = 0 from rfl, hu] using hreplays
  have hregistered : Registered p registered := registered_of_registering (t := {}) hu
  obtain ⟨s, hbody⟩ := watchBody_replays hregistered rfl hf
  unfold Replays at hbody
  rw [Reading.replay_withSymbols, hw] at hbody
  refine ⟨w.withSymbols s, ?_⟩
  simp only [Program.watch, Bind.bind, EStateM.bind, hregister]
  exact hbody

end

section

variable {p : Program} {f g : Function}

/-- No part belongs to two functions. -/
theorem Program.eq_of_part_mem (hparts : p.partIds.Nodup) (hf : f ∈ p.functions)
    (hg : g ∈ p.functions) {part other : Part} (hpart : part ∈ f.parts) (hother : other ∈ g.parts)
    (hid : part.id = other.id) : part = other ∧ f = g := by
  have hmem : part ∈ p.parts := List.mem_flatMap.mpr ⟨f, hf, hpart⟩
  have hmem' : other ∈ p.parts := List.mem_flatMap.mpr ⟨g, hg, hother⟩
  obtain rfl : part = other := List.inj_on_of_nodup_map hparts hmem hmem' hid
  refine ⟨rfl, ?_⟩
  by_contra hne
  obtain ⟨-, hapart⟩ := List.nodup_flatMap.mp (List.Nodup.of_map _ hparts)
  have hsymm : Std.Symm (Function.onFun List.Disjoint Function.parts) :=
    ⟨fun _ _ hapart _ hpart hother => hapart hother hpart⟩
  exact hapart.forall hf hg hne hpart hother

/-- About a part of a body the tables hold what the reading of that body writes. -/
theorem Program.Outcome.holds_part {c : Config} {t : Tables} (h : p.Outcome c t)
    (hparts : p.partIds.Nodup) (hf : f ∈ p.functions) {part : Part} (hpart : part ∈ f.parts)
    {fact : Fact} (hfact : fact.field ≠ .scope) :
    t.annotations.Holds part.id fact ↔ (part.id, fact) ∈ (f.reading p).facts := by
  rw [h.holds_iff_of_ne_scope hfact, facts_bodiesReading, f.facts_reading]
  constructor
  · intro hmem
    obtain ⟨g, hg, hmem⟩ := List.mem_flatMap.mp hmem
    obtain ⟨other, hother, hvisit⟩ := List.mem_flatMap.mp hmem
    have hother' : other ∈ g.parts := (reachedBlock_sublist _ _).subset hother
    obtain ⟨-, rfl⟩ :=
      eq_of_part_mem hparts hf hg hpart hother' (Part.eq_id_of_mem_facts hvisit)
    exact hmem
  · exact fun hmem => List.mem_flatMap.mpr ⟨f, hf, hmem⟩

/-- What is annotated on a part of a body is what is read for it, if it is visited. -/
theorem Program.Outcome.part_iff {c : Config} {t : Tables} (h : p.Outcome c t)
    (hparts : p.partIds.Nodup) (hf : f ∈ p.functions) {part : Part} (hpart : part ∈ f.parts) :
    (∀ τ, t.annotations.type? part.id = some τ ↔
        part ∈ reachedBlock (p.callable f) f.body ∧ part.type (p.env f) = τ) ∧
      ∀ lvalue, t.annotations.lvalue? part.id = some lvalue ↔
        part ∈ reachedBlock (p.callable f) f.body ∧ part.lvalue (p.env f) = lvalue := by
  have hfacts (fact : Fact) (hfact : fact.field ≠ .scope) : t.annotations.Holds part.id fact ↔
      part ∈ reachedBlock (p.callable f) f.body ∧ (part.id, fact) ∈ part.facts (p.env f) := by
    rw [h.holds_part hparts hf hpart hfact, f.facts_reading, List.mem_flatMap]
    constructor
    · rintro ⟨other, hother, hmem⟩
      have hother' : other ∈ f.parts := (reachedBlock_sublist _ _).subset hother
      obtain ⟨rfl, -⟩ :=
        eq_of_part_mem hparts hf hf hpart hother' (Part.eq_id_of_mem_facts hmem)
      exact ⟨hother, hmem⟩
    · rintro ⟨hmem, hfact⟩
      exact ⟨part, hmem, hfact⟩
  constructor
  · intro τ
    refine (hfacts (.type τ) (by simp [Fact.field])).trans ?_
    simp [Part.facts, eq_comm]
  · intro lvalue
    refine (hfacts (.lvalue lvalue) (by simp [Fact.field])).trans ?_
    simp [Part.facts, eq_comm]

end

/-- What is found in a body stands in one piece among all that is found. -/
theorem found_reading_infix {p : Program} {c : Config} {t : Tables} (h : p.Outcome c t)
    {f : Function} (hf : f ∈ p.functions) : (f.reading p).found <:+: t.diagnostics.toList := by
  obtain ⟨before, after, hsplit⟩ := List.append_of_mem hf
  refine ⟨p.redeclared ++ before.flatMap fun g => (g.reading p).found,
    (after.flatMap fun g => (g.reading p).found) ++ p.entryReports c, ?_⟩
  rw [h.found, p.found_reading, hsplit]
  simp

/-- What is found in the body of a function and what is annotated there depend on the
function and on the signatures that it sees, and on nothing else in the program. -/
theorem functions_are_checked_independently (p p' : Program) (c c' : Config) (f : Function)
    (hscopes : p.scopeIds.Nodup) (hparts : p.partIds.Nodup)
    (hscopes' : p'.scopeIds.Nodup) (hparts' : p'.partIds.Nodup)
    (hf : f ∈ p.functions) (hf' : f ∈ p'.functions) (hsees : f.SeesSame p p') :
    ∃ t t', analyse p c = .ok t ∧ analyse p' c' = .ok t' ∧
      (∃ found, (∃ u, p.watch f {} = .ok found u) ∧ (∃ u, p'.watch f {} = .ok found u) ∧
        found <:+: t.diagnostics.toList ∧ found <:+: t'.diagnostics.toList) ∧
      ∀ part ∈ f.parts,
        t.annotations.type? part.id = t'.annotations.type? part.id ∧
          t.annotations.lvalue? part.id = t'.annotations.lvalue? part.id := by
  obtain ⟨t, ht, houtcome⟩ := Program.exists_outcome c hscopes hparts
  obtain ⟨t', ht', houtcome'⟩ := Program.exists_outcome c' hscopes' hparts'
  have hreading := hsees.reading_eq
  have hsame (part : Part) (hpart : part ∈ f.parts) (fact : Fact) (hfact : fact.field ≠ .scope) :
      t.annotations.Holds part.id fact ↔ t'.annotations.Holds part.id fact := by
    rw [houtcome.holds_part hparts hf hpart hfact, houtcome'.holds_part hparts' hf' hpart hfact,
      hreading]
  refine ⟨t, t', ht, ht', ⟨(f.reading p).found, ?_, ?_, ?_, ?_⟩, fun part hpart => ⟨?_, ?_⟩⟩
  · exact watch_eq_ok hscopes hparts hf
  · rw [hreading]
    exact watch_eq_ok hscopes' hparts' hf'
  · exact found_reading_infix houtcome hf
  · rw [hreading]
    exact found_reading_infix houtcome' hf'
  · exact Option.ext fun type => hsame part hpart (.type type) (by simp [Fact.field])
  · exact Option.ext fun lvalue => hsame part hpart (.lvalue lvalue) (by simp [Fact.field])

/-- The other program starts with the function that `halving` starts at, and its `half` has
another parameter and an empty body. -/
theorem halving_start_sees_only_signature :
    let start : Function := halving.functions.getLast (by decide)
    let half : Function := { halving.functions.head (by decide) with
      params := [⟨⟨⟨700, halving.loc⟩, "z"⟩, .basic .float⟩]
      body := [] }
    let other : Program := { halving with functions := [start, half] }
    ∃ t t', analyse halving {} = .ok t ∧ analyse other ⟨"start"⟩ = .ok t' ∧
      ∀ part ∈ start.parts, t.annotations.type? part.id = t'.annotations.type? part.id := by
  intro start half other
  have hsees : start.SeesSame halving other := by
    unfold Function.SeesSame
    decide
  obtain ⟨t, t', ht, ht', -, hparts⟩ := functions_are_checked_independently halving other {}
    ⟨"start"⟩ start (by decide) (by decide) (by decide) (by decide)
    (List.getLast_mem _) List.mem_cons_self hsees
  exact ⟨t, t', ht, ht', fun part hpart => (hparts part hpart).1⟩

end Asl
