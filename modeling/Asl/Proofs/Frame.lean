import Asl.Proofs.Keeps
import Asl.Session

/-!
# Which scopes there are and which are active

Checking changes neither the scopes nor which of them are active. Registration only makes
new scopes and only declares into those. A bracket around a pass takes off the stack what
it put there, provided the pass inside leaves the stack as it found it; so no nesting of
brackets, however it ends, changes the stack.
-/

namespace Asl

open Pass (Keeps)
open Tables (Tolerates)

/-- Facts about any node will do. -/
abbrev anyNode : NodeId → Prop := fun _ => True

/-- The same scopes, and the same of them active. -/
structure Tables.SameScopes (t u : Tables) : Prop where
  stack : u.symbols.stack = t.symbols.stack
  scopes : u.symbols.scopes = t.symbols.scopes

open Tables (SameScopes)

theorem sameScopes_tolerates : Tolerates anyNode SameScopes where
  refl _ := ⟨rfl, rfl⟩
  trans := fun h h' => ⟨h'.stack.trans h.stack, h'.scopes.trans h.scopes⟩
  put node _ fact t := by
    have hsymbols := Pass.symbols_after_put node fact t
    exact ⟨congrArg Symbols.stack hsymbols, congrArg Symbols.scopes hsymbols⟩
  report _ _ := ⟨rfl, rfl⟩

theorem within_sameScopes (scope : ScopeId) {body : Pass α} (h : Keeps SameScopes body) :
    Keeps SameScopes (Pass.within scope body) := by
  intro t
  rw [Pass.after_within]
  split
  · obtain ⟨hstack, hscopes⟩ := h { t with symbols.stack := scope :: t.symbols.stack }
    refine ⟨?_, hscopes⟩
    simp [Tables.leave, Symbols.leave, hstack]
  · exact sameScopes_tolerates.refl t

theorem checkFunction_sameScopes (f : Function) : Keeps SameScopes (checkFunction f) := by
  have hbody (scope : ScopeId) : Keeps SameScopes
      ((Pass.within scope (checkBlock f.body)).ensuring (·.withSignature none)) := by
    intro t
    rw [Pass.after_ensuring]
    have hblock := checkBlock_keeps sameScopes_tolerates f.body fun _ _ => trivial
    obtain ⟨hstack, hscopes⟩ := within_sameScopes scope hblock t
    exact ⟨hstack, hscopes⟩
  have hsignature : Keeps SameScopes (Pass.setSignature (some f.signature)) :=
    fun _ => ⟨rfl, rfl⟩
  apply Keeps.bind sameScopes_tolerates hsignature
  intro _
  exact .bind sameScopes_tolerates (.scopeOf sameScopes_tolerates f.id) hbody

theorem checkFunctions_sameScopes (fs : List Function) : Keeps SameScopes (checkFunctions fs) := by
  induction fs with
  | nil => exact .pure sameScopes_tolerates ()
  | cons f rest ih =>
      rw [checkFunctions]
      exact .bind sameScopes_tolerates (checkFunction_sameScopes f) fun _ => ih

theorem checkProgram_sameScopes (c : Config) (p : Program) :
    Keeps SameScopes (checkProgram c p) := by
  have h := sameScopes_tolerates
  refine .get_bind fun t => .bind h (.scopeOf h p.id) fun scope => ?_
  refine .bind h (within_sameScopes scope ?_) fun _ => .get_bind fun u => .pure h _
  exact .bind h (checkFunctions_sameScopes p.functions) fun _ =>
    .get_bind fun u => h.report _

/-- The stack is the same, and the scopes below a number are as they were. -/
structure Tables.Extends (base : ScopeId) (t u : Tables) : Prop where
  stack : u.symbols.stack = t.symbols.stack
  size : t.symbols.scopes.size ≤ u.symbols.scopes.size
  old : ∀ id < base, u.symbols.scopes[id]? = t.symbols.scopes[id]?

/-- Declarations go to a scope of number `base` or above. -/
structure Tables.Above (base : ScopeId) (t : Tables) : Prop where
  size : base ≤ t.symbols.scopes.size
  innermost : ∀ id, t.symbols.innermost? = some id → base ≤ id

namespace Tables

variable {base : ScopeId} {t u v : Tables}

theorem Extends.refl (base : ScopeId) (t : Tables) : Extends base t t :=
  ⟨rfl, Nat.le_refl _, fun _ _ => rfl⟩

theorem Extends.trans (h : Extends base t u) (h' : Extends base u v) : Extends base t v :=
  ⟨h'.stack.trans h.stack, Nat.le_trans h.size h'.size,
    fun id hid => (h'.old id hid).trans (h.old id hid)⟩

theorem Extends.of_symbols_eq (h : u.symbols = t.symbols) : Extends base t u :=
  ⟨congrArg _ h, Nat.le_of_eq (by rw [h]), fun _ _ => by rw [h]⟩

theorem Extends.above (h : Extends base t u) (ht : Above base t) : Above base u := by
  refine ⟨Nat.le_trans ht.size h.size, fun id hid => ht.innermost id ?_⟩
  rwa [Symbols.innermost?, h.stack] at hid

/-- What registration does once it declares into a new scope. -/
def Grows (base : ScopeId) (t u : Tables) : Prop := Above base t → Extends base t u

theorem grows_tolerates (base : ScopeId) : Tolerates anyNode (Grows base) where
  refl t _ := .refl base t
  trans h h' := fun ht => (h ht).trans (h' ((h ht).above ht))
  put node _ fact t _ := .of_symbols_eq (Pass.symbols_after_put node fact t)
  report _ _ _ := .of_symbols_eq rfl

end Tables

open Tables (Extends Above Grows grows_tolerates)

section

variable {base : ScopeId}

theorem declare_grows (x : String) (b : Binding) : Keeps (Grows base) (Pass.declare x b) := by
  intro t ht
  cases hinnermost : t.symbols.innermost? with
  | none =>
      rw [Pass.after_of_error (Pass.declare_of_none hinnermost x b)]
      exact .refl base t
  | some id =>
      rw [Pass.after_of_ok (Pass.declare_of_some hinnermost x b)]
      have hbase := ht.innermost id hinnermost
      refine ⟨rfl, by simp, fun other hother => ?_⟩
      have hne : id ≠ other := Nat.ne_of_gt (Nat.lt_of_lt_of_le hother hbase)
      simp [Array.getElem?_modify, hne]

theorem registerName_grows (x : Ident) (b : Binding) :
    Keeps (Grows base) (registerName x b) := by
  refine .get_bind fun t => ?_
  split
  · exact (grows_tolerates base).report _
  · exact declare_grows x.name b

theorem registerNames_grows (ds : List (Ident × Binding)) :
    Keeps (Grows base) (registerNames ds) := by
  induction ds with
  | nil => exact .pure (grows_tolerates base) ()
  | cons d rest ih =>
      obtain ⟨x, b⟩ := d
      rw [registerNames]
      exact .bind (grows_tolerates base) (registerName_grows x b) fun _ => ih

/-- A pass that makes a scope for a node and works in it leaves the other scopes alone. -/
theorem opening_extends {name : String} {node : NodeId} {body : Pass Unit}
    (hbody : Keeps (Grows base) body) {t : Tables} (hbase : base ≤ t.symbols.scopes.size) :
    Extends base t
      (Pass.after (do
        let scope ← Pass.newScope name
        Pass.put node (.scope scope)
        Pass.within scope body) t) := by
  let made : Tables := { t with symbols := t.symbols.newScope name }
  have hmade : Extends base t made := by
    refine ⟨rfl, by simp [made, Symbols.newScope], fun id hid => ?_⟩
    have hne : id ≠ t.symbols.scopes.size := Nat.ne_of_lt (Nat.lt_of_lt_of_le hid hbase)
    simp [made, Symbols.newScope, Array.getElem?_push, hne]
  let scope := t.symbols.scopes.size
  have hput : Extends base made ((Pass.put node (.scope scope)).after made) :=
    .of_symbols_eq (Pass.symbols_after_put node _ made)
  have hwithin (u : Tables) : Extends base u ((Pass.within scope body).after u) := by
    rw [Pass.after_within]
    split
    next hscope =>
      let entered : Tables := { u with symbols.stack := scope :: u.symbols.stack }
      have habove : Above base entered := by
        refine ⟨Nat.le_trans hbase (Nat.le_of_lt hscope), fun id hid => ?_⟩
        obtain rfl : scope = id := by simpa [entered, Symbols.innermost?] using hid
        exact hbase
      obtain ⟨hstack, hsize, hold⟩ := hbody entered habove
      refine ⟨?_, hsize, hold⟩
      simp [Tables.leave, Symbols.leave, entered, hstack]
    next => exact .refl base u
  -- The number of the new scope is known only at the run, hence no `Keeps` for the whole.
  have hrun : Pass.after (do
        let scope ← Pass.newScope name
        Pass.put node (.scope scope)
        Pass.within scope body) t =
      (do Pass.put node (.scope scope); Pass.within scope body : Pass Unit).after made := rfl
  rw [hrun]
  apply hmade.trans
  cases hfact : Pass.put node (.scope scope) made with
  | ok _ u =>
      rw [Pass.after_of_eq (Pass.bind_of_ok hfact)]
      exact (Pass.after_of_ok hfact ▸ hput).trans (hwithin u)
  | error fault u =>
      rw [Pass.after_of_error (Pass.bind_of_error hfact)]
      exact Pass.after_of_error hfact ▸ hput

theorem registerFunction_grows (f : Function) : Keeps (Grows base) (registerFunction f) := by
  refine .bind (grows_tolerates base) (registerName_grows f.name _) fun _ t ht => ?_
  exact opening_extends (registerNames_grows f.decls) ht.size

theorem registerFunctions_grows (fs : List Function) :
    Keeps (Grows base) (registerFunctions fs) := by
  induction fs with
  | nil => exact .pure (grows_tolerates base) ()
  | cons f rest ih =>
      rw [registerFunctions]
      exact .bind (grows_tolerates base) (registerFunction_grows f) fun _ => ih

end

theorem registerProgram_extends (p : Program) (t : Tables) :
    Extends t.symbols.scopes.size t ((registerProgram p).after t) :=
  opening_extends (registerFunctions_grows p.functions) (Nat.le_refl _)

theorem Tables.Extends.isPrefix {t u : Tables} (h : Extends t.symbols.scopes.size t u) :
    t.symbols.scopes.toList <+: u.symbols.scopes.toList := by
  rw [List.prefix_iff_getElem?]
  intro id hid
  have hsize : id < t.symbols.scopes.size := by simpa using hid
  have hold := h.old id hsize
  simpa [hsize] using hold

/-- Passes whose steps enter and leave scopes by brackets only, nested and in sequence, to
the end, up to a fault or past one that is caught. -/
inductive Pass.Guarded : {α : Type} → Pass α → Prop where
  | pure {α : Type} (a : α) : Guarded (Pure.pure a : Pass α)
  | fault {α : Type} (fault : Fault) : Guarded (throw fault : Pass α)
  | look : Guarded (get : Pass Tables)
  | newScope (name : String) : Guarded (Pass.newScope name)
  | declare (x : String) (b : Binding) : Guarded (Pass.declare x b)
  | setSignature (signature : Option Ty) : Guarded (Pass.setSignature signature)
  | put (node : NodeId) (fact : Fact) : Guarded (Pass.put node fact)
  | report (found : List Diagnostic) : Guarded (Pass.report found)
  | register (p : Program) : Guarded (registerProgram p)
  | check (c : Config) (p : Program) : Guarded (checkProgram c p)
  | bind {α β : Type} {p : Pass α} {f : α → Pass β} :
      Guarded p → (∀ a, Guarded (f a)) → Guarded (p >>= f)
  | recover {α : Type} {p : Pass α} {handle : Fault → Pass α} :
      Guarded p → (∀ fault, Guarded (handle fault)) → Guarded (tryCatch p handle)
  | within {α : Type} {scope : ScopeId} {body : Pass α} :
      Guarded body → Guarded (Pass.within scope body)

def Tables.SameStack (t u : Tables) : Prop := u.symbols.stack = t.symbols.stack

open Tables (SameStack)

theorem sameStack_tolerates : Tolerates anyNode SameStack where
  refl _ := rfl
  trans h h' := h'.trans h
  put node _ fact t := congrArg Symbols.stack (Pass.symbols_after_put node fact t)
  report _ _ := rfl

theorem Pass.Guarded.sameStack {p : Pass α} (h : p.Guarded) : Keeps SameStack p := by
  induction h with
  | pure a => exact .pure sameStack_tolerates a
  | fault _ | look | newScope _ | setSignature _ => exact fun _ => rfl
  | declare x b =>
      intro t
      cases hinnermost : t.symbols.innermost? with
      | none =>
          rw [after_of_error (declare_of_none hinnermost x b)]
          rfl
      | some id =>
          rw [after_of_ok (declare_of_some hinnermost x b)]
          rfl
  | put node fact => exact sameStack_tolerates.put node trivial fact
  | report found => exact sameStack_tolerates.report found
  | register p => exact fun t => (registerProgram_extends p t).stack
  | check c p => exact fun t => (checkProgram_sameScopes c p t).stack
  | bind _ _ hp hf => exact .bind sameStack_tolerates hp hf
  | @recover _ p handle _ _ hp hhandle =>
      intro t
      have hfirst := hp t
      cases hrun : p t with
      | ok a u =>
          have hcatch : tryCatch p handle t = .ok a u := by
            change EStateM.tryCatch p handle t = .ok a u
            delta EStateM.tryCatch
            simp only [hrun]
          rw [after_of_ok hcatch]
          exact after_of_ok hrun ▸ hfirst
      | error fault u =>
          have hcatch : tryCatch p handle t = handle fault u := by
            change EStateM.tryCatch p handle t = handle fault u
            delta EStateM.tryCatch
            simp only [hrun]
            rfl
          have hafter : (tryCatch p handle).after t = (handle fault).after u := by
            rw [after, after, hcatch]
          rw [hafter]
          exact sameStack_tolerates.trans (after_of_error hrun ▸ hfirst) (hhandle fault u)
  | @within _ scope body _ hbody =>
      intro t
      rw [after_within]
      split
      · have hstack := hbody { t with symbols.stack := scope :: t.symbols.stack }
        exact congrArg List.tail hstack
      · rfl

namespace Session

mutual
/-- No scope is entered or left but by a bracket. -/
def Step.Guarded : Step → Prop
  | .enter _ | .leave => False
  | .within _ body _ => AllGuarded body
  | _ => True
def AllGuarded : List Step → Prop
  | [] => True
  | step :: rest => step.Guarded ∧ AllGuarded rest
end

section

variable {pass : Pass α} {answer : α → Answer} {t u : Tables}

theorem ofPass_of_ok {a : α} (h : pass t = .ok a u) :
    Outcome.ofPass pass answer t = .single (answer a) u := by
  simp [Outcome.ofPass, h]

theorem ofPass_of_error {fault : Fault} (h : pass t = .error fault u) :
    Outcome.ofPass pass answer t = .single (.fault fault) u := by
  simp [Outcome.ofPass, h]

end

theorem tables_ofPass (pass : Pass α) (answer : α → Answer) (t : Tables) :
    (Outcome.ofPass pass answer t).tables = pass.after t := by
  cases hrun : pass t <;> simp [Outcome.ofPass, Outcome.tables, Pass.after, hrun]

theorem runSteps_cons (stop : Bool) (step : Step) (rest : List Step) (t : Tables) :
    (runSteps stop (step :: rest) t).2 =
      if stop && (step.run t).isFault then (step.run t).tables
      else (runSteps stop rest (step.run t).tables).2 := by
  rw [runSteps]
  split <;> rfl

mutual
theorem Step.sameStack_of_guarded :
    ∀ step : Step, step.Guarded → ∀ t, SameStack t (step.run t).tables
  | .look, _, t => rfl
  | .newScope name, _, t => by
      rw [Step.run, tables_ofPass]
      exact (Pass.Guarded.newScope name).sameStack t
  | .enter _, h, _ | .leave, h, _ => h.elim
  | .declare x b, _, t => by
      rw [Step.run, tables_ofPass]
      exact (Pass.Guarded.declare x b).sameStack t
  | .setSignature signature, _, t => by
      rw [Step.run, tables_ofPass]
      exact (Pass.Guarded.setSignature signature).sameStack t
  | .put node fact, _, t => by
      rw [Step.run, tables_ofPass]
      exact (Pass.Guarded.put node fact).sameStack t
  | .record d, _, t => by
      rw [Step.run, tables_ofPass]
      exact (Pass.Guarded.report [d]).sameStack t
  | .register p, _, t => by
      rw [Step.run, tables_ofPass]
      exact (Pass.Guarded.register p).sameStack t
  | .check c p, _, t => by
      rw [Step.run, tables_ofPass]
      exact (Pass.Guarded.check c p).sameStack t
  | .within scope body stop, h, t => by
      rw [Step.run]
      by_cases hscope : scope < t.symbols.scopes.size
      · have hbody := sameStack_of_allGuarded body h stop
          { t with symbols.stack := scope :: t.symbols.stack }
        rw [Pass.enter_of_lt hscope]
        exact congrArg List.tail hbody
      · rw [Pass.enter_of_not_lt hscope]
        rfl
theorem sameStack_of_allGuarded :
    ∀ steps : List Step, AllGuarded steps → ∀ stop t, SameStack t (runSteps stop steps t).2
  | [], _, _, t => rfl
  | step :: rest, h, stop, t => by
      have hstep := step.sameStack_of_guarded h.1 t
      rw [runSteps_cons]
      split
      · exact hstep
      · exact sameStack_tolerates.trans hstep (sameStack_of_allGuarded rest h.2 stop _)
end

end Session

/-- Whatever the tables, and whether it ends in a fault or not, a pass leaves the same
scopes active: registration appends scopes to those there are, checking changes none, and
brackets nested in any way undo what they did. -/
theorem scopes_survive_every_pass :
    (∀ (p : Program) (t : Tables),
        ((registerProgram p).after t).symbols.stack = t.symbols.stack ∧
          t.symbols.scopes.toList <+: ((registerProgram p).after t).symbols.scopes.toList) ∧
      (∀ (c : Config) (p : Program) (t : Tables),
        ((checkProgram c p).after t).symbols.stack = t.symbols.stack ∧
          ((checkProgram c p).after t).symbols.scopes = t.symbols.scopes) ∧
      (∀ {α : Type} (pass : Pass α), pass.Guarded →
        ∀ t, (pass.after t).symbols.stack = t.symbols.stack) ∧
      ∀ (stop : Bool) (steps : List Session.Step), Session.AllGuarded steps →
        ∀ t, (Session.runSteps stop steps t).2.symbols.stack = t.symbols.stack := by
  refine ⟨fun p t => ?_, fun c p t => ?_, fun pass h => h.sameStack, fun stop steps h => ?_⟩
  · have h := registerProgram_extends p t
    exact ⟨h.stack, h.isPrefix⟩
  · have h := checkProgram_sameScopes c p t
    exact ⟨h.stack, h.scopes⟩
  · exact Session.sameStack_of_allGuarded steps h stop

/-- The inner bracket cannot be entered and the outer one stops at a second write. -/
theorem nested_brackets_leave_stack :
    let t : Tables := { symbols := { scopes := #[⟨"outer", []⟩], stack := [0] } }
    let write : Session.Step := .put 3 (.lvalue true)
    let steps : List Session.Step := [.within 0 [write, .within 7 [.look] false, write, .look] true]
    let pass : Pass Unit := Pass.within 0 (Pass.within 7 (pure ()))
    (Session.AllGuarded steps ∧ (Session.runSteps false steps t).2.symbols.stack = [0]) ∧
      pass.Guarded ∧ (pass.after t).symbols.stack = [0] := by
  intro t write steps pass
  have hsteps : Session.AllGuarded steps := by
    simp [steps, write, Session.AllGuarded, Session.Step.Guarded]
  have hpass : pass.Guarded := .within (.within (.pure ()))
  obtain ⟨-, -, hpasses, hsessions⟩ := scopes_survive_every_pass
  exact ⟨⟨hsteps, hsessions false steps hsteps t⟩, hpass, hpasses pass hpass t⟩

end Asl
