import Asl.Proofs.Sharing

/-!
# What is recorded stays

Scopes, declarations, facts and complaints are only ever added to. Each operation keeps what
it finds, and so does a whole pass, also one that ends in a fault, since it writes by the
same few operations. So in any session the tables at a later point say all that they said
at an earlier one, inside the brackets of the session as well as outside.
-/

namespace Asl

open Pass (Keeps)
open Tables (Adds Overlooks)

/-- Scopes keep their numbers and names, and names their meanings in each scope. -/
structure Symbols.Retains (s u : Symbols) : Prop where
  name : ∀ id name, s.scopeName? id = some name → u.scopeName? id = some name
  binding : ∀ id x b, s.findIn? id x = some b → u.findIn? id x = some b

/-- A fact that holds goes on holding. -/
def Tables.Remembers (t u : Tables) : Prop :=
  ∀ node fact, t.annotations.Holds node fact → u.annotations.Holds node fact

/-- All that the earlier tables record is recorded in the later ones. -/
structure Tables.Retains (t u : Tables) : Prop where
  symbols : t.symbols.Retains u.symbols
  facts : Tables.Remembers t u
  found : Adds t u

open Tables (Remembers)

namespace Symbols.Retains

variable {s u v : Symbols}

theorem refl (s : Symbols) : s.Retains s := ⟨fun _ _ h => h, fun _ _ _ h => h⟩

theorem trans (h : s.Retains u) (h' : u.Retains v) : s.Retains v := by
  constructor
  · intro id name hname
    exact h'.name id name (h.name id name hname)
  · intro id x b hb
    exact h'.binding id x b (h.binding id x b hb)

/-- The scopes that there are stay as they are. -/
theorem of_old (h : ∀ id < s.scopes.size, u.scopes[id]? = s.scopes[id]?) : s.Retains u := by
  have hold {id : ScopeId} {scope : Scope} (hscope : s.scopes[id]? = some scope) :
      u.scopes[id]? = some scope :=
    (h id (Array.getElem?_eq_some_iff.mp hscope).1).trans hscope
  constructor
  · intro id name hname
    obtain ⟨scope, hscope, rfl⟩ := Option.map_eq_some_iff.mp hname
    simp [scopeName?, hold hscope]
  · intro id x b hb
    obtain ⟨scope, hscope, hx⟩ := Option.bind_eq_some_iff.mp hb
    simp [findIn?, hold hscope, hx]

theorem newScope (s : Symbols) (name : String) : s.Retains (s.newScope name) := by
  refine of_old fun id hid => ?_
  simp [Symbols.newScope, Array.getElem?_push, Nat.ne_of_lt hid]

/-- The first declaration of a name in a scope outlasts the others. -/
theorem modify_declare (s : Symbols) (id : ScopeId) (x : String) (b : Binding) :
    s.Retains { s with scopes := s.scopes.modify id (·.declare x b) } := by
  constructor
  · intro other name hname
    obtain ⟨scope, hscope, rfl⟩ := Option.map_eq_some_iff.mp hname
    simp only [scopeName?, Array.getElem?_modify, hscope]
    split
    · simp only [Option.map_some, Scope.declare, Option.some.injEq]
      split <;> rfl
    · rfl
  · intro other y c hc
    obtain ⟨scope, hscope, hy⟩ := Option.bind_eq_some_iff.mp hc
    simp only [findIn?, Array.getElem?_modify, hscope]
    split
    · simp only [Option.map_some, Option.bind_some, Scope.find?_declare]
      split
      next hxy =>
        subst hxy
        simp [hy]
      next => exact hy
    · exact hy

end Symbols.Retains

namespace Tables.Retains

variable {t u v : Tables}

theorem refl (t : Tables) : t.Retains t := ⟨.refl _, fun _ _ h => h, List.prefix_rfl⟩

theorem trans (h : t.Retains u) (h' : u.Retains v) : t.Retains v :=
  ⟨h.symbols.trans h'.symbols, fun node fact hfact => h'.facts node fact (h.facts node fact hfact),
    h.found.trans h'.found⟩

/-- Only the symbols change. -/
theorem of_symbols {s : Symbols} (h : t.symbols.Retains s) : t.Retains { t with symbols := s } :=
  ⟨h, fun _ _ hfact => hfact, List.prefix_rfl⟩

end Tables.Retains

theorem remembers_overlooks : Overlooks anyNode Remembers where
  refl _ _ _ h := h
  trans h h' node fact hfact := h' node fact (h node fact hfact)
  put node _ fact t := by
    intro other found hfound
    cases hknown : t.annotations.knows (fact.key node) with
    | true => simpa [Pass.after, Pass.put, Annotations.put_of_knows hknown] using hfound
    | false =>
        obtain ⟨b, hput, hb⟩ := Annotations.put_of_not_knows hknown
        simpa [Pass.after, Pass.put, hput] using (hb other found).mpr (.inl hfound)
  report _ _ _ _ h := h
  symbols _ _ _ _ h := h

theorem newScope_retains (name : String) : Keeps Tables.Retains (Pass.newScope name) :=
  fun t => .of_symbols (.newScope t.symbols name)

theorem setSignature_retains (signature : Option Ty) :
    Keeps Tables.Retains (Pass.setSignature signature) :=
  fun _ => .of_symbols (.of_old fun _ _ => rfl)

theorem report_retains (found : List Diagnostic) : Keeps Tables.Retains (Pass.report found) :=
  fun t => ⟨.refl _, remembers_overlooks.report found t, adds_overlooks.report found t⟩

theorem declare_retains (x : String) (b : Binding) :
    Keeps Tables.Retains (Pass.declare x b) := by
  intro t
  cases hinnermost : t.symbols.innermost? with
  | none =>
      rw [Pass.after_of_error (Pass.declare_of_none hinnermost x b)]
      exact .refl t
  | some id =>
      rw [Pass.after_of_ok (Pass.declare_of_some hinnermost x b)]
      exact .of_symbols (.modify_declare t.symbols id x b)

theorem put_retains (node : NodeId) (fact : Fact) : Keeps Tables.Retains (Pass.put node fact) := by
  intro t
  refine ⟨?_, remembers_overlooks.put node trivial fact t, adds_overlooks.put node trivial fact t⟩
  rw [Pass.symbols_after_put]
  exact .refl _

theorem enter_retains (scope : ScopeId) : Keeps Tables.Retains (Pass.enter scope) := by
  intro t
  by_cases hscope : scope < t.symbols.scopes.size
  · rw [Pass.after_of_ok (Pass.enter_of_lt hscope)]
    exact .of_symbols (.of_old fun _ _ => rfl)
  · rw [Pass.after_of_error (Pass.enter_of_not_lt hscope)]
    exact .refl t

theorem leave_retains (t : Tables) : t.Retains t.leave := .of_symbols (.of_old fun _ _ => rfl)

theorem registerProgram_retains (p : Program) : Keeps Tables.Retains (registerProgram p) := fun t =>
  ⟨.of_old (registerProgram_extends p t).old,
    registerProgram_keeps remembers_overlooks p (fun _ _ => trivial) t,
    registerProgram_keeps adds_overlooks p (fun _ _ => trivial) t⟩

theorem checkProgram_retains (c : Config) (p : Program) :
    Keeps Tables.Retains (checkProgram c p) := by
  intro t
  have hscopes := (checkProgram_sameScopes c p t).scopes
  refine ⟨.of_old fun id _ => by rw [hscopes], ?_, ?_⟩
  · exact checkProgram_keeps remembers_overlooks c p (fun _ _ => trivial) t
  · exact checkProgram_keeps adds_overlooks c p (fun _ _ => trivial) t

theorem Pass.exists_of_bind_eq_ok {p : Pass α} {f : α → Pass β} {t u : Tables} {b : β}
    (h : (p >>= f) t = .ok b u) : ∃ a v, p t = .ok a v ∧ f a v = .ok b u := by
  simp only [Bind.bind, EStateM.bind] at h
  cases hp : p t with
  | ok a v => exact ⟨a, v, rfl, by simpa [hp] using h⟩
  | error fault v => simp [hp] at h

/-- The difference of two counts that checking gives is the number of complaints added. -/
theorem checkProgram_count {c : Config} {p : Program} {t u : Tables} {n : Nat}
    (h : checkProgram c p t = .ok n u) :
    ∃ found, u.diagnostics.toList = t.diagnostics.toList ++ found ∧ found.length = n := by
  obtain ⟨found, hfound⟩ : Adds t u := Pass.after_of_ok h ▸ (checkProgram_retains c p t).found
  have hn : n = u.diagnostics.size - t.diagnostics.size := by
    obtain ⟨_, v, hv, h⟩ := Pass.exists_of_bind_eq_ok h
    cases hv
    obtain ⟨scope, v, -, h⟩ := Pass.exists_of_bind_eq_ok h
    obtain ⟨-, v, -, h⟩ := Pass.exists_of_bind_eq_ok h
    cases h
    rfl
  refine ⟨found, hfound.symm, ?_⟩
  rw [hn, Diagnostics.size_eq_length, Diagnostics.size_eq_length, ← hfound, List.length_append]
  exact (Nat.add_sub_cancel_left _ _).symm

/-! ## Sessions -/

namespace Session

mutual
/-- The tables as each step leaves them, the steps of a nest before the nest itself. -/
def Outcome.seen : Outcome → List Tables
  | .single _ t => [t]
  | .nested body t => allSeen body ++ [t]
def allSeen : List Outcome → List Tables
  | [] => []
  | outcome :: rest => outcome.seen ++ allSeen rest
end

/-- From `t` over the tables `us` to `u` nothing is lost between any two points. -/
structure Course (t : Tables) (us : List Tables) (u : Tables) : Prop where
  grows : (t :: us).Pairwise Tables.Retains
  last : ∀ v ∈ t :: us, v.Retains u

namespace Course

variable {t u v : Tables} {us vs : List Tables}

theorem nil (t : Tables) : Course t [] t := ⟨by simp, by simpa using .refl t⟩

theorem single (h : t.Retains u) : Course t [u] u := ⟨by simpa using h, by simpa using ⟨h, .refl u⟩⟩

/-- Tables that come before are not among those that are seen. -/
theorem from_earlier (h : t.Retains u) (hu : Course u us v) : Course t us v := by
  obtain ⟨hgrows, hlast⟩ := hu
  rw [List.pairwise_cons] at hgrows
  rw [List.forall_mem_cons] at hlast
  obtain ⟨hfirst, hrest⟩ := hgrows
  constructor
  · exact List.pairwise_cons.mpr ⟨fun w hw => h.trans (hfirst w hw), hrest⟩
  · exact List.forall_mem_cons.mpr ⟨h.trans hlast.1, hlast.2⟩

theorem append (h : Course t us u) (hu : Course u vs v) : Course t (us ++ vs) v := by
  have hlast := hu.last u List.mem_cons_self
  obtain ⟨hfirst, hrest⟩ := List.pairwise_cons.mp hu.grows
  constructor
  · rw [← List.cons_append, List.pairwise_append]
    exact ⟨h.grows, hrest, fun w hw x hx => (h.last w hw).trans (hfirst x hx)⟩
  · rw [← List.cons_append, List.forall_mem_append]
    exact ⟨fun w hw => (h.last w hw).trans hlast, fun w hw => hu.last w (List.mem_cons_of_mem u hw)⟩

theorem of_pass {pass : Pass α} (h : Keeps Tables.Retains pass) {answer : α → Answer}
    (t : Tables) :
    Course t (Outcome.ofPass pass answer t).seen (Outcome.ofPass pass answer t).tables := by
  have hseen : (Outcome.ofPass pass answer t).seen = [pass.after t] := by
    cases hrun : pass t <;> simp [Outcome.ofPass, Outcome.seen, Pass.after, hrun]
  rw [hseen, tables_ofPass]
  exact single (h t)

end Course

mutual
theorem Step.course : ∀ (step : Step) (t : Tables), Course t (step.run t).seen (step.run t).tables
  | .look, t => .single (.refl t)
  | .newScope name, t => by
      rw [Step.run]
      exact .of_pass (newScope_retains name) t
  | .enter scope, t => by
      rw [Step.run]
      exact .of_pass (enter_retains scope) t
  | .leave, t => .single (leave_retains t)
  | .declare x b, t => by
      rw [Step.run]
      exact .of_pass (declare_retains x b) t
  | .setSignature signature, t => by
      rw [Step.run]
      exact .of_pass (setSignature_retains signature) t
  | .put node fact, t => by
      rw [Step.run]
      exact .of_pass (put_retains node fact) t
  | .record d, t => by
      rw [Step.run]
      exact .of_pass (report_retains [d]) t
  | .register p, t => by
      rw [Step.run]
      exact .of_pass (registerProgram_retains p) t
  | .check c p, t => by
      rw [Step.run]
      exact .of_pass (checkProgram_retains c p) t
  | .within scope body stop, t => by
      rw [Step.run]
      have henter := enter_retains scope t
      by_cases hscope : scope < t.symbols.scopes.size
      · rw [Pass.after_of_ok (Pass.enter_of_lt hscope)] at henter
        rw [Pass.enter_of_lt hscope]
        have hbody := (course_runSteps stop body _).from_earlier henter
        exact hbody.append (.single (leave_retains _))
      · rw [Pass.enter_of_not_lt hscope]
        exact .single (.refl t)
theorem course_runSteps (stop : Bool) :
    ∀ (steps : List Step) (t : Tables),
      Course t (allSeen (runSteps stop steps t).1) (runSteps stop steps t).2
  | [], t => .nil t
  | step :: rest, t => by
      have hstep := step.course t
      rw [runSteps]
      split
      · simpa [allSeen] using hstep
      · exact hstep.append (course_runSteps stop rest _)
end

end Session

/-- In a session of any operations and passes, nested in brackets or not and ending in faults or
not, what is recorded at one point is recorded at every later point. And a check that comes to
its end tells how many complaints it has added. -/
theorem nothing_recorded_is_lost :
    (∀ (stop : Bool) (steps : List Session.Step) (t : Tables),
        (t :: Session.allSeen (Session.runSteps stop steps t).1).Pairwise Tables.Retains) ∧
      ∀ (c : Config) (p : Program) (t u : Tables) (n : Nat), checkProgram c p t = .ok n u →
        ∃ found, u.diagnostics.toList = t.diagnostics.toList ++ found ∧ found.length = n := by
  refine ⟨fun stop steps t => ?_, fun c p t u n h => checkProgram_count h⟩
  exact (Session.course_runSteps stop steps t).grows

/-- A declaration is repeated within a bracket, a fact is refused there, and the second check
faults on what the first has annotated. -/
theorem halving_session_loses_nothing :
    let steps : List Session.Step :=
      [.newScope "old", .register halving,
        .within 0 [.declare "x" ⟨.int, .variable⟩, .put 0 (.lvalue true),
          .declare "x" ⟨.char, .parameter⟩, .put 0 (.lvalue false)] false,
        .check ⟨"start"⟩ halving, .check {} halving, .leave]
    let registered := (registerProgram halving).after {}
    (({} : Tables) :: Session.allSeen (Session.runSteps false steps {}).1).Pairwise
        Tables.Retains ∧
      ∃ u found, checkProgram ⟨"start"⟩ halving registered = .ok 1 u ∧
        u.diagnostics.toList = registered.diagnostics.toList ++ found ∧ found.length = 1 := by
  intro steps registered
  obtain ⟨hsessions, hchecks⟩ := nothing_recorded_is_lost
  have hcheck : (checkProgram ⟨"start"⟩ halving).result registered = .ok 1 := by
    decide +kernel
  have hrun := Pass.eq_ok_of_result hcheck
  obtain ⟨found, hfound, hlength⟩ := hchecks _ _ _ _ _ hrun
  exact ⟨hsessions false steps {}, _, found, hrun, hfound, hlength⟩

end Asl
