import Asl.Proofs.Permanence

/-!
# The history of a symbol table

What the operations on symbols come to is told here without a table: how many scopes have been
made, which of them are active, and every declaration in the order they were made. A name means
its earliest declaration in the innermost active scope that has one. The table follows the
history at every point of a session, however often a scope is active at once.
-/

namespace Asl

/-- A declaration that was accepted, in the scope that was innermost at the time. -/
structure Declared where
  scope : ScopeId
  name : String
  binding : Binding
deriving DecidableEq

/-- What a declaration gives to a name in a scope. -/
def Declared.gives? (d : Declared) (id : ScopeId) (x : String) : Option Binding :=
  if d.scope = id ∧ d.name = x then some d.binding else none

namespace Declared

variable {d : Declared} {id : ScopeId} {x : String} {b : Binding}

theorem gives?_eq_none_iff : d.gives? id x = none ↔ (d.name = x → d.scope ≠ id) := by
  unfold gives?
  split <;> grind

theorem gives?_eq_some_iff : d.gives? id x = some b ↔ d = ⟨id, x, b⟩ := by
  obtain ⟨scope, name, binding⟩ := d
  unfold gives?
  split <;> grind

end Declared

structure History where
  made : Nat := 0
  /-- Innermost first. -/
  active : List ScopeId := []
  /-- Earliest first. -/
  declared : List Declared := []

namespace History

def new (h : History) : History := { h with made := h.made + 1 }

def enter (h : History) (id : ScopeId) : History :=
  if id < h.made then { h with active := id :: h.active } else h

def leave (h : History) : History := { h with active := h.active.tail }

def declare (h : History) (x : String) (b : Binding) : History :=
  match h.active with
  | [] => h
  | id :: _ => { h with declared := h.declared ++ [⟨id, x, b⟩] }

/-- The earliest declaration of a name in a scope. -/
def given? (h : History) (id : ScopeId) (x : String) : Option Binding :=
  h.declared.findSome? (·.gives? id x)

/-- What the innermost active scope gives that gives anything. -/
def meaning? (h : History) (x : String) : Option Binding := h.active.findSome? (h.given? · x)

/-- No declaration of the name is in a scope further in, and none in the same scope is earlier. -/
def Means (h : History) (x : String) (b : Binding) : Prop :=
  ∃ inner id outer, h.active = inner ++ id :: outer ∧
    (∀ d ∈ h.declared, d.name = x → d.scope ∉ inner) ∧
    ∃ earlier later, h.declared = earlier ++ ⟨id, x, b⟩ :: later ∧
      ∀ d ∈ earlier, d.name = x → d.scope ≠ id

variable {h : History} {id : ScopeId} {x : String} {b : Binding}

theorem given?_eq_none_iff :
    h.given? id x = none ↔ ∀ d ∈ h.declared, d.name = x → d.scope ≠ id := by
  simp only [given?, List.findSome?_eq_none_iff, Declared.gives?_eq_none_iff]

theorem given?_eq_some_iff :
    h.given? id x = some b ↔ ∃ earlier later, h.declared = earlier ++ ⟨id, x, b⟩ :: later ∧
      ∀ d ∈ earlier, d.name = x → d.scope ≠ id := by
  simp only [given?, List.findSome?_eq_some_iff, Declared.gives?_eq_none_iff,
    Declared.gives?_eq_some_iff]
  constructor
  · rintro ⟨earlier, d, later, hdeclared, rfl, hearlier⟩
    exact ⟨earlier, later, hdeclared, hearlier⟩
  · rintro ⟨earlier, later, hdeclared, hearlier⟩
    exact ⟨earlier, _, later, hdeclared, rfl, hearlier⟩

theorem meaning?_eq_some_iff : h.meaning? x = some b ↔ h.Means x b := by
  have hinner (inner : List ScopeId) : (∀ id ∈ inner, h.given? id x = none) ↔
      ∀ d ∈ h.declared, d.name = x → d.scope ∉ inner := by
    simp only [given?_eq_none_iff]
    constructor
    · intro hnone d hd hname hscope
      exact hnone d.scope hscope d hd hname rfl
    · rintro hnone id hid d hd hname rfl
      exact hnone d hd hname hid
  simp only [meaning?, Means, List.findSome?_eq_some_iff, given?_eq_some_iff, hinner]
  constructor
  · rintro ⟨inner, id, outer, hactive, hgiven, hnone⟩
    exact ⟨inner, id, outer, hactive, hnone, hgiven⟩
  · rintro ⟨inner, id, outer, hactive, hnone, hgiven⟩
    exact ⟨inner, id, outer, hactive, hgiven, hnone⟩

end History

namespace Symbols

/-- The table is what the history makes of it. -/
structure Follows (s : Symbols) (h : History) : Prop where
  made : s.scopes.size = h.made
  active : s.stack = h.active
  inside : ∀ id ∈ s.stack, id < s.scopes.size
  given : ∀ id x, s.findIn? id x = h.given? id x

variable {s : Symbols} {h : History}

theorem findIn?_newScope (s : Symbols) (name : String) (id : ScopeId) (x : String) :
    (s.newScope name).findIn? id x = s.findIn? id x := by
  by_cases hid : id = s.scopes.size
  · subst hid
    simp [findIn?, newScope, Scope.find?]
  · simp [findIn?, newScope, Array.getElem?_push, hid]

/-- A declaration shows in its own scope under its own name, unless an earlier one stands. -/
theorem findIn?_declare {id : ScopeId} (hid : id < s.scopes.size) (x : String) (b : Binding)
    (other : ScopeId) (y : String) :
    findIn? { s with scopes := s.scopes.modify id (·.declare x b) } other y =
      (s.findIn? other y).or ((⟨id, x, b⟩ : Declared).gives? other y) := by
  simp only [findIn?, Array.getElem?_modify, Declared.gives?]
  by_cases hother : id = other
  · subst hother
    obtain ⟨scope, hscope⟩ : ∃ scope, s.scopes[id]? = some scope :=
      ⟨_, Array.getElem?_eq_getElem hid⟩
    by_cases hxy : x = y
    · subst hxy
      cases hfind : scope.find? x <;> simp [hscope, Scope.find?_declare, hfind]
    · simp [hscope, Scope.find?_declare, hxy]
  · simp [hother]

namespace Follows

theorem empty : Follows {} {} := ⟨rfl, rfl, nofun, fun _ _ => by simp [findIn?, History.given?]⟩

theorem newScope (hs : s.Follows h) (name : String) : (s.newScope name).Follows h.new := by
  refine ⟨?_, hs.active, fun id hid => ?_, fun id x => ?_⟩
  · simp [Symbols.newScope, History.new, hs.made]
  · have hlt := hs.inside id hid
    simp only [Symbols.newScope, Array.size_push]
    exact Nat.lt_succ_of_lt hlt
  · rw [findIn?_newScope]
    exact hs.given id x

theorem enter (hs : s.Follows h) {id : ScopeId} (hid : id < s.scopes.size) :
    Follows { s with stack := id :: s.stack } (h.enter id) := by
  have hmade : id < h.made := hs.made ▸ hid
  rw [History.enter, if_pos hmade]
  exact ⟨hs.made, by rw [hs.active], List.forall_mem_cons.mpr ⟨hid, hs.inside⟩, hs.given⟩

theorem enter_unknown (hs : s.Follows h) {id : ScopeId} (hid : ¬id < s.scopes.size) :
    s.Follows (h.enter id) := by
  rwa [History.enter, if_neg (hs.made ▸ hid)]

theorem leave (hs : s.Follows h) : s.leave.Follows h.leave :=
  ⟨hs.made, by rw [Symbols.leave, History.leave, hs.active],
    fun id hid => hs.inside id (List.mem_of_mem_tail hid), hs.given⟩

theorem declare (hs : s.Follows h) {id : ScopeId} (hid : s.innermost? = some id) (x : String)
    (b : Binding) :
    Follows { s with scopes := s.scopes.modify id (·.declare x b) } (h.declare x b) := by
  obtain ⟨rest, hstack⟩ := List.head?_eq_some_iff.mp hid
  have hlt : id < s.scopes.size := hs.inside id (by simp [hstack])
  have hactive : h.active = id :: rest := by rw [← hs.active, hstack]
  simp only [History.declare, hactive]
  refine ⟨by simp [hs.made], hstack, fun other hother => ?_, fun other y => ?_⟩
  · simpa using hs.inside other hother
  · rw [findIn?_declare hlt, hs.given, History.given?, History.given?, List.findSome?_append,
      List.findSome?_singleton]

theorem declare_nowhere (hs : s.Follows h) (hnone : s.innermost? = none) (x : String)
    (b : Binding) : s.Follows (h.declare x b) := by
  have hactive : h.active = [] := by rw [← hs.active, List.head?_eq_none_iff.mp hnone]
  simpa only [History.declare, hactive] using hs

theorem find? (hs : s.Follows h) (x : String) : s.find? x = h.meaning? x := by
  rw [Symbols.find?, History.meaning?, hs.active]
  exact congrArg (h.active.findSome? ·) (funext fun id => hs.given id x)

end Follows

end Symbols

/-! ## Sessions -/

namespace Session

mutual
/-- Only scopes, declarations and signatures are handled. -/
def Step.OnSymbols : Step → Prop
  | .put _ _ | .record _ | .register _ | .check _ _ => False
  | .within _ body _ => AllOnSymbols body
  | _ => True
def AllOnSymbols : List Step → Prop
  | [] => True
  | step :: rest => step.OnSymbols ∧ AllOnSymbols rest
end

/-- An unknown scope is not entered, and without an active scope nothing is declared. -/
def Step.refused : Step → History → Bool
  | .enter id, h | .within id _ _, h => !decide (id < h.made)
  | .declare _ _, h => h.active.isEmpty
  | _, _ => false

mutual
/-- The histories at the points inside a step and the one at its end. -/
def Step.tell : Step → History → List History × History
  | .newScope _, h => ([], h.new)
  | .enter id, h => ([], h.enter id)
  | .leave, h => ([], h.leave)
  | .declare x b, h => ([], h.declare x b)
  | .within id body stop, h =>
      if id < h.made then
        let told := tellAll stop body (h.enter id)
        (told.1, told.2.leave)
      else ([], h)
  | _, h => ([], h)
def tellAll (stop : Bool) : List Step → History → List History × History
  | [], h => ([], h)
  | step :: rest, h =>
      let told := step.tell h
      let points := told.1 ++ [told.2]
      if stop && step.refused h then (points, told.2)
      else
        let later := tellAll stop rest told.2
        (points ++ later.1, later.2)
end

/-- The tables follow the history at each point of a step. -/
structure Outcome.Follows (outcome : Outcome) (told : List History × History) (refused : Bool) :
    Prop where
  points : List.Forall₂ (fun t h => t.symbols.Follows h) outcome.seen (told.1 ++ [told.2])
  last : outcome.tables.symbols.Follows told.2
  fault : outcome.isFault = refused

theorem Outcome.Follows.single {answer : Answer} {t : Tables} {h : History} {refused : Bool}
    (ht : t.symbols.Follows h) (hfault : (Outcome.single answer t).isFault = refused) :
    (Outcome.single answer t).Follows ([], h) refused :=
  ⟨.cons ht .nil, ht, hfault⟩

mutual
theorem Step.follows : ∀ step : Step, step.OnSymbols → ∀ (t : Tables) (h : History),
    t.symbols.Follows h → (step.run t).Follows (step.tell h) (step.refused h)
  | .look, _, t, h, ht => .single ht rfl
  | .newScope name, _, t, h, ht => .single (ht.newScope name) rfl
  | .leave, _, t, h, ht => .single ht.leave rfl
  | .setSignature signature, _, t, h, ht => .single ⟨ht.made, ht.active, ht.inside, ht.given⟩ rfl
  | .enter id, _, t, h, ht => by
      by_cases hid : id < t.symbols.scopes.size
      · rw [Step.run, ofPass_of_ok (Pass.enter_of_lt hid), Step.tell]
        exact .single (ht.enter hid) (by simp [Outcome.isFault, Step.refused, ← ht.made, hid])
      · rw [Step.run, ofPass_of_error (Pass.enter_of_not_lt hid), Step.tell]
        refine .single (ht.enter_unknown hid) ?_
        simpa [Outcome.isFault, Step.refused, ← ht.made] using hid
  | .declare x b, _, t, h, ht => by
      cases hinnermost : t.symbols.innermost? with
      | none =>
          rw [Step.run, ofPass_of_error (Pass.declare_of_none hinnermost x b), Step.tell]
          refine .single (ht.declare_nowhere hinnermost x b) ?_
          have hstack := List.head?_eq_none_iff.mp hinnermost
          simp [Outcome.isFault, Step.refused, ← ht.active, hstack]
      | some id =>
          rw [Step.run, ofPass_of_ok (Pass.declare_of_some hinnermost x b), Step.tell]
          refine .single (ht.declare hinnermost x b) ?_
          obtain ⟨rest, hstack⟩ := List.head?_eq_some_iff.mp hinnermost
          simp [Outcome.isFault, Step.refused, ← ht.active, hstack]
  | .within id body stop, hbody, t, h, ht => by
      rw [Step.run, Step.tell]
      by_cases hid : id < t.symbols.scopes.size
      · obtain ⟨hpoints, hlast⟩ := follows_all body hbody stop
          { t with symbols.stack := id :: t.symbols.stack } (h.enter id) (ht.enter hid)
        rw [Pass.enter_of_lt hid, if_pos (ht.made ▸ hid)]
        refine ⟨List.rel_append hpoints (.cons hlast.leave .nil), hlast.leave, ?_⟩
        simp [Outcome.isFault, Step.refused, ← ht.made, hid]
      · rw [Pass.enter_of_not_lt hid, if_neg (ht.made ▸ hid)]
        refine .single ht ?_
        simpa [Outcome.isFault, Step.refused, ← ht.made] using hid
theorem follows_all : ∀ steps : List Step, AllOnSymbols steps →
    ∀ (stop : Bool) (t : Tables) (h : History), t.symbols.Follows h →
      List.Forall₂ (fun t h => t.symbols.Follows h) (allSeen (runSteps stop steps t).1)
          (tellAll stop steps h).1 ∧
        (runSteps stop steps t).2.symbols.Follows (tellAll stop steps h).2
  | [], _, stop, t, h, ht => ⟨.nil, ht⟩
  | step :: rest, ⟨hstep, hrest⟩, stop, t, h, ht => by
      obtain ⟨hpoints, hlast, hfault⟩ := step.follows hstep t h ht
      rw [runSteps, tellAll, hfault]
      split
      · exact ⟨by simpa [allSeen] using hpoints, hlast⟩
      · obtain ⟨hlater, hend⟩ := follows_all rest hrest stop _ _ hlast
        exact ⟨List.rel_append hpoints hlater, hend⟩
end

end Session

/-- The scopes that a name or a declaration is looked up in are all there, and names mean what
the history says. -/
structure Symbols.Obeys (s : Symbols) (h : History) : Prop where
  made : s.scopes.size = h.made
  active : s.stack = h.active
  inside : ∀ id ∈ s.stack, id < s.scopes.size
  innermost : ∀ id, s.innermost? = some id → id < s.scopes.size
  outermost : ∀ id, s.outermost? = some id → id < s.scopes.size
  find : ∀ x b, s.find? x = some b ↔ h.Means x b

theorem Symbols.Follows.obeys {s : Symbols} {h : History} (hs : s.Follows h) : s.Obeys h where
  made := hs.made
  active := hs.active
  inside := hs.inside
  innermost id hid := hs.inside id (List.mem_of_head? hid)
  outermost id hid := hs.inside id (List.mem_of_getLast? hid)
  find x b := by rw [hs.find?, History.meaning?_eq_some_iff]

/-- In every session of operations on symbols, at every point inside its brackets and at its
end, no active scope is missing from the table, and a name means its earliest declaration in the
innermost active scope that has one. -/
theorem symbols_obey_their_history (stop : Bool) (steps : List Session.Step)
    (hsteps : Session.AllOnSymbols steps) :
    let run := Session.runSteps stop steps {}
    let told := Session.tellAll stop steps {}
    List.Forall₂ (fun t h => t.symbols.Obeys h) (Session.allSeen run.1) told.1 ∧
      run.2.symbols.Obeys told.2 := by
  intro run told
  obtain ⟨hpoints, hlast⟩ := Session.follows_all steps hsteps stop {} {} .empty
  exact ⟨hpoints.imp fun _ _ h => h.obeys, hlast.obeys⟩

/-- The first declaration and two steps into scopes that do not exist are refused. At the end
the inner scope is active twice, and what it was first told about `x` stands. -/
theorem first_declaration_in_inner_scope_stands :
    let x (type : Ty) : Session.Step := .declare "x" ⟨type, .variable⟩
    let steps : List Session.Step :=
      [x .bool, .newScope "outer", .enter 5, .enter 0, x .int, .newScope "inner", .enter 1,
        .within 1 [.enter 0, x .bool, .enter 1, x .char, .leave, .leave, x .float] true,
        .within 2 [x .void] true, .enter 1, .setSignature none]
    Session.AllOnSymbols steps ∧
      let s := (Session.runSteps false steps {}).2.symbols
      s.stack = [1, 1, 0] ∧ s.find? "x" = some ⟨.char, .variable⟩ := by
  intro x steps
  have hsteps : Session.AllOnSymbols steps := by
    simp [steps, x, Session.AllOnSymbols, Session.Step.OnSymbols]
  have hactive : (Session.tellAll false steps {}).2.active = [1, 1, 0] := by decide +kernel
  have hdeclared : (Session.tellAll false steps {}).2.declared =
      [⟨0, "x", ⟨.int, .variable⟩⟩, ⟨0, "x", ⟨.bool, .variable⟩⟩] ++
        ⟨1, "x", ⟨.char, .variable⟩⟩ :: [⟨1, "x", ⟨.float, .variable⟩⟩] := by
    decide +kernel
  obtain ⟨-, hlast⟩ := symbols_obey_their_history false steps hsteps
  refine ⟨hsteps, hlast.active.trans hactive, (hlast.find "x" _).mpr ?_⟩
  exact ⟨[], 1, [1, 0], hactive, by simp, _, _, hdeclared, by simp⟩

end Asl
