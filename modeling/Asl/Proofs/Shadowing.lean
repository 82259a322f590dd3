import Asl.Proofs.History

/-!
# Shadowing ends with its scope

Suppose that scopes are entered on top of those that are active, others than these, and that
whatever is declared is declared there. However long this goes on and however often a scope is
entered, the scopes below stay active in their order, and no declaration comes to them. So once
the number of active scopes is what it was, every name means what it meant.
-/

namespace Asl

namespace Symbols

/-- The active scopes of `s` are active under others, and what names mean in them is the same. -/
structure StandsOn (u s : Symbols) : Prop where
  stack : ∃ top, u.stack = top ++ s.stack ∧ ∀ id ∈ top, id ∉ s.stack
  meaning : ∀ id ∈ s.stack, ∀ x, u.findIn? id x = s.findIn? id x

namespace StandsOn

variable {s u : Symbols}

theorem refl (s : Symbols) : s.StandsOn s := ⟨⟨[], rfl, List.forall_mem_nil _⟩, fun _ _ _ => rfl⟩

theorem setSignature (h : u.StandsOn s) (signature : Option Ty) :
    StandsOn { u with signature } s := ⟨h.stack, h.meaning⟩

theorem newScope (h : u.StandsOn s) (name : String) : (u.newScope name).StandsOn s := by
  refine ⟨h.stack, fun id hid x => ?_⟩
  rw [findIn?_newScope, h.meaning id hid x]

theorem enter (h : u.StandsOn s) {id : ScopeId} (hid : id ∉ s.stack) :
    StandsOn { u with stack := id :: u.stack } s := by
  obtain ⟨top, htop, hapart⟩ := h.stack
  exact ⟨⟨id :: top, congrArg (id :: ·) htop, List.forall_mem_cons.mpr ⟨hid, hapart⟩⟩, h.meaning⟩

theorem leave (h : u.StandsOn s) (hdepth : s.depth ≤ u.leave.depth) : u.leave.StandsOn s := by
  obtain ⟨top, htop, hapart⟩ := h.stack
  refine ⟨?_, h.meaning⟩
  cases top with
  | nil =>
      -- only without any active scope is nothing left by leaving
      have hempty : s.stack = [] := by
        rw [List.nil_append] at htop
        simp only [depth, Symbols.leave, htop, List.length_tail] at hdepth
        exact List.length_eq_zero_iff.mp (by omega)
      exact ⟨[], by rw [Symbols.leave, htop, hempty]; rfl, List.forall_mem_nil _⟩
  | cons id top =>
      refine ⟨top, by rw [Symbols.leave, htop]; rfl, ?_⟩
      exact (List.forall_mem_cons.mp hapart).2

/-- The innermost scope is none of those below. -/
theorem declare (h : u.StandsOn s) (hdepth : s.depth < u.depth) {id : ScopeId}
    (hid : u.innermost? = some id) (x : String) (b : Binding) :
    StandsOn { u with scopes := u.scopes.modify id (·.declare x b) } s := by
  obtain ⟨top, htop, hapart⟩ := h.stack
  refine ⟨⟨top, htop, hapart⟩, fun other hother y => ?_⟩
  have hne : id ≠ other := by
    cases top with
    | nil => simp [depth, htop] at hdepth
    | cons first top =>
        obtain rfl : first = id := by simpa [innermost?, htop] using hid
        rintro rfl
        exact hapart first List.mem_cons_self hother
  rw [← h.meaning other hother y]
  simp [findIn?, Array.getElem?_modify, hne]

/-- With as many scopes active as before, these are the same and names mean the same. -/
theorem stack_eq (h : u.StandsOn s) (hdepth : u.depth = s.depth) : u.stack = s.stack := by
  obtain ⟨top, htop, -⟩ := h.stack
  have hlength : top = [] := by
    simp only [depth, htop, List.length_append] at hdepth
    exact List.length_eq_zero_iff.mp (by omega)
  rw [htop, hlength, List.nil_append]

theorem find?_eq (h : u.StandsOn s) (hdepth : u.depth = s.depth) (x : String) :
    u.find? x = s.find? x := by
  have hscopes (ids : List ScopeId) (hids : ids ⊆ s.stack) :
      ids.findSome? (u.findIn? · x) = ids.findSome? (s.findIn? · x) := by
    induction ids with
    | nil => rfl
    | cons id rest ih =>
        obtain ⟨hid, hrest⟩ := List.cons_subset.mp hids
        rw [List.findSome?_cons, List.findSome?_cons, h.meaning id hid, ih hrest]
  rw [Symbols.find?, Symbols.find?, h.stack_eq hdepth, hscopes _ (List.Subset.refl _)]

theorem hasEntryPoint_eq (h : u.StandsOn s) (hdepth : u.depth = s.depth) (x : String) :
    u.hasEntryPoint x = s.hasEntryPoint x := by
  have houtermost : (u.outermost?.bind (u.findIn? · x)) = s.outermost?.bind (s.findIn? · x) := by
    rw [outermost?, outermost?, h.stack_eq hdepth]
    cases hlast : s.stack.getLast? with
    | none => rfl
    | some id => exact h.meaning id (List.mem_of_getLast? hlast) x
  rw [hasEntryPoint, hasEntryPoint, houtermost]

end StandsOn

end Symbols

/-! ## Sessions -/

namespace Session

mutual
/-- From these tables the step handles symbols only. It enters no scope of a stack and declares
nothing unless more scopes are active than the stack has. -/
def Step.keepsAbove (base : List ScopeId) : Step → Tables → Bool
  | .enter id, _ => decide (id ∉ base)
  | .declare _ _, t => decide (base.length < t.symbols.depth)
  | .within id body stop, t =>
      decide (id ∉ base) &&
        match Pass.enter id t with
        | .ok _ t => allKeepAbove base stop body t
        | .error _ _ => true
  | .put _ _, _ | .record _, _ | .register _, _ | .check _ _, _ => false
  | .look, _ | .newScope _, _ | .leave, _ | .setSignature _, _ => true
/-- Besides, no step leaves fewer scopes active than the stack has. -/
def allKeepAbove (base : List ScopeId) (stop : Bool) : List Step → Tables → Bool
  | [], _ => true
  | step :: rest, t =>
      let outcome := step.run t
      step.keepsAbove base t && decide (base.length ≤ outcome.tables.symbols.depth) &&
        (stop && outcome.isFault || allKeepAbove base stop rest outcome.tables)
end

mutual
theorem Step.standsOn {s : Symbols} : ∀ (step : Step) (t : Tables), t.symbols.StandsOn s →
    step.keepsAbove s.stack t = true → s.depth ≤ (step.run t).tables.symbols.depth →
      (step.run t).tables.symbols.StandsOn s
  | .look, t, h, _, _ => h
  | .newScope name, t, h, _, _ => h.newScope name
  | .leave, t, h, _, hdepth => h.leave hdepth
  | .setSignature signature, t, h, _, _ => h.setSignature signature
  | .enter id, t, h, hstep, _ => by
      have hid : id ∉ s.stack := by simpa [Step.keepsAbove] using hstep
      by_cases hsize : id < t.symbols.scopes.size
      · rw [Step.run, ofPass_of_ok (Pass.enter_of_lt hsize)]
        exact h.enter hid
      · rw [Step.run, ofPass_of_error (Pass.enter_of_not_lt hsize)]
        exact h
  | .declare x b, t, h, hstep, _ => by
      have habove : s.depth < t.symbols.depth := of_decide_eq_true hstep
      cases hinnermost : t.symbols.innermost? with
      | none =>
          rw [Step.run, ofPass_of_error (Pass.declare_of_none hinnermost x b)]
          exact h
      | some id =>
          rw [Step.run, ofPass_of_ok (Pass.declare_of_some hinnermost x b)]
          exact h.declare habove hinnermost x b
  | .within id body stop, t, h, hstep, hdepth => by
      obtain ⟨hid, hbody⟩ := (Bool.and_eq_true _ _).mp hstep
      have hapart : id ∉ s.stack := by simpa using hid
      rw [Step.run] at hdepth ⊢
      by_cases hsize : id < t.symbols.scopes.size
      · rw [Pass.enter_of_lt hsize] at hbody hdepth ⊢
        exact (standsOn_all body stop _ (h.enter hapart) hbody).leave hdepth
      · rw [Pass.enter_of_not_lt hsize]
        exact h
theorem standsOn_all {s : Symbols} : ∀ (steps : List Step) (stop : Bool) (t : Tables),
    t.symbols.StandsOn s → allKeepAbove s.stack stop steps t = true →
      (runSteps stop steps t).2.symbols.StandsOn s
  | [], stop, t, h, _ => h
  | step :: rest, stop, t, h, hsteps => by
      simp only [allKeepAbove, Bool.and_eq_true, decide_eq_true_eq, Bool.or_eq_true] at hsteps
      obtain ⟨⟨hstep, hdepth⟩, hrest⟩ := hsteps
      have hnext := step.standsOn t h hstep hdepth
      rw [runSteps_cons]
      split
      next => exact hnext
      next hgoes =>
        exact standsOn_all rest stop _ hnext (hrest.resolve_left (by simpa using hgoes))
end

end Session

/-- Whatever the tables, let a session of operations on symbols, in brackets or not, enter none of
the active scopes again, declare only while more scopes are active than at first, and never have
fewer active. If as many are active at its end as at first, they are the same, and names mean what
they meant. -/
theorem shadowing_ends_with_its_scope (t : Tables) (stop : Bool) (steps : List Session.Step)
    (hsteps : Session.allKeepAbove t.symbols.stack stop steps t = true)
    (hdepth : (Session.runSteps stop steps t).2.symbols.depth = t.symbols.depth) :
    let u := (Session.runSteps stop steps t).2
    u.symbols.stack = t.symbols.stack ∧
      ∀ x, u.symbols.find? x = t.symbols.find? x ∧ u.symbols.type? x = t.symbols.type? x ∧
        u.symbols.isFunction x = t.symbols.isFunction x ∧
          u.symbols.hasEntryPoint x = t.symbols.hasEntryPoint x := by
  intro u
  have hstands : u.symbols.StandsOn t.symbols :=
    Session.standsOn_all steps stop t (.refl t.symbols) hsteps
  refine ⟨hstands.stack_eq hdepth, fun x => ?_⟩
  have hfind := hstands.find?_eq hdepth x
  refine ⟨hfind, ?_, ?_, hstands.hasEntryPoint_eq hdepth x⟩
  · rw [Symbols.type?, hfind, Symbols.type?]
  · rw [Symbols.isFunction, hfind, Symbols.isFunction]

/-- The inner scope is active twice at a time, another is made in it, and one that does not exist
is refused. Meanwhile `x` has another type and `main` is a variable. -/
theorem shadowed_names_come_back :
    let x (type : Ty) : Session.Step := .declare "x" ⟨type, .variable⟩
    let before : List Session.Step :=
      [.newScope "outer", .enter 0, x .int, .declare "main" ⟨.func [] .void, .function⟩]
    let steps : List Session.Step :=
      [.newScope "inner", .enter 1, x .float, .declare "main" ⟨.int, .variable⟩,
        .within 1 [x .bool, .newScope "deep", .enter 2, x .char, .leave] true, .enter 7, .leave]
    let t := (Session.runSteps false before {}).2
    let u := (Session.runSteps false steps t).2
    Session.allKeepAbove t.symbols.stack false steps t = true ∧
      (Session.runSteps false (steps.take 4) t).2.symbols.find? "x" = some ⟨.float, .variable⟩ ∧
        u.symbols.stack = [0] ∧ u.symbols.find? "x" = some ⟨.int, .variable⟩ ∧
          u.symbols.isFunction "main" = true ∧ u.symbols.hasEntryPoint "main" = true := by
  intro x before steps t u
  have hsteps : Session.allKeepAbove t.symbols.stack false steps t = true := by decide +kernel
  obtain ⟨hstack, hnames⟩ :=
    shadowing_ends_with_its_scope t false steps hsteps (by decide +kernel)
  obtain ⟨hfind, -, -, -⟩ := hnames "x"
  obtain ⟨-, -, hfunction, hentry⟩ := hnames "main"
  refine ⟨hsteps, by decide +kernel, hstack.trans (by decide +kernel), ?_, ?_, ?_⟩
  · exact hfind.trans (by decide +kernel)
  · exact hfunction.trans (by decide +kernel)
  · exact hentry.trans (by decide +kernel)

end Asl
