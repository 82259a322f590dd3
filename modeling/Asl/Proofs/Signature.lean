import Asl.Proofs.Permanence
import Asl.Proofs.Run

/-!
# The signature of the function under check

Before a body is read, the signature of its function is put beside the scopes, and the bracket
around the body takes it away again, however the body ends. The scope of the function is looked
up between the two, outside the bracket. So a function that was never registered ends the check
with its signature still in place, and this is the only way for one to stay.
-/

namespace Asl

open Pass (Replays)

/-- The only fault in a replay is a fact that is known already. -/
theorem Pass.Replays.eq_rewritten {t : Tables} {p : Pass α} {a : α} {es : Reading} {s : Symbols}
    (h : Replays t p a es s) {fault : Fault} (hfault : p.result t = .error fault) :
    ∃ node field, fault = .rewritten node field := by
  obtain ⟨-, u, -, hrun⟩ | ⟨key, -, u, hrun⟩ := h.ends
  · rw [Pass.result_of_ok hrun] at hfault
    cases hfault
  · rw [Pass.result_of_error hrun] at hfault
    cases hfault
    exact ⟨key.1, key.2, rfl⟩

theorem checkBlock_eq_rewritten {t : Tables} {f : Function}
    (hsignature : t.symbols.signature = some f.signature) {fault : Fault}
    (hfault : (checkBlock f.body).result t = .error fault) :
    ∃ node field, fault = .rewritten node field := by
  have hresult : t.symbols.signature.bind Ty.result? = some f.resultType := by
    rw [hsignature]
    exact f.result?_signature
  have hreads : Pass.Reads t.symbols [] (checkBlock f.body) ()
      (blockReading t.symbols.find? f.resultType f.body) :=
    checkBlock_reads (fun _ => rfl) hresult f.body []
  exact (hreads t rfl (by simp)).eq_rewritten hfault

/-- No signature is left and no scope was missing. -/
structure Pass.Clears (p : Pass α) (t : Tables) : Prop where
  signature : (p.after t).symbols.signature = none
  fault : ∀ node, p.result t ≠ .error (.missing node .scope)

/-- The pass ends at a function without a scope and leaves its signature. -/
structure Pass.StopsAt (f : Function) (p : Pass α) (t : Tables) : Prop where
  scope : (p.after t).annotations.scope? f.id = none
  fault : p.result t = .error (.missing f.id .scope)
  signature : (p.after t).symbols.signature = some f.signature

def Pass.Settles (fs : List Function) (p : Pass α) (t : Tables) : Prop :=
  p.Clears t ∨ ∃ f ∈ fs, p.StopsAt f t

open Pass (Clears StopsAt Settles)

namespace Pass.Settles

variable {fs gs : List Function} {p : Pass α} {q : Pass β} {k : α → Pass β} {t u : Tables}

theorem mono (h : Settles fs p t) (hsub : fs ⊆ gs) : Settles gs p t :=
  h.imp_right fun ⟨f, hf, hstop⟩ => ⟨f, hsub hf, hstop⟩

/-- Only the signature, the annotations and whether a scope was missing count. -/
theorem congr (h : Settles fs q u)
    (hsignature : (p.after t).symbols.signature = (q.after u).symbols.signature)
    (hannotations : (p.after t).annotations = (q.after u).annotations)
    (hresult : ∀ node,
      p.result t = .error (.missing node .scope) ↔ q.result u = .error (.missing node .scope)) :
    Settles fs p t := by
  obtain ⟨hclear, hfault⟩ | ⟨f, hf, hscope, hfault, hleft⟩ := h
  · exact .inl ⟨hsignature.trans hclear, fun node hp => hfault node ((hresult node).mp hp)⟩
  · refine .inr ⟨f, hf, ?_, (hresult f.id).mpr hfault, hsignature.trans hleft⟩
    rw [hannotations, hscope]

theorem of_eq_ok {a : α} (h : p t = .ok a u) (hsignature : u.symbols.signature = none) :
    Settles fs p t := by
  refine .inl ⟨by rw [after_of_ok h, hsignature], fun node => ?_⟩
  rw [result_of_ok h]
  nofun

theorem get_bind {f : Tables → Pass α} (h : Settles fs (f t) t) : Settles fs (get >>= f) t :=
  h.congr rfl rfl fun _ => .rfl

/-- What comes next starts without a signature, if it starts at all. -/
theorem bind (h : Settles fs p t)
    (hk : ∀ a u, p t = .ok a u → u.symbols.signature = none → Settles fs (k a) u) :
    Settles fs (p >>= k) t := by
  cases hp : p.result t with
  | ok a =>
      have hrun := eq_ok_of_result hp
      have hbind : (p >>= k) t = k a (p.after t) := bind_of_ok hrun
      obtain ⟨hsignature, -⟩ | ⟨f, -, -, hfault, -⟩ := h
      · refine (hk a _ hrun hsignature).congr ?_ ?_ fun node => ?_
        · rw [after_of_eq hbind]
        · rw [after_of_eq hbind]
        · rw [result_of_eq hbind]
      · rw [hp] at hfault
        cases hfault
  | error fault =>
      have hbind := bind_of_error (f := k) (eq_error_of_result hp)
      have hafter := after_of_error hbind
      refine h.congr (by rw [hafter]) (by rw [hafter]) fun node => ?_
      rw [result_of_error hbind, hp]
      simp

/-- A bracket looks for no annotation and does not touch the signature. -/
theorem within {id : ScopeId} (hsignature : t.symbols.signature = none)
    (h : Settles fs p { t with symbols.stack := id :: t.symbols.stack }) :
    Settles fs (Pass.within id p) t := by
  have hafter := after_within id p t
  have hresult := result_within id p t
  by_cases hid : id < t.symbols.scopes.size
  · rw [if_pos hid] at hafter hresult
    exact h.congr (by rw [hafter]; rfl) (by rw [hafter]; rfl) fun node => by rw [hresult]
  · rw [if_neg hid] at hafter hresult
    refine .inl ⟨by rw [hafter, hsignature], fun node => ?_⟩
    rw [hresult]
    nofun

end Pass.Settles

/-- Between the two ends of the bracket around a body no scope annotation is asked for. -/
theorem body_ne_missing {t : Tables} {f : Function}
    (hsignature : t.symbols.signature = some f.signature) (id : ScopeId) (node : NodeId) :
    (Pass.within id (checkBlock f.body)).result t ≠ .error (.missing node .scope) := by
  rw [Pass.result_within]
  split
  · intro hfault
    obtain ⟨_, _, hrewritten⟩ := checkBlock_eq_rewritten
      (t := { t with symbols.stack := id :: t.symbols.stack }) hsignature hfault
    cases hrewritten
  · nofun

theorem checkFunction_settles (f : Function) (t : Tables) : Settles [f] (checkFunction f) t := by
  let called := t.withSignature (some f.signature)
  have hset : Pass.setSignature (some f.signature) t = .ok () called := rfl
  cases hscope : t.annotations.scope? f.id with
  | none =>
      have hrun : checkFunction f t = .error (.missing f.id .scope) called :=
        (Pass.bind_of_ok hset).trans (Pass.bind_of_error (Pass.scopeOf_of_none hscope))
      refine .inr ⟨f, List.mem_singleton_self f, ?_, Pass.result_of_error hrun, ?_⟩
      · rw [Pass.after_of_error hrun]
        exact hscope
      · rw [Pass.after_of_error hrun]
        rfl
  | some id =>
      have hrun : checkFunction f t =
          (Pass.within id (checkBlock f.body)).ensuring (·.withSignature none) called :=
        (Pass.bind_of_ok hset).trans (Pass.bind_of_ok (Pass.scopeOf_of_some hscope))
      refine .inl ⟨?_, fun node => ?_⟩
      · rw [Pass.after_of_eq hrun, Pass.after_ensuring]
        rfl
      · rw [Pass.result_of_eq hrun, Pass.result_ensuring]
        exact body_ne_missing rfl id node

theorem checkFunctions_settles (fs : List Function) {t : Tables}
    (h : t.symbols.signature = none) : Settles fs (checkFunctions fs) t := by
  induction fs generalizing t with
  | nil => exact .of_eq_ok rfl h
  | cons f rest ih =>
      rw [checkFunctions]
      refine ((checkFunction_settles f t).mono (by simp)).bind fun _ u _ hu => ?_
      exact (ih hu).mono (List.subset_cons_self f rest)

theorem checkProgram_settles (c : Config) {p : Program} {t : Tables} {id : ScopeId}
    (hprogram : t.annotations.scope? p.id = some id) (h : t.symbols.signature = none) :
    Settles p.functions (checkProgram c p) t := by
  have hfind : Pass.scopeOf p.id t = .ok id t := Pass.scopeOf_of_some hprogram
  have hbodies : Settles p.functions
      (Pass.within id do
        checkFunctions p.functions
        checkEntryPoint c p.loc) t := by
    refine .within h (.bind (checkFunctions_settles p.functions h) fun _ u _ hu => ?_)
    exact .get_bind (.of_eq_ok (u := u.report _) rfl hu)
  have hfound : Settles p.functions (Pass.scopeOf p.id) t := .of_eq_ok hfind h
  refine .get_bind (hfound.bind fun scope u hu _ => ?_)
  obtain ⟨rfl, rfl⟩ : id = scope ∧ t = u := by simpa [hfind] using hu
  exact hbodies.bind fun _ v _ hv => .get_bind (.of_eq_ok rfl hv)

/-- A check that starts without a signature ends with one exactly if it has come to a function
without a scope, and then with the signature of that function. Any other end clears it. -/
theorem only_unregistered_functions_leave_signatures (c : Config) (p : Program) (t : Tables)
    (h : t.symbols.signature = none) :
    let after := (checkProgram c p).after t
    let result := (checkProgram c p).result t
    (after.symbols.signature = none ↔
        ¬((t.annotations.scope? p.id).isSome ∧
          ∃ f ∈ p.functions, result = .error (.missing f.id .scope))) ∧
      ∀ signature, after.symbols.signature = some signature →
        ∃ f ∈ p.functions, t.annotations.scope? f.id = none ∧
          result = .error (.missing f.id .scope) ∧ f.signature = signature := by
  intro after result
  cases hprogram : t.annotations.scope? p.id with
  | none =>
      have hrun : checkProgram c p t = .error (.missing p.id .scope) t :=
        (Pass.bind_of_ok (p := get) rfl).trans (Pass.bind_of_error (Pass.scopeOf_of_none hprogram))
      have hafter : after = t := Pass.after_of_error hrun
      simp [hafter, h]
  | some id =>
      obtain ⟨hclear, hfault⟩ | ⟨f, hf, hscope, hfault, hleft⟩ :=
        checkProgram_settles c hprogram h
      · refine ⟨iff_of_true hclear ?_, fun signature hsignature => ?_⟩
        · rintro ⟨-, f, -, hmissing⟩
          exact hfault f.id hmissing
        · rw [show after.symbols.signature = none from hclear] at hsignature
          cases hsignature
      · have hunknown : t.annotations.scope? f.id = none := by
          rw [Option.eq_none_iff_forall_ne_some]
          intro scope hknown
          have hkept := (checkProgram_retains c p t).facts f.id (.scope scope) hknown
          rw [Annotations.Holds, hscope] at hkept
          cases hkept
        have hsome : after.symbols.signature = some f.signature := hleft
        refine ⟨iff_of_false (by simp [hsome]) (not_not_intro ⟨rfl, f, hf, hfault⟩), ?_⟩
        intro signature hsignature
        rw [hsome, Option.some.injEq] at hsignature
        exact ⟨f, hf, hunknown, hfault, hsignature⟩

/-- A program that does nothing. -/
def idle : Program :=
  let build : Build Program := do
    let start ← Build.function "main" [] none [] [← Build.ret none]
    Build.program [start]
  (build.run {}).1

/-- The program has a scope, its function has none. -/
def Tables.halfRegistered : Tables where
  symbols := { scopes := #[⟨globalScope, []⟩] }
  annotations := ⟨(∅ : Std.TreeMap NodeId Annotation).insert idle.id { scope := some 0 }⟩

theorem idle_leaves_signature_unless_registered :
    let t := Tables.halfRegistered
    let registered := (registerProgram idle).after {}
    (∃ f ∈ idle.functions, (checkProgram {} idle).result t = .error (.missing f.id .scope)) ∧
      ((checkProgram {} idle).after registered).symbols.signature = none := by
  intro t registered
  obtain ⟨-, hleft⟩ := only_unregistered_functions_leave_signatures {} idle t rfl
  have hempty : registered.symbols.signature = none := by decide +kernel
  obtain ⟨hcleared, -⟩ := only_unregistered_functions_leave_signatures {} idle registered hempty
  refine ⟨?_, hcleared.mpr ?_⟩
  · obtain ⟨f, hf, -, hfault, -⟩ := hleft (.func [] .void) (by decide +kernel)
    exact ⟨f, hf, hfault⟩
  · rintro ⟨-, f, hf, hfault⟩
    have hresult : (checkProgram {} idle).result registered = .ok 0 := by decide +kernel
    rw [hresult] at hfault
    cases hfault

theorem check_can_leave_signature :
    ¬∀ (c : Config) (p : Program) (t : Tables), t.symbols.signature = none →
      ((checkProgram c p).after t).symbols.signature = none := by
  intro h
  have hnone := h {} idle Tables.halfRegistered rfl
  have hsome : ((checkProgram {} idle).after Tables.halfRegistered).symbols.signature =
      some (.func [] .void) := by
    decide +kernel
  rw [hsome] at hnone
  cases hnone

end Asl
