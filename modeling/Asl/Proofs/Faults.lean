import Asl.Proofs.Lockstep
import Asl.Proofs.Outcome
import Mathlib.Data.List.Duplicate

/-!
# The faults that a pass can meet

On tables with any past, registration can only fail on a node that has a scope already.
Checking can fail on a node whose scope is missing or was never made. Within a body it can only
fail on a part that has been annotated before: what it looks up there it has just written, and
a `return` is only met with a signature in place. So the course of a check is told beforehand:
it visits the bodies up to the first function that it cannot enter, and what it writes on the
way is new up to the first fact that is not.
-/

namespace Asl

open Pass (Replays)
open Program (visitKeys)

def Key.rewritten (key : Key) : Fault := .rewritten key.1 key.2

namespace Pass

def fault? (p : Pass α) (t : Tables) : Option Fault :=
  match p.result t with
  | .ok _ => none
  | .error fault => some fault

section

variable {p q : Pass α} {f : α → Pass β} {t u : Tables} {a : α} {fault : Fault}

theorem fault?_of_ok (h : p t = .ok a u) : p.fault? t = none := by
  rw [fault?, result_of_ok h]

theorem fault?_of_error (h : p t = .error fault u) : p.fault? t = some fault := by
  rw [fault?, result_of_error h]

theorem fault?_eq_some_iff : p.fault? t = some fault ↔ p.result t = .error fault := by
  unfold fault?
  cases p.result t <;> simp

theorem fault?_bind_of_some (h : p.fault? t = some fault) : (p >>= f).fault? t = some fault :=
  fault?_of_error (bind_of_error (eq_error_of_result (fault?_eq_some_iff.mp h)))

theorem fault?_within_of_not_lt {id : ScopeId} (hid : ¬id < t.symbols.scopes.size) :
    (Pass.within id p).fault? t = some (.unknownScope id) :=
  fault?_of_error (within_of_not_lt hid)

theorem fault?_ensuring (tidy : Tables → Tables) : (p.ensuring tidy).fault? t = p.fault? t := by
  rw [fault?, result_ensuring, fault?]

/-- What cannot fail may come after. -/
theorem fault?_bind (hf : ∀ a u, (f a).fault? u = none) : (p >>= f).fault? t = p.fault? t := by
  cases hrun : p t with
  | ok a u =>
      rw [fault?_of_ok hrun, ← hf a u, fault?, fault?, result_of_eq (bind_of_ok hrun)]
  | error fault u => rw [fault?_of_error hrun, fault?_of_error (bind_of_error hrun)]

end

/-- From `t` the pass writes facts with these keys in this order, of which the first that is not
new is its fault, and ends as told otherwise. -/
def Writes (t : Tables) (p : Pass α) (keys : List Key) (stop : Option Fault) : Prop :=
  p.fault? t = ((firstRepeat t.annotations.knows keys).map Key.rewritten).or stop

end Pass

open Pass (Writes)

section

variable {t : Tables} {p : Pass α} {f : α → Pass β} {a : α} {es : Reading} {s : Symbols}
  {keys : List Key} {stop : Option Fault}

theorem Pass.Writes.of_fault? (h : p.fault? t = stop) : Writes t p [] stop := h

theorem Pass.Replays.writes (h : Replays t p a es s) : Writes t p es.keys none := by
  unfold Writes
  obtain ⟨hnone, u, -, hrun⟩ | ⟨key, hkey, u, hrun⟩ := h.ends
  · rw [hnone, fault?_of_ok hrun]
    rfl
  · rw [hkey, fault?_of_error hrun]
    rfl

theorem Pass.Replays.bind_writes (h : Replays t p a es s)
    (hf : ∀ u, es.replay t = .ok () u → Writes (u.withSymbols s) (f a) keys stop) :
    Writes t (p >>= f) (es.keys ++ keys) stop := by
  unfold Writes
  rw [firstRepeat_append]
  obtain ⟨hnone, u, hu, hrun⟩ | ⟨key, hkey, u, hrun⟩ := h.ends
  · rw [hnone, Option.none_or, fault?, result_of_eq (bind_of_ok hrun)]
    refine (hf u hu).trans ?_
    -- What the first pass has written is known when the second begins.
    congr 3
    funext key
    have hknows : (u.withSymbols s).annotations.knows key = true ↔
        t.annotations.knows key = true ∨ key ∈ es.keys :=
      (Reading.done_of_replay hu).knows_iff key
    rw [Bool.eq_iff_iff]
    simpa [or_comm] using hknows
  · rw [hkey, fault?_of_error (bind_of_error hrun)]
    rfl

theorem Pass.Writes.bind (h : Writes t p keys stop) (hf : ∀ a u, (f a).fault? u = none) :
    Writes t (p >>= f) keys stop :=
  (fault?_bind hf).trans h

theorem Pass.Writes.within {id : ScopeId} (hid : id < t.symbols.scopes.size)
    (h : Writes (t.withSymbols (t.symbols.activate id)) p keys stop) :
    Writes t (Pass.within id p) keys stop := by
  unfold Writes fault? at h ⊢
  rw [result_within, if_pos hid]
  exact h

end

/-- The scope of a node, or the fault that entering it meets. -/
def Tables.entry (t : Tables) (node : NodeId) : Except Fault ScopeId :=
  match t.annotations.scope? node with
  | none => .error (.missing node .scope)
  | some scope => if scope < t.symbols.scopes.size then .ok scope else .error (.unknownScope scope)

/-- What names mean once one more scope is active. -/
def Tables.envIn (t : Tables) (scope : ScopeId) : Env := (t.symbols.activate scope).find?

/-- The parts that are visited up to the first function that cannot be entered. -/
def Tables.visitedIn (t : Tables) : List Function → List Part
  | [] => []
  | f :: rest =>
      match t.entry f.id with
      | .error _ => []
      | .ok inner => reachedBlock (t.envIn inner).takes f.body ++ t.visitedIn rest

/-- The fault of the first function that cannot be entered. -/
def Tables.blocked? (t : Tables) : List Function → Option Fault
  | [] => none
  | f :: rest =>
      match t.entry f.id with
      | .error fault => some fault
      | .ok _ => t.blocked? rest

/-- The parts that a check of the program would visit. -/
def Program.visitedFrom (p : Program) (t : Tables) : List Part :=
  match t.entry p.id with
  | .error _ => []
  | .ok outer => (t.withSymbols (t.symbols.activate outer)).visitedIn p.functions

section

variable {t u : Tables} {node : NodeId} {id : ScopeId} {fault : Fault}

theorem Tables.entry_eq_ok_iff :
    t.entry node = .ok id ↔ t.annotations.scope? node = some id ∧ id < t.symbols.scopes.size := by
  unfold entry
  cases t.annotations.scope? node with
  | none => simp
  | some scope =>
      by_cases hscope : scope < t.symbols.scopes.size
      · simp only [hscope, ↓reduceIte, Except.ok.injEq, Option.some.injEq]
        exact ⟨fun h => ⟨h, h ▸ hscope⟩, And.left⟩
      · simp only [hscope, ↓reduceIte, reduceCtorEq, Option.some.injEq, false_iff, not_and]
        rintro rfl
        exact hscope

/-- A pass that looks for a scope and enters it meets the fault. -/
theorem Tables.fault?_of_entry {body : ScopeId → Pass α} (h : t.entry node = .error fault)
    (hbody : ∀ scope, ¬scope < t.symbols.scopes.size →
      (body scope).fault? t = some (.unknownScope scope)) :
    (Pass.scopeOf node >>= body).fault? t = some fault := by
  unfold entry at h
  cases hscope : t.annotations.scope? node with
  | none =>
      simp only [hscope, Except.error.injEq] at h
      rw [← h]
      exact Pass.fault?_of_error (Pass.bind_of_error (Pass.scopeOf_of_none hscope))
  | some scope =>
      by_cases hlt : scope < t.symbols.scopes.size
      · simp [hscope, hlt] at h
      · simp only [hscope, hlt, ↓reduceIte, Except.error.injEq] at h
        rw [← h, ← hbody scope hlt, Pass.fault?, Pass.fault?,
          Pass.result_of_eq (Pass.bind_of_ok (Pass.scopeOf_of_some hscope))]

theorem Tables.visitedIn_congr (hentry : ∀ node, u.entry node = t.entry node)
    (henv : ∀ scope, u.envIn scope = t.envIn scope) (fs : List Function) :
    u.visitedIn fs = t.visitedIn fs ∧ u.blocked? fs = t.blocked? fs := by
  induction fs with
  | nil => exact ⟨rfl, rfl⟩
  | cons f rest ih =>
      simp only [visitedIn, blocked?, hentry, henv, ih.1, ih.2, and_self]

/-- A body gives no node a scope. -/
theorem scope?_of_body {env : Env} {result : Ty} {ss : List Stmt}
    (hu : (blockReading env result ss).replay t = .ok () u) (node : NodeId) :
    u.annotations.scope? node = t.annotations.scope? node := by
  refine Option.ext fun scope => ?_
  have hholds := (Reading.done_of_replay hu).holds node (.scope scope)
  refine hholds.trans (or_iff_left fun hmem => ?_)
  rw [facts_blockReading, List.mem_flatMap] at hmem
  obtain ⟨part, -, hfact⟩ := hmem
  simp [Part.facts] at hfact

theorem keys_blockReading (env : Env) (result : Ty) (ss : List Stmt) :
    (blockReading env result ss).keys =
      ((reachedBlock env.takes ss).map Part.id).flatMap visitKeys := by
  simp [Reading.keys, facts_blockReading, List.map_flatMap, List.flatMap_map, Part.facts, Fact.key,
    Fact.field, visitKeys]

theorem checkFunction_of_entry {f : Function} (h : t.entry f.id = .error fault) :
    (checkFunction f).fault? t = some fault := by
  have hset : Pass.setSignature (some f.signature) t =
      .ok () (t.withSignature (some f.signature)) := rfl
  rw [checkFunction, Pass.fault?, Pass.result_of_eq (Pass.bind_of_ok hset)]
  refine Tables.fault?_of_entry (t := t.withSignature (some f.signature)) h fun scope hscope => ?_
  rw [Pass.fault?_ensuring]
  exact Pass.fault?_within_of_not_lt hscope

theorem checkFunctions_writes (fs : List Function) (t : Tables) :
    Writes t (checkFunctions fs) (((t.visitedIn fs).map Part.id).flatMap visitKeys)
      (t.blocked? fs) := by
  induction fs generalizing t with
  | nil => exact .of_fault? rfl
  | cons f rest ih =>
      rw [checkFunctions, Tables.visitedIn, Tables.blocked?]
      cases hentry : t.entry f.id with
      | error fault =>
          exact .of_fault? (Pass.fault?_bind_of_some (checkFunction_of_entry hentry))
      | ok inner =>
          obtain ⟨hinner, hsize⟩ := Tables.entry_eq_ok_iff.mp hentry
          have hbody : Replays t (checkFunction f) ()
              (blockReading (t.envIn inner) f.resultType f.body) t.symbols.cleared :=
            checkFunction_replays_in hinner hsize fun _ => rfl
          rw [List.map_append, List.flatMap_append, ← keys_blockReading _ f.resultType]
          refine hbody.bind_writes fun u hu => ?_
          have hlater := ih (u.withSymbols t.symbols.cleared)
          have hsame : ∀ node, (u.withSymbols t.symbols.cleared).entry node = t.entry node := by
            intro node
            have hscope : (u.withSymbols t.symbols.cleared).annotations.scope? node =
                t.annotations.scope? node := scope?_of_body hu node
            rw [Tables.entry, hscope]
            rfl
          obtain ⟨hvisited, hblocked⟩ := Tables.visitedIn_congr hsame (fun _ => rfl) rest
          rwa [hvisited, hblocked] at hlater

theorem checkProgram_of_entry (c : Config) {p : Program} (h : t.entry p.id = .error fault) :
    (checkProgram c p).fault? t = some fault := by
  refine Tables.fault?_of_entry h fun scope hscope => ?_
  exact Pass.fault?_bind_of_some (Pass.fault?_within_of_not_lt hscope)

theorem checkProgram_writes (c : Config) {p : Program} {outer : ScopeId}
    (h : t.entry p.id = .ok outer) :
    Writes t (checkProgram c p) (((p.visitedFrom t).map Part.id).flatMap visitKeys)
      ((t.withSymbols (t.symbols.activate outer)).blocked? p.functions) := by
  obtain ⟨houter, hsize⟩ := Tables.entry_eq_ok_iff.mp h
  have hvisited : p.visitedFrom t =
      (t.withSymbols (t.symbols.activate outer)).visitedIn p.functions := by
    rw [Program.visitedFrom, h]
  have hbodies :=
    (checkFunctions_writes p.functions (t.withSymbols (t.symbols.activate outer))).bind
      (f := fun _ => checkEntryPoint c p.loc) fun _ _ => rfl
  have hwithin := hbodies.within hsize
  have hcounted := hwithin.bind
    (f := fun _ => do return (← get).diagnostics.size - t.diagnostics.size) fun _ _ => rfl
  rw [hvisited]
  exact (scopeOf_replays houter).bind_writes fun u hu => by
    cases hu
    exact hcounted

end

/-- The first fact in a series of visits that is not new is one that was known before, or it
is the type of a node that is visited again: its type is written ahead of the rest. -/
theorem firstRepeat_visitKeys_cases {seen : Key → Bool} {ids : List NodeId} {key : Key}
    (h : firstRepeat seen (ids.flatMap visitKeys) = some key) :
    (key.1 ∈ ids ∧ key.2 ≠ .scope ∧ seen key = true ∧
        (key.2 = .lvalue → seen (key.1, .type) = false)) ∨
      key.2 = .type ∧ ids.Duplicate key.1 := by
  induction ids generalizing seen with
  | nil => cases h
  | cons id rest ih =>
      cases htype : seen (id, .type) with
      | true =>
          obtain rfl : (id, .type) = key := by simpa [visitKeys, firstRepeat, htype] using h
          exact .inl ⟨List.mem_cons_self, by simp, htype, by simp⟩
      | false =>
          cases hlvalue : seen (id, .lvalue) with
          | true =>
              obtain rfl : (id, .lvalue) = key := by
                simpa [visitKeys, firstRepeat, htype, hlvalue] using h
              exact .inl ⟨List.mem_cons_self, by simp, hlvalue, fun _ => htype⟩
          | false =>
              let later : Key → Bool := fun other =>
                decide (other = (id, .lvalue)) || (decide (other = (id, .type)) || seen other)
              have hlater : firstRepeat later (rest.flatMap visitKeys) = some key := by
                simpa [visitKeys, firstRepeat, htype, hlvalue, later] using h
              obtain ⟨hmem, hfield, hknown, hfirst⟩ | ⟨hfield, hagain⟩ := ih hlater
              · have hearlier : key = (id, .lvalue) ∨ key = (id, .type) ∨ seen key = true := by
                  simpa [later] using hknown
                rcases hearlier with rfl | rfl | hseen
                · simp [later] at hfirst
                · exact .inr ⟨rfl, List.Mem.duplicate_cons_self hmem⟩
                · refine .inl ⟨List.mem_cons_of_mem id hmem, hfield, hseen, fun h => ?_⟩
                  have htypeless := hfirst h
                  simp only [later, Bool.or_eq_false_iff] at htypeless
                  exact htypeless.2.2
              · exact .inr ⟨hfield, hagain.duplicate_cons id⟩

/-- Why a check of the program from these tables can fail. -/
inductive Program.Obstacle (p : Program) (t : Tables) : Fault → Prop where
  | missing {node : NodeId} : node ∈ p.scopeIds → t.annotations.scope? node = none →
      Obstacle p t (.missing node .scope)
  | unknown {node : NodeId} {scope : ScopeId} : node ∈ p.scopeIds →
      t.annotations.scope? node = some scope → t.symbols.scopes.size ≤ scope →
        Obstacle p t (.unknownScope scope)
  | known {part : Part} {field : Field} : part ∈ p.visitedFrom t → field ≠ .scope →
      t.annotations.knows (part.id, field) = true → Obstacle p t (.rewritten part.id field)
  | again {node : NodeId} : ((p.visitedFrom t).map Part.id).Duplicate node →
      Obstacle p t (.rewritten node .type)

/-- A node that cannot be entered has no scope or one that was never made. -/
theorem Program.Obstacle.of_entry {p : Program} {t : Tables} {node : NodeId} {fault : Fault}
    (hnode : node ∈ p.scopeIds) (h : t.entry node = .error fault) : p.Obstacle t fault := by
  unfold Tables.entry at h
  cases hscope : t.annotations.scope? node with
  | none =>
      simp only [hscope, Except.error.injEq] at h
      exact h ▸ .missing hnode hscope
  | some scope =>
      by_cases hlt : scope < t.symbols.scopes.size
      · simp [hscope, hlt] at h
      · simp only [hscope, hlt, ↓reduceIte, Except.error.injEq] at h
        exact h ▸ .unknown hnode hscope (Nat.le_of_not_lt hlt)

theorem Tables.entry_of_blocked? {t : Tables} {fs : List Function} {fault : Fault}
    (h : t.blocked? fs = some fault) : ∃ f ∈ fs, t.entry f.id = .error fault := by
  induction fs with
  | nil => cases h
  | cons f rest ih =>
      rw [blocked?] at h
      cases hentry : t.entry f.id with
      | error found =>
          rw [hentry] at h
          exact ⟨f, List.mem_cons_self, hentry.trans (congrArg _ (Option.some.inj h))⟩
      | ok inner =>
          rw [hentry] at h
          obtain ⟨g, hg, hfault⟩ := ih h
          exact ⟨g, List.mem_cons_of_mem f hg, hfault⟩

theorem Program.Obstacle.of_firstRepeat {p : Program} {t : Tables} {key : Key}
    (h : firstRepeat t.annotations.knows (((p.visitedFrom t).map Part.id).flatMap visitKeys) =
      some key) : p.Obstacle t key.rewritten := by
  obtain ⟨hmem, hfield, hknown, -⟩ | ⟨hfield, hagain⟩ := firstRepeat_visitKeys_cases h
  · obtain ⟨part, hpart, hid⟩ := List.mem_map.mp hmem
    have hkey : (part.id, key.2) = key := Prod.ext hid rfl
    rw [Key.rewritten, ← hid]
    exact .known hpart hfield (hkey ▸ hknown)
  · rw [Key.rewritten, hfield]
    exact .again hagain

theorem obstacle_of_check {c : Config} {p : Program} {t : Tables} {fault : Fault}
    (h : (checkProgram c p).fault? t = some fault) : p.Obstacle t fault := by
  cases hentry : t.entry p.id with
  | error found =>
      rw [checkProgram_of_entry c hentry, Option.some.injEq] at h
      exact h ▸ .of_entry List.mem_cons_self hentry
  | ok outer =>
      rw [checkProgram_writes c hentry] at h
      obtain hwrite | ⟨-, hblocked⟩ := Option.or_eq_some_iff.mp h
      · obtain ⟨key, hkey, rfl⟩ := Option.map_eq_some_iff.mp hwrite
        exact .of_firstRepeat hkey
      · obtain ⟨f, hf, hfault⟩ := Tables.entry_of_blocked? hblocked
        exact .of_entry (List.mem_cons_of_mem _ (List.mem_map_of_mem hf)) hfault

/-- Registration stops at the first node that has a scope. -/
theorem registerProgram_fault? (p : Program) (t : Tables) :
    (registerProgram p).fault? t =
      (firstRepeat t.annotations.knows (p.scopeIds.map fun id => (id, .scope))).map
        Key.rewritten := by
  have hwrites := (registerProgram_replays p t).writes
  rw [p.keys_registering] at hwrites
  exact hwrites.trans (Option.or_none)

/-- A scope was there before, or a node comes twice. -/
theorem rewritten_of_register {p : Program} {t : Tables} {fault : Fault}
    (h : (registerProgram p).fault? t = some fault) :
    ∃ node ∈ p.scopeIds, fault = .rewritten node .scope ∧
      ((t.annotations.scope? node).isSome = true ∨ p.scopeIds.Duplicate node) := by
  have hinjective : (fun id : NodeId => ((id, .scope) : Key)).Injective :=
    fun id other hkey => congrArg Prod.fst hkey
  rw [registerProgram_fault?, firstRepeat_map hinjective, Option.map_map] at h
  obtain ⟨node, hnode, rfl⟩ := Option.map_eq_some_iff.mp h
  obtain ⟨before, after, hsplit, -, -, hseen⟩ := firstRepeat_eq_some_iff.mp hnode
  refine ⟨node, by simp [hsplit], rfl, hseen.symm.imp (fun hknown => ?_) fun hbefore => ?_⟩
  · exact Annotations.knows_scope ▸ hknown
  · rw [List.duplicate_iff_sublist, hsplit]
    exact (List.singleton_sublist.mpr hbefore).append
      (List.singleton_sublist.mpr List.mem_cons_self)

/-- Faults that neither pass can meet. -/
def Fault.outOfReach : Fault → Bool
  | noActiveScope _ | returnOutside _ => true
  | missing _ field => field ≠ .scope
  | rewritten _ _ | unknownScope _ => false

theorem Program.Obstacle.within_reach {p : Program} {t : Tables} {fault : Fault}
    (h : p.Obstacle t fault) :
    fault.outOfReach = false ∧ ∀ node, fault ≠ .rewritten node .scope := by
  cases h with
  | missing | unknown | again => exact ⟨rfl, nofun⟩
  | known _ hfield _ =>
      refine ⟨rfl, fun node h => hfield ?_⟩
      injection h

/-- Registration fails on a scope that is there already and on nothing else. Checking fails on a
missing scope, on one that was never made, or on a part that was annotated before, in the tables
or in the same check. -/
theorem passes_fail_only_on_obstacles (c : Config) (p : Program) (t : Tables) :
    ((registerProgram p).result t = .ok () ∨
        ∃ node ∈ p.scopeIds, (registerProgram p).result t = .error (.rewritten node .scope) ∧
          ((t.annotations.scope? node).isSome = true ∨ p.scopeIds.Duplicate node)) ∧
      ((∃ n, (checkProgram c p).result t = .ok n) ∨
        ∃ fault, (checkProgram c p).result t = .error fault ∧ p.Obstacle t fault) ∧
      (∀ fault, fault.outOfReach = true →
        (registerProgram p).result t ≠ .error fault ∧ (checkProgram c p).result t ≠ .error fault) ∧
      ∀ node, (checkProgram c p).result t ≠ .error (.rewritten node .scope) := by
  have hregister (fault : Fault) (h : (registerProgram p).result t = .error fault) :=
    rewritten_of_register (Pass.fault?_eq_some_iff.mpr h)
  have hcheck (fault : Fault) (h : (checkProgram c p).result t = .error fault) :=
    obstacle_of_check (Pass.fault?_eq_some_iff.mpr h)
  refine ⟨?_, ?_, fun fault hfault => ⟨fun h => ?_, fun h => ?_⟩, fun node h => ?_⟩
  · cases hrun : (registerProgram p).result t with
    | ok => exact .inl rfl
    | error fault =>
        obtain ⟨node, hnode, rfl, hcause⟩ := hregister fault hrun
        exact .inr ⟨node, hnode, rfl, hcause⟩
  · cases hrun : (checkProgram c p).result t with
    | ok n => exact .inl ⟨n, rfl⟩
    | error fault => exact .inr ⟨fault, rfl, hcheck fault hrun⟩
  · obtain ⟨node, -, rfl, -⟩ := hregister fault h
    cases hfault
  · rw [(hcheck fault h).within_reach.1] at hfault
    cases hfault
  · exact (hcheck _ h).within_reach.2 node rfl

/-- One of the literals of the program has been judged in advance. -/
def Tables.presumed : Tables :=
  Pass.after
    (do
      registerProgram halving
      Pass.put 3 (.lvalue false)) {}

theorem halving_stops_at_presumed :
    let run := (checkProgram {} halving).result Tables.presumed
    run = .error (.rewritten 3 .lvalue) ∧
      halving.Obstacle Tables.presumed (.rewritten 3 .lvalue) := by
  intro run
  have hrun : run = .error (.rewritten 3 .lvalue) := by decide +kernel
  obtain ⟨-, ⟨n, hn⟩ | ⟨fault, hfault, hobstacle⟩, -⟩ :=
    passes_fail_only_on_obstacles {} halving Tables.presumed
  · cases hrun.symm.trans hn
  · cases hrun.symm.trans hfault
    exact ⟨hrun, hobstacle⟩

end Asl
