import Asl.Proofs.Registry
import Asl.Proofs.Renumbering

/-!
# Checks that are interrupted

A check stops at the first visit of a node that was visited before. Up to there it does what the
check of the same tree does when all parts have numbers of their own: it reports the same, and of
each part it records the same under the number that the part has. Whether a place can be stored to
is looked up by number, but never before the node has been visited, and a second visit that could
change the answer is the one that stops the check.
-/

namespace Asl

/-- What a visit records, and of which node. -/
structure Visit where
  node : NodeId
  type : Ty
  lvalue : Bool

namespace Visit

def of (env : Env) (part : Part) : Visit := ⟨part.id, part.type env, part.lvalue env⟩

def facts (v : Visit) : List (NodeId × Fact) := [(v.node, .type v.type), (v.node, .lvalue v.lvalue)]

def renumber (ν : NodeId → NodeId) (v : Visit) : Visit := { v with node := ν v.node }

theorem field_ne_scope {vs : List Visit} {node : NodeId} {fact : Fact}
    (h : (node, fact) ∈ vs.flatMap facts) : fact.field ≠ .scope := by
  obtain ⟨v, -, hfact⟩ := List.mem_flatMap.mp h
  simp only [facts, List.mem_cons, List.not_mem_nil, or_false] at hfact
  rcases hfact with hfact | hfact <;> obtain ⟨-, rfl⟩ := Prod.mk.inj hfact <;> simp [Fact.field]

theorem map_key_facts (vs : List Visit) :
    (vs.flatMap facts).map (fun (node, fact) => fact.key node) =
      (vs.map node).flatMap Program.visitKeys := by
  simp [List.map_flatMap, List.flatMap_map, facts, Fact.key, Fact.field, Program.visitKeys]

/-- A visit begins with the type, so what comes before a type are whole visits. -/
theorem exists_take_of_facts {vs : List Visit} {before after : List (NodeId × Fact)}
    {node : NodeId} {fact : Fact} (h : vs.flatMap facts = before ++ (node, fact) :: after)
    (hfact : fact.field = .type) :
    ∃ k v, vs[k]? = some v ∧ v.node = node ∧ before = (vs.take k).flatMap facts := by
  induction vs generalizing before with
  | nil => simp at h
  | cons v rest ih =>
      have hsplit : (v.node, Fact.type v.type) :: (v.node, .lvalue v.lvalue) :: rest.flatMap facts =
          before ++ (node, fact) :: after := h
      match before with
      | [] =>
          obtain ⟨hhead, -⟩ := List.cons.inj hsplit
          exact ⟨0, v, rfl, congrArg Prod.fst hhead, rfl⟩
      | [_] =>
          obtain ⟨-, hrest⟩ := List.cons.inj hsplit
          obtain ⟨hhead, -⟩ := List.cons.inj hrest
          obtain ⟨-, rfl⟩ := Prod.mk.inj hhead
          cases hfact
      | _ :: _ :: before =>
          obtain ⟨htype, hrest⟩ := List.cons.inj hsplit
          obtain ⟨hlvalue, hrest⟩ := List.cons.inj hrest
          obtain ⟨k, w, hw, hnode, hbefore⟩ := ih hrest
          refine ⟨k + 1, w, hw, hnode, ?_⟩
          rw [← htype, ← hlvalue, hbefore]
          rfl

end Visit

/-- The first tables, with what some visits record of their nodes. -/
structure Annotations.After (a₀ : Annotations) (vs : List Visit) (a : Annotations) : Prop where
  holds : ∀ node fact,
    a.Holds node fact ↔ a₀.Holds node fact ∨ (node, fact) ∈ vs.flatMap Visit.facts
  noBlank : a.NoBlank

namespace Annotations

theorem Covers.knows_iff {a : Annotations} {scopes visits : List NodeId}
    (h : a.Covers scopes visits) (key : Key) :
    a.knows key = true ↔
      key ∈ scopes.map (fun id => (id, Field.scope)) ++ visits.flatMap Program.visitKeys := by
  obtain ⟨node, field⟩ := key
  cases field with
  | scope => simp [knows_scope, h.scope, Program.visitKeys]
  | type => simp [knows_type, h.type, Program.visitKeys]
  | lvalue => simp [knows_lvalue, h.lvalue, Program.visitKeys]

theorem Covers.noBlank {a : Annotations} {scopes visits : List NodeId}
    (h : a.Covers scopes visits) : a.NoBlank := by
  intro node hnode
  obtain hscope | hvisit := (h.record node).mp hnode
  · exact ⟨.scope, knows_scope.trans ((h.scope node).mpr hscope)⟩
  · exact ⟨.type, knows_type.trans ((h.type node).mpr hvisit)⟩

namespace After

variable {a₀ a : Annotations} {vs : List Visit}

theorem knows_iff (h : a₀.After vs a) (key : Key) :
    a.knows key = true ↔
      a₀.knows key = true ∨ key ∈ (vs.map Visit.node).flatMap Program.visitKeys := by
  obtain ⟨node, field⟩ := key
  rw [← Visit.map_key_facts, List.mem_map]
  simp only [knows_iff_holds, h.holds, and_or_left, exists_or]
  refine or_congr_right ⟨?_, ?_⟩
  · rintro ⟨fact, rfl, hfact⟩
    exact ⟨_, hfact, rfl⟩
  · rintro ⟨⟨other, fact⟩, hfact, hkey⟩
    obtain ⟨rfl, rfl⟩ := Prod.mk.inj hkey
    exact ⟨fact, rfl, hfact⟩

theorem covers (h : a₀.After vs a) {scopes : List NodeId} (h₀ : a₀.Covers scopes []) :
    a.Covers scopes (vs.map Visit.node) := by
  refine covers_of_knows (fun key => ?_) h.noBlank
  rw [h.knows_iff, h₀.knows_iff]
  simp

theorem scope?_eq (h : a₀.After vs a) (node : NodeId) : a.scope? node = a₀.scope? node := by
  refine Option.ext fun id => (h.holds node (.scope id)).trans (or_iff_left fun hfact => ?_)
  exact Visit.field_ne_scope hfact rfl

theorem visit (h : a₀.After vs a) {v : Visit} (hv : v ∈ vs) :
    a.type? v.node = some v.type ∧ a.lvalue? v.node = some v.lvalue := by
  constructor
  · refine (h.holds v.node (.type v.type)).mpr (.inr (List.mem_flatMap.mpr ⟨v, hv, ?_⟩))
    simp [Visit.facts]
  · refine (h.holds v.node (.lvalue v.lvalue)).mpr (.inr (List.mem_flatMap.mpr ⟨v, hv, ?_⟩))
    simp [Visit.facts]

end After

end Annotations

namespace Program

def visits (p : Program) : List Visit :=
  p.functions.flatMap fun f => (reachedBlock (p.callable f) f.body).map (Visit.of (p.env f))

theorem map_node_visits (p : Program) : p.visits.map Visit.node = p.visitedIds := by
  have hnode (env : Env) : Visit.node ∘ Visit.of env = Part.id := rfl
  simp only [visits, visitedIds, visited, List.map_flatMap, List.map_map, hnode]

theorem facts_eq_visits (p : Program) (c : Config) :
    (p.bodiesReading c).facts = p.visits.flatMap Visit.facts := by
  simp only [facts_bodiesReading, visits, List.flatMap_assoc, List.flatMap_map]
  rfl

theorem visits_renumber (ν : NodeId → NodeId) (p : Program) :
    (p.renumber ν).visits = p.visits.map (Visit.renumber ν) := by
  have hof (f : Function) :
      Visit.of (p.env f) ∘ Part.relabel (.ofNumbers ν) = Visit.renumber ν ∘ Visit.of (p.env f) := by
    have hnames : (p.env f).Renames (Relabelling.ofNumbers ν).name (p.env f) := fun _ => rfl
    funext part
    simp [Visit.of, Visit.renumber, part.type_relabel hnames, part.lvalue_relabel hnames]
  simp only [visits, functions_renumber, List.flatMap_map, callable_renumber, env_renumber,
    reached_renumber, List.map_map, List.map_flatMap, hof]

/-- Where nothing has been visited before, the first repeat is one of visits. -/
theorem firstRepeat_bodies {p : Program} {t : Tables} (h : t.annotations.Covers p.scopeIds [])
    (c : Config) :
    firstRepeat t.annotations.knows (p.bodiesReading c).keys =
      (firstRepeat (fun _ => false) p.visitedIds).map fun id => (id, .type) := by
  have htype (id : NodeId) : t.annotations.knows (id, .type) = false := by
    simpa [Annotations.knows_type] using h.type id
  have hlvalue (id : NodeId) : t.annotations.knows (id, .lvalue) = false := by
    simpa [Annotations.knows_lvalue] using h.lvalue id
  rw [keys_bodiesReading, firstRepeat_visitKeys _ fun id => (hlvalue id).trans (htype id).symm]
  simp only [htype]

namespace SameTree

variable {p p' : Program}

theorem visits (h : p.SameTree p') :
    p.visits.map (Visit.renumber fun _ => 0) = p'.visits.map (Visit.renumber fun _ => 0) := by
  rw [← visits_renumber, ← visits_renumber, h]

theorem found (h : p.SameTree p') (c : Config) :
    (p.bodiesReading c).found = (p'.bodiesReading c).found := by
  have hfound (es : Reading) : Reading.found (es.map (Event.relabel .unnumbered)) = es.found := by
    have hevent : Event.found? ∘ Event.relabel .unnumbered = Event.found? := by
      funext e
      cases e with
      | write => rfl
      | report d => exact congrArg some (congrFun Diagnostic.rename_id d)
    rw [Reading.found, List.filterMap_map, hevent]
    rfl
  rw [← hfound, h.bodiesReading, hfound]

end SameTree

end Program

namespace Program

variable {p p' : Program} {c : Config} {t u : Tables}

theorem after_of_replay {es : Reading} {vs : List Visit} (h : es.replay t = .ok () u)
    (hfacts : es.facts = vs.flatMap Visit.facts) (hblank : t.annotations.NoBlank) :
    t.annotations.After vs u.annotations := by
  have hdone := Reading.done_of_replay h
  exact ⟨hfacts ▸ hdone.holds, hdone.noBlank hblank⟩

/-- A fault is met at the second visit of a node, and until then nothing is amiss. -/
theorem interrupted (h : t.annotations.Covers p.scopeIds []) {fault : Fault}
    (hrun : (p.bodiesReading c).replay t = .error fault u) :
    ∃ k id, p.visitedIds[k]? = some id ∧ id ∈ p.visitedIds.take k ∧ fault = .rewritten id .type ∧
      t.annotations.After (p.visits.take k) u.annotations ∧
        u.diagnostics.toList <+: t.diagnostics.toList ++ (p.bodiesReading c).found := by
  obtain ⟨before, id, fact, after, hsplit, hbefore, hknown, hfault⟩ :=
    Reading.exists_split_of_replay_eq_error hrun
  have hfield : fact.field = .type := by
    obtain ⟨-, v, hv⟩ | ⟨key, hkey, v, hv⟩ := (p.bodiesReading c).replay_cases t
    · rw [hrun] at hv
      cases hv
    · rw [firstRepeat_bodies h] at hkey
      obtain ⟨other, -, rfl⟩ := Option.map_eq_some_iff.mp hkey
      rw [hrun, hfault] at hv
      injection hv with hv
      injection hv
  have hfacts : p.visits.flatMap Visit.facts =
      before.facts ++ (id, fact) :: Reading.facts after := by
    rw [← p.facts_eq_visits c, hsplit]
    simp
  obtain ⟨k, v, hv, rfl, htake⟩ := Visit.exists_take_of_facts hfacts hfield
  have hafter := after_of_replay hbefore htake h.noBlank
  refine ⟨k, v.node, ?_, ?_, hfault.trans (by rw [hfield]), hafter, ?_⟩
  · rw [← p.map_node_visits, List.getElem?_map, hv]
    rfl
  · have hcovers := hafter.covers h
    rw [Fact.key, hfield, Annotations.knows_type, hcovers.type, List.map_take,
      p.map_node_visits] at hknown
    exact hknown
  · rw [(Reading.done_of_replay hbefore).found, hsplit]
    refine ⟨Reading.found after, ?_⟩
    simp

/-- What two tables say of the parts that two programs visit first. -/
structure AgreesUpTo (p p' : Program) (k : Nat) (a a' : Annotations) : Prop where
  covers : a.Covers p.scopeIds (p.visitedIds.take k)
  scope : ∀ node, a.scope? node = a'.scope? node
  visit : List.Forall₂ (fun id id' => a.type? id = a'.type? id' ∧ a.lvalue? id = a'.lvalue? id')
    (p.visitedIds.take k) (p'.visitedIds.take k)

theorem SameTree.agreesUpTo (htree : p.SameTree p') {a₀ a a' : Annotations}
    (h₀ : a₀.Covers p.scopeIds []) {k : Nat} (h : a₀.After (p.visits.take k) a)
    (h' : a₀.After p'.visits a') : p.AgreesUpTo p' k a a' := by
  have hids (q : Program) : q.visitedIds.take k = (q.visits.take k).map Visit.node := by
    rw [List.map_take, q.map_node_visits]
  have hsame : List.Forall₂ (fun v v' => v.renumber (fun _ => 0) = v'.renumber fun _ => 0)
      (p.visits.take k) (p'.visits.take k) := by
    have heq : (p.visits.take k).map (Visit.renumber fun _ => 0) =
        (p'.visits.take k).map (Visit.renumber fun _ => 0) := by
      rw [List.map_take, List.map_take, htree.visits]
    rwa [← List.forall₂_eq_eq_eq, List.forall₂_map_left_iff, List.forall₂_map_right_iff] at heq
  refine ⟨hids p ▸ h.covers h₀, fun node => (h.scope?_eq node).trans (h'.scope?_eq node).symm, ?_⟩
  rw [hids p, hids p', List.forall₂_map_left_iff, List.forall₂_map_right_iff]
  rw [List.forall₂_iff_zip] at hsame ⊢
  refine ⟨hsame.1, fun {v v'} hmem => ?_⟩
  obtain ⟨hv, hv'⟩ := List.of_mem_zip hmem
  obtain ⟨htype, hlvalue⟩ := h.visit hv
  obtain ⟨htype', hlvalue'⟩ := h'.visit (List.mem_of_mem_take hv')
  obtain ⟨-, hsametype, hsamelvalue⟩ := Visit.mk.inj (hsame.2 hmem)
  rw [htype, htype', hlvalue, hlvalue', hsametype, hsamelvalue]
  exact ⟨rfl, rfl⟩

/-- What registration leaves for the check. -/
theorem exists_ready (hscopes : p.scopeIds.Nodup) :
    ∃ t, registerProgram p {} = .ok () t ∧ Registered p t ∧ t.symbols.stack = [] ∧
      t.annotations.Covers p.scopeIds [] := by
  obtain ⟨u, hu, hrun⟩ := p.exists_registered hscopes
  exact ⟨_, hrun, registered_of_registering (t := {}) hu, rfl, (registry_of_replay hu).annotated⟩

theorem exists_checked (hregistered : Registered p t) (hstack : t.symbols.stack = [])
    (h : t.annotations.Covers p.scopeIds []) (hvisits : p.visitedIds.Nodup) (c : Config) :
    ∃ u, checkProgram c p t = .ok (p.bodiesReading c).found.length u ∧
      t.annotations.After p.visits u.annotations ∧
        u.diagnostics.toList = t.diagnostics.toList ++ (p.bodiesReading c).found := by
  have hnone : firstRepeat (fun _ => false) p.visitedIds = none :=
    firstRepeat_eq_none_iff.mpr ⟨hvisits, fun _ _ => rfl⟩
  obtain ⟨-, u, hu, hrun⟩ | ⟨key, hkey, -⟩ := (checkProgram_replays c hregistered hstack).ends
  · have hafter := after_of_replay hu (p.facts_eq_visits c) h.noBlank
    exact ⟨_, hrun, hafter, (Reading.done_of_replay hu).found⟩
  · rw [firstRepeat_bodies h, hnone] at hkey
    cases hkey

end Program

/-- A tree whose scopes have numbers of their own is checked after the same registration as the
tree with all numbers apart. A check that stops has found the beginning of what that one finds
and recorded the same of the parts visited so far; a check that comes to its end has found and
recorded the same altogether. -/
theorem interrupted_checks_leave_prefixes (p : Program) (hscopes : p.scopeIds.Nodup)
    (c : Config) :
    (∃ p', p.SameTree p' ∧ p'.partIds.Nodup) ∧
      ∀ p', p.SameTree p' → p'.partIds.Nodup →
        p.visited.map (Part.relabel .unnumbered) = p'.visited.map (Part.relabel .unnumbered) ∧
          ∃ t n t', registerProgram p {} = .ok () t ∧ registerProgram p' {} = .ok () t ∧
            checkProgram c p' t = .ok n t' ∧
              ((∃ u, checkProgram c p t = .ok n u ∧
                  u.diagnostics.toList = t'.diagnostics.toList ∧
                    p.AgreesUpTo p' p.visited.length u.annotations t'.annotations) ∨
                ∃ k id u, checkProgram c p t = .error (.rewritten id .type) u ∧
                  p.visitedIds[k]? = some id ∧ id ∈ p.visitedIds.take k ∧
                    u.diagnostics.toList <+: t'.diagnostics.toList ∧
                      p.AgreesUpTo p' k u.annotations t'.annotations) := by
  refine ⟨p.exists_sameTree_nodup, fun p' htree hparts => ⟨htree.visited, ?_⟩⟩
  obtain ⟨t, hregister, hregistered, hstack, hcovers⟩ := p.exists_ready hscopes
  obtain ⟨s, hregister', hregistered', -, hcovers'⟩ := p'.exists_ready (htree.scopeIds ▸ hscopes)
  obtain rfl : t = s := by
    rw [htree.register, hregister'] at hregister
    cases hregister
    rfl
  have hvisits' := p'.visitedIds_sublist.nodup hparts
  obtain ⟨t', hrun', hafter', hfound'⟩ :=
    Program.exists_checked hregistered' hstack hcovers' hvisits' c
  rw [← htree.found c] at hrun' hfound'
  refine ⟨t, _, t', hregister, hregister', hrun', ?_⟩
  have hruns := checkProgram_replays c hregistered hstack
  unfold Pass.Replays at hruns
  cases hreplay : (p.bodiesReading c).replay t with
  | ok _ u =>
      rw [hreplay] at hruns
      have hafter := Program.after_of_replay hreplay (p.facts_eq_visits c) hcovers.noBlank
      have hlength : p.visits.length = p.visited.length := by
        simpa [Program.visitedIds] using congrArg List.length p.map_node_visits
      rw [← p.visits.take_length, hlength] at hafter
      refine .inl ⟨_, hruns, ?_, htree.agreesUpTo hcovers hafter hafter'⟩
      exact (Reading.done_of_replay hreplay).found.trans hfound'.symm
  | error fault u =>
      rw [hreplay] at hruns
      obtain ⟨s, hrun⟩ := hruns
      obtain ⟨k, id, hid, hmem, rfl, hafter, hfound⟩ := Program.interrupted hcovers hreplay
      refine .inr ⟨k, id, _, hrun, hid, hmem, ?_, htree.agreesUpTo hcovers hafter hafter'⟩
      rwa [← hfound'] at hfound

/-- A program that writes an unknown name and then a number. -/
def writing : Program :=
  let build : Build Program := do
    let first ← Build.write (← Build.var "x")
    let second ← Build.write (← Build.lit (.int 1))
    let start ← Build.function "main" [] none [] [first, second]
    Build.program [start]
  (build.run {}).1

/-- The number has the node of the name. -/
def writingTwice : Program := writing.renumber fun id => if id = 2 then 0 else id

theorem writingTwice_is_interrupted :
    ∃ t u n t', registerProgram writingTwice {} = .ok () t ∧
      checkProgram {} writingTwice t = .error (.rewritten 0 .type) u ∧
        checkProgram {} writing t = .ok n t' ∧
          u.diagnostics.toList <+: t'.diagnostics.toList ∧
            writingTwice.AgreesUpTo writing 2 u.annotations t'.annotations := by
  obtain ⟨-, hall⟩ := interrupted_checks_leave_prefixes writingTwice (by decide) {}
  obtain ⟨-, t, n, t', hregister, -, hrun', hends⟩ := hall writing rfl (by decide)
  have hids : writingTwice.visitedIds = [1, 0, 0] := by decide
  have hfault : (analyse writingTwice {}).toOption.isNone = true := by decide +kernel
  obtain ⟨u, hrun, -⟩ | ⟨k, id, u, hrun, hid, hmem, hfound, hagree⟩ := hends
  · have hanalysis : analysis {} writingTwice {} = .ok n u := by
      simp [analysis, bind, EStateM.bind, hregister, hrun]
    rw [analyse, hanalysis] at hfault
    cases hfault
  · rw [hids] at hid hmem
    obtain ⟨rfl, rfl⟩ : k = 2 ∧ id = 0 := by
      obtain _ | _ | _ | k := k
      · simp at hmem
      · obtain rfl : 0 = id := Option.some.inj hid
        simp at hmem
      · exact ⟨rfl, (Option.some.inj hid).symm⟩
      · simp at hid
    exact ⟨t, u, n, t', hregister, hrun, hrun', hfound, hagree⟩

end Asl
