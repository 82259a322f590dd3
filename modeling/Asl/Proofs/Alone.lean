import Asl.Proofs.Guarantee
import Asl.Proofs.Replacement

/-!
# Visits by themselves

An expression, a target or a call may be checked on tables with any past, whatever scopes are
active there. The visit comes to its end as long as nothing is known beforehand of the parts that
it reaches and no two of them share a node. Then it leaves the complaints of its reading, and what
the reading says of these parts and of no other node.
-/

namespace Asl

/-- No node comes twice, and none of them has been visited. -/
structure Annotations.Untouched (a : Annotations) (nodes : List NodeId) : Prop where
  nodup : nodes.Nodup
  type : ∀ node ∈ nodes, a.type? node = none
  lvalue : ∀ node ∈ nodes, a.lvalue? node = none

/-- The meanings of names under the scopes that are active. -/
abbrev Tables.env (t : Tables) : Env := t.symbols.find?

/-- The same has been recorded of a node, if anything. -/
def Annotations.SameAt (a b : Annotations) (node : NodeId) : Prop :=
  a.type? node = b.type? node ∧ a.lvalue? node = b.lvalue? node

theorem Annotations.untouched_empty {nodes : List NodeId} (h : nodes.Nodup) :
    (⟨∅⟩ : Annotations).Untouched nodes :=
  ⟨h, fun node _ => by rw [type?, get?_empty, Option.bind_none],
    fun node _ => by rw [lvalue?, get?_empty, Option.bind_none]⟩

namespace Annotations.Untouched

variable {a : Annotations} {nodes others : List NodeId}

theorem sublist (h : a.Untouched nodes) (hsub : others.Sublist nodes) : a.Untouched others :=
  ⟨hsub.nodup h.nodup, fun node hnode => h.type node (hsub.subset hnode),
    fun node hnode => h.lvalue node (hsub.subset hnode)⟩

theorem ne_last {last : NodeId} (h : a.Untouched (nodes ++ [last])) {node : NodeId}
    (hnode : node ∈ nodes) : node ≠ last := by
  rintro rfl
  exact List.disjoint_of_nodup_append h.nodup hnode (List.mem_singleton_self _)

/-- Each node is visited for the first time. -/
theorem firstRepeat_eq_none (h : a.Untouched nodes) :
    firstRepeat a.knows (nodes.flatMap Program.visitKeys) = none := by
  refine firstRepeat_eq_none_iff.mpr ⟨?_, fun key hkey => ?_⟩
  · have hnone : firstRepeat (fun _ => false) (nodes.flatMap Program.visitKeys) = none := by
      rw [firstRepeat_visitKeys _ fun _ => rfl, Option.map_eq_none_iff, firstRepeat_eq_none_iff]
      exact ⟨h.nodup, fun _ _ => rfl⟩
    exact (firstRepeat_eq_none_iff.mp hnone).1
  · obtain ⟨node, hnode, hmem⟩ := List.mem_flatMap.mp hkey
    rcases List.mem_cons.mp hmem with rfl | hmem
    · rw [knows_type, h.type node hnode, Option.isSome_none]
    · obtain rfl := List.mem_singleton.mp hmem
      rw [knows_lvalue, h.lvalue node hnode, Option.isSome_none]

end Annotations.Untouched

/-- What the visit of some parts has done to the tables. -/
structure Tables.Visited (env : Env) (parts : List Part) (found : List Diagnostic)
    (t u : Tables) : Prop where
  found : u.diagnostics.toList = t.diagnostics.toList ++ found
  recorded : ∀ part ∈ parts, part.Recorded u.annotations env
  spared : ∀ node, node ∉ parts.map Part.id → u.annotations.SameAt t.annotations node

section

variable {env : Env} {t u v : Tables}

/-- Only the parts that are visited are written about. -/
theorem notMem_facts_of_notMem {parts : List Part} {node : NodeId} (h : node ∉ parts.map Part.id)
    (fact : Fact) : (node, fact) ∉ parts.flatMap (Part.facts env) := by
  intro hmem
  obtain ⟨part, hpart, hfact⟩ := List.mem_flatMap.mp hmem
  exact h (Part.eq_id_of_mem_facts hfact ▸ List.mem_map_of_mem hpart)

theorem Reading.Done.visited {es : Reading} {parts : List Part} (h : Reading.Done es t u)
    (hfacts : es.facts = parts.flatMap (Part.facts env)) :
    Tables.Visited env parts es.found t u := by
  refine ⟨h.found, fun part hpart => ?_, fun node hnode => ?_⟩
  · have hwritten (fact : NodeId × Fact) (hfact : fact ∈ part.facts env) : fact ∈ es.facts :=
      hfacts ▸ List.mem_flatMap.mpr ⟨part, hpart, hfact⟩
    constructor
    · exact (h.holds part.id (.type _)).mpr (.inr (hwritten _ (by simp [Part.facts])))
    · exact (h.holds part.id (.lvalue _)).mpr (.inr (hwritten _ (by simp [Part.facts])))
  · have hsame (fact : Fact) : u.annotations.Holds node fact ↔ t.annotations.Holds node fact :=
      (h.holds node fact).trans (or_iff_left (hfacts ▸ notMem_facts_of_notMem hnode fact))
    exact ⟨Option.ext fun type => hsame (.type type), Option.ext fun place => hsame (.lvalue place)⟩

/-- A pass that reads some of the parts that are new comes to its end. -/
theorem Pass.Reads.exists_visited {pass : Pass α} {a : α} {es : Reading} {parts all : List Part}
    (h : Pass.Reads t.symbols [] pass a es) (hfacts : es.facts = parts.flatMap (Part.facts env))
    (hsub : parts.Sublist all) (hnew : t.annotations.Untouched (all.map Part.id)) :
    ∃ u, pass t = .ok a u ∧ Tables.Visited env parts es.found t u := by
  have hreplays : Pass.Replays t pass a es t.symbols := h t rfl (by simp)
  have hfresh := hnew.sublist (hsub.map Part.id)
  have hkeys : es.keys = (parts.map Part.id).flatMap Program.visitKeys := by
    simp [Reading.keys, hfacts, List.map_flatMap, List.flatMap_map, Part.facts, Fact.key,
      Fact.field, Program.visitKeys]
  obtain ⟨-, u, hu, hrun⟩ | ⟨key, hkey, -⟩ := hreplays.ends
  · obtain ⟨hfound, hrecorded, hspared⟩ := (Reading.done_of_replay hu).visited hfacts
    exact ⟨_, hrun, hfound, hrecorded, hspared⟩
  · rw [hkeys, hfresh.firstRepeat_eq_none] at hkey
    cases hkey

theorem Expr.exists_visited (e : Expr) (hnew : t.annotations.Untouched e.ids) :
    ∃ u, checkExpr e t = .ok (e.type t.env) u ∧
      Tables.Visited t.env (e.reached t.env.takes) (e.reading t.env).found t u :=
  (checkExpr_reads (fun _ => rfl) e []).exists_visited (e.facts_reading t.env)
    (e.reached_sublist t.env.takes) hnew

theorem exists_visited_exprs (es : List Expr) (hnew : t.annotations.Untouched (exprIds es)) :
    ∃ u, checkExprs es t = .ok (es.map (Expr.type t.env)) u ∧
      Tables.Visited t.env (reachedExprs t.env.takes es) (exprsReading t.env es).found t u :=
  Pass.Reads.exists_visited (checkExprs_reads (fun _ => rfl) es) (facts_exprsReading t.env es)
    (reachedExprs_sublist t.env.takes es) hnew

theorem Target.exists_visited (place : Target)
    (hnew : t.annotations.Untouched ((place.reached everyCall).map Part.id)) :
    ∃ u, checkTarget place t = .ok (place.type t.env) u ∧
      Tables.Visited t.env (place.reached t.env.takes) (place.reading t.env).found t u :=
  Pass.Reads.exists_visited (checkTarget_reads (fun _ => rfl) place) (place.facts_reading t.env)
    (place.reached_sublist t.env.takes) hnew

/-- A call by itself asks nothing of the function around it. -/
theorem exists_visited_call (loc : Location) (f : Ident) (args : List Expr)
    (hnew : t.annotations.Untouched (f.id :: exprIds args)) :
    let call : Stmt := .call loc f args
    ∃ u, checkStmt call t = .ok () u ∧
      Tables.Visited t.env (call.reached t.env.takes) (call.reading t.env .void).found t u :=
  Pass.Reads.exists_visited (checkCall_reads (fun _ => rfl) .void loc f args)
    (Stmt.facts_reading t.env .void _) (Stmt.reached_sublist t.env.takes _) hnew

namespace Tables.Visited

variable {common extra extra' : List Part} {found found' : List Diagnostic}

/-- Two visits from the same tables agree but for the parts that only one of them reaches. -/
theorem sameAt (hu : Visited env (common ++ extra) found t u)
    (hv : Visited env (common ++ extra') found' t v) {node : NodeId}
    (hnode : node ∉ extra.map Part.id) (hnode' : node ∉ extra'.map Part.id) :
    u.annotations.SameAt v.annotations node := by
  by_cases hmem : node ∈ common.map Part.id
  · obtain ⟨part, hpart, rfl⟩ := List.mem_map.mp hmem
    obtain ⟨htype, hlvalue⟩ := hu.recorded part (List.mem_append_left _ hpart)
    obtain ⟨htype', hlvalue'⟩ := hv.recorded part (List.mem_append_left _ hpart)
    exact ⟨htype.trans htype'.symm, hlvalue.trans hlvalue'.symm⟩
  · obtain ⟨htype, hlvalue⟩ := hu.spared node (by simp_all)
    obtain ⟨htype', hlvalue'⟩ := hv.spared node (by simp_all)
    exact ⟨htype.trans htype'.symm, hlvalue.trans hlvalue'.symm⟩

end Tables.Visited

end

end Asl
