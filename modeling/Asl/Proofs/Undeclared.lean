import Asl.Proofs.Complaints
import Asl.Proofs.Independence
import Asl.Proofs.Meanings
import Asl.Proofs.Occurrences

/-!
# Uses of undeclared names

A name is looked up where it occurs, and it is reported there exactly if nothing in the program
gives it a meaning. The occurrences that are not looked up are arguments of calls for a value whose
callee does not take so many, at whatever depth.
-/

namespace Asl

def Complaint.isUndeclared : Complaint → Bool
  | undeclared _ => true
  | _ => false

/-- Where a name is looked up. -/
def Site.isName : Site → Bool
  | name _ => true
  | _ => false

/-- The reports on names that mean nothing in a body. -/
def Program.unknowns (p : Program) (f : Function) : Tally where
  name x := complainIf (!p.knows f x.name) (.undeclared x.name) x.loc

/-- Only a name that means nothing is reported when it is looked up. -/
theorem Program.found_names (p : Program) (f : Function) (sites : List Site) :
    (sites.filter Site.isName).flatMap (Site.found (p.env f) f.resultType) =
      sites.flatMap (Site.tally (p.unknowns f)) := by
  induction sites with
  | nil => rfl
  | cons site rest ih =>
      cases site with
      | name x =>
          have hname : (Site.name x).found (p.env f) f.resultType =
              complainIf (!p.knows f x.name) (.undeclared x.name) x.loc := by
            rw [Site.found, Rule.name, p.isNone_env]
          rw [List.filter_cons_of_pos rfl, List.flatMap_cons, hname, ih]
          rfl
      | _ => exact ih

/-- A run annotates just those occurrences in a body that it reaches. -/
theorem Program.Outcome.isSome_occurrence {p : Program} {c : Config} {t : Tables}
    (h : p.Outcome c t) (hparts : p.partIds.Nodup) {f : Function} (hf : f ∈ p.functions)
    {o : Occurrence} (ho : o ∈ blockOccurrences f.body) :
    (t.annotations.type? o.part.id).isSome = o.reached (p.callable f) ∧
      (t.annotations.lvalue? o.part.id).isSome = o.reached (p.callable f) := by
  have hbody : (blockOccurrences f.body).map Occurrence.part = f.parts := by
    rw [map_part_eq_reachedOf, reachedOf_blockOccurrences, Function.parts]
  have hids : (((blockOccurrences f.body).map Occurrence.part).map Part.id).Nodup :=
    hbody ▸ Program.nodup_ids_parts hparts hf
  have hreached := part_mem_reachedOf_iff (p.callable f) hids ho
  rw [reachedOf_blockOccurrences] at hreached
  have hpart : o.part ∈ f.parts := hbody ▸ List.mem_map_of_mem ho
  obtain ⟨htype, hlvalue⟩ := h.part_iff hparts hf hpart
  constructor
  · rw [Bool.eq_iff_iff, Option.isSome_iff_exists, ← hreached]
    simp [htype]
  · rw [Bool.eq_iff_iff, Option.isSome_iff_exists, ← hreached]
    simp [hlvalue]

/-- A run reports as undeclared, in the order of the traversal, just those names among all that it
visits in a body which the function does not declare and no function of the program has. It visits
what does not stand in the arguments of a call for a value whose callee takes another number of
them or means no function. -/
theorem undeclared_uses_are_reported (p : Program) (c : Config) (hscopes : p.scopeIds.Nodup)
    (hparts : p.partIds.Nodup) :
    ∃ t, analyse p c = .ok t ∧
      (t.diagnostics.toList.filter fun d => d.complaint.isUndeclared) =
        (p.functions.flatMap fun f => (reachedOf (p.callable f) (blockOccurrences f.body)).flatMap
          (Part.tally (p.unknowns f))) ∧
      ∀ f ∈ p.functions, ∀ o ∈ blockOccurrences f.body,
        (t.annotations.type? o.part.id).isSome = o.reached (p.callable f) ∧
          (t.annotations.lvalue? o.part.id).isSome = o.reached (p.callable f) := by
  obtain ⟨t, ht, houtcome⟩ := Program.exists_outcome c hscopes hparts
  refine ⟨t, ht, ?_, fun f hf o ho => houtcome.isSome_occurrence hparts hf ho⟩
  have hmine {a : Annotations} {declared : Ty} {site : Site} {complaint : Complaint}
      (h : site.Blames a declared complaint) : complaint.isUndeclared = site.isName := by
    cases h <;> rfl
  rw [houtcome.filter_diagnostics (fun _ => rfl) (fun _ => rfl) hmine]
  simp only [p.found_names, Function.tally_sites, reachedOf_blockOccurrences]

/-- In the body of the start, `g` has no meaning, and `later` takes one argument but is given two
where `x` and `v` stand. -/
def overlooked : Program :=
  let build : Build Program := do
    let x ← Build.param "x" (.basic .int)
    let first ← Build.write (← Build.call "g" [← Build.var "u"])
    Build.moveTo 2 1
    let second ← Build.write (← Build.call "later" [← Build.var "x", ← Build.var "v"])
    Build.moveTo 3 1
    let third ← Build.write (← Build.call "later" [← Build.var "w"])
    let start ← Build.function "main" [] none [] [first, second, third]
    let later ← Build.function "later" [x] (some (.basic .int)) []
      [← Build.ret (some (← Build.var "x"))]
    Build.program [start, later]
  (build.run {}).1

theorem overlooked_reports :
    ∃ t, analyse overlooked {} = .ok t ∧
      (t.diagnostics.toList.filter fun d => d.complaint.isUndeclared) =
        [⟨.undeclared "g", ⟨1, 1, none⟩⟩, ⟨.undeclared "w", ⟨3, 1, none⟩⟩] ∧
      ∀ f ∈ overlooked.functions, ∀ o ∈ blockOccurrences f.body,
        (t.annotations.type? o.part.id).isSome = o.reached (overlooked.callable f) := by
  obtain ⟨t, ht, hfound, hvisited⟩ :=
    undeclared_uses_are_reported overlooked {} (by decide) (by decide +kernel)
  exact ⟨t, ht, hfound.trans (by decide +kernel), fun f hf o ho => (hvisited f hf o ho).1⟩

end Asl
