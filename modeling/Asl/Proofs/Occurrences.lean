import Asl.Proofs.Part
import Mathlib.Data.List.Nodup

/-!
# Where a part stands among calls

A traversal passes over the arguments of a call for its value when the callee does not take so
many. Whether it comes to a part is therefore a matter of the calls around the part: it does
exactly if it goes into each of them. Calls that stand by themselves do not count, for their
arguments are always visited.
-/

namespace Asl

/-- A part and the calls for a value that have it among their arguments, with the number of these,
the innermost first. -/
structure Occurrence where
  part : Part
  calls : List (Ident × Nat)

/-- The traversal goes into all the calls around. -/
def Occurrence.reached (into : Entered) (o : Occurrence) : Bool :=
  o.calls.all fun (f, arity) => into f arity

mutual
def Expr.occurrences (calls : List (Ident × Nat)) : Expr → List Occurrence
  | .lit n v => [⟨.expr (.lit n v), calls⟩]
  | .var n x => [⟨.name .plain x, calls⟩, ⟨.expr (.var n x), calls⟩]
  | .paren n e => e.occurrences calls ++ [⟨.expr (.paren n e), calls⟩]
  | .index n x e =>
      ⟨.name .plain x, calls⟩ :: e.occurrences calls ++ [⟨.expr (.index n x e), calls⟩]
  | .call n f args =>
      ⟨.name .called f, calls⟩ :: exprsOccurrences ((f, args.length) :: calls) args ++
        [⟨.expr (.call n f args), calls⟩]
  | .unary n op e => e.occurrences calls ++ [⟨.expr (.unary n op e), calls⟩]
  | .binary n op l r =>
      l.occurrences calls ++ r.occurrences calls ++ [⟨.expr (.binary n op l r), calls⟩]
def exprsOccurrences (calls : List (Ident × Nat)) : List Expr → List Occurrence
  | [] => []
  | e :: rest => e.occurrences calls ++ exprsOccurrences calls rest
end

def Target.occurrences (t : Target) : List Occurrence :=
  ⟨.name .plain t.ident, []⟩ :: t.subscript.elim [] (Expr.occurrences []) ++ [⟨.target t, []⟩]

mutual
def Stmt.occurrences : Stmt → List Occurrence
  | .assign _ target value => target.occurrences ++ value.occurrences []
  | .ite _ condition yes no =>
      condition.occurrences [] ++ blockOccurrences yes ++
        match no with
        | none => []
        | some no => blockOccurrences no
  | .loop _ condition body => condition.occurrences [] ++ blockOccurrences body
  | .call _ f args => ⟨.name .called f, []⟩ :: exprsOccurrences [] args
  | .read _ target => target.occurrences
  | .write _ value => value.occurrences []
  | .print _ _ => []
  | .ret _ none => []
  | .ret _ (some value) => value.occurrences []
def blockOccurrences : List Stmt → List Occurrence
  | [] => []
  | s :: rest => s.occurrences ++ blockOccurrences rest
end

/-- The parts among these that the traversal comes to. -/
def reachedOf (into : Entered) (os : List Occurrence) : List Part :=
  (os.filter (Occurrence.reached into)).map Occurrence.part

section

variable (into : Entered)

@[simp] theorem reachedOf_nil : reachedOf into [] = [] := rfl

@[simp] theorem reachedOf_append (os os' : List Occurrence) :
    reachedOf into (os ++ os') = reachedOf into os ++ reachedOf into os' := by
  simp [reachedOf]

@[simp] theorem reachedOf_cons (part : Part) (calls : List (Ident × Nat)) (os : List Occurrence) :
    reachedOf into (⟨part, calls⟩ :: os) =
      (if (calls.all fun (f, arity) => into f arity) = true then [part] else []) ++
        reachedOf into os := by
  unfold reachedOf
  rw [List.filter_cons]
  split <;> simp_all [Occurrence.reached]

mutual
theorem Expr.reachedOf_occurrences : ∀ (e : Expr) (calls : List (Ident × Nat)),
    reachedOf into (e.occurrences calls) =
      if (calls.all fun (f, arity) => into f arity) = true then e.reached into else []
  | .lit _ _, calls | .var _ _, calls => by
      simp only [Expr.occurrences, Expr.reached, reachedOf_cons, reachedOf_nil]
      split <;> rfl
  | .paren _ e, calls | .index _ _ e, calls | .unary _ _ e, calls => by
      simp only [Expr.occurrences, Expr.reached, reachedOf_append, reachedOf_cons, reachedOf_nil,
        e.reachedOf_occurrences calls]
      split <;> rfl
  | .call _ f args, calls => by
      simp only [Expr.occurrences, Expr.reached, reachedOf_append, reachedOf_cons, reachedOf_nil,
        reachedOf_exprsOccurrences args, List.all_cons, Bool.and_eq_true]
      cases into f args.length <;> cases calls.all fun (f, arity) => into f arity <;> simp
  | .binary _ _ l r, calls => by
      simp only [Expr.occurrences, Expr.reached, reachedOf_append, reachedOf_cons, reachedOf_nil,
        l.reachedOf_occurrences calls, r.reachedOf_occurrences calls]
      split <;> rfl
theorem reachedOf_exprsOccurrences : ∀ (es : List Expr) (calls : List (Ident × Nat)),
    reachedOf into (exprsOccurrences calls es) =
      if (calls.all fun (f, arity) => into f arity) = true then reachedExprs into es else []
  | [], calls => by simp [exprsOccurrences, reachedExprs]
  | e :: rest, calls => by
      simp only [exprsOccurrences, reachedExprs, reachedOf_append, e.reachedOf_occurrences calls,
        reachedOf_exprsOccurrences rest calls]
      split <;> rfl
end

theorem Target.reachedOf_occurrences (t : Target) :
    reachedOf into t.occurrences = t.reached into := by
  obtain ⟨n, x, _ | e⟩ := t
  · simp [occurrences, reached]
  · simp [occurrences, reached, e.reachedOf_occurrences]

mutual
theorem Stmt.reachedOf_occurrences : ∀ s : Stmt, reachedOf into s.occurrences = s.reached into
  | .assign _ target value => by
      simp [Stmt.occurrences, Stmt.reached, target.reachedOf_occurrences,
        value.reachedOf_occurrences]
  | .ite _ condition yes none => by
      simp [Stmt.occurrences, Stmt.reached, condition.reachedOf_occurrences,
        reachedOf_blockOccurrences yes]
  | .ite _ condition yes (some no) => by
      simp [Stmt.occurrences, Stmt.reached, condition.reachedOf_occurrences,
        reachedOf_blockOccurrences yes, reachedOf_blockOccurrences no]
  | .loop _ condition body => by
      simp [Stmt.occurrences, Stmt.reached, condition.reachedOf_occurrences,
        reachedOf_blockOccurrences body]
  | .call _ _ args => by
      simp [Stmt.occurrences, Stmt.reached, reachedOf_exprsOccurrences]
  | .read _ target => target.reachedOf_occurrences into
  | .write _ value | .ret _ (some value) => by
      simp [Stmt.occurrences, Stmt.reached, value.reachedOf_occurrences]
  | .print _ _ | .ret _ none => rfl
theorem reachedOf_blockOccurrences : ∀ ss : List Stmt,
    reachedOf into (blockOccurrences ss) = reachedBlock into ss
  | [] => rfl
  | s :: rest => by
      simp [blockOccurrences, reachedBlock, s.reachedOf_occurrences,
        reachedOf_blockOccurrences rest]
end

/-- No part is left out. -/
theorem map_part_eq_reachedOf (os : List Occurrence) :
    os.map Occurrence.part = reachedOf everyCall os := by
  have hall : Occurrence.reached everyCall = fun _ => true := by
    funext o
    simp [Occurrence.reached, everyCall]
  simp [reachedOf, hall]

/-- With numbers of their own, parts are reached by the calls around them. -/
theorem id_mem_reachedOf_iff {os : List Occurrence}
    (hids : ((os.map Occurrence.part).map Part.id).Nodup) {o : Occurrence} (ho : o ∈ os) :
    o.part.id ∈ (reachedOf into os).map Part.id ↔ o.reached into = true := by
  rw [List.map_map] at hids
  rw [reachedOf, List.map_map, List.mem_map]
  constructor
  · rintro ⟨other, hother, hid⟩
    obtain ⟨hmem, hreached⟩ := List.mem_filter.mp hother
    rwa [← List.inj_on_of_nodup_map hids hmem ho hid]
  · exact fun hreached => ⟨o, List.mem_filter.mpr ⟨ho, hreached⟩, rfl⟩

theorem part_mem_reachedOf_iff {os : List Occurrence}
    (hids : ((os.map Occurrence.part).map Part.id).Nodup) {o : Occurrence} (ho : o ∈ os) :
    o.part ∈ reachedOf into os ↔ o.reached into = true := by
  refine ⟨fun hmem => ?_, fun hreached => ?_⟩
  · exact (id_mem_reachedOf_iff into hids ho).mp (List.mem_map_of_mem hmem)
  · exact List.mem_map_of_mem (List.mem_filter.mpr ⟨ho, hreached⟩)

end

end Asl
