import Asl.Proofs.Alone
import Asl.Proofs.Occurrences

/-!
# Calls by themselves and calls for a value

A call for its value holds each argument against its parameter before it visits the next, and it
visits none if the callee does not take so many. A call by itself visits all arguments first. Where
the callee takes them, both make the same complaints in another order; where it does not, both
complain of the callee alike, and only the call by itself has looked at the arguments. Of a
procedure the call for a value complains besides, for it gives none.
-/

namespace Asl

/-- What is wrong with a callee that is no function of so many parameters. -/
inductive Ident.Misfit (f : Ident) (arity : Nat) : Option Binding → List Diagnostic → Prop where
  | undeclared : Misfit f arity none [⟨.undeclared f.name, f.loc⟩]
  | erroneous {b : Binding} : b.type = .error → Misfit f arity (some b) []
  | notCallable {b : Binding} : b.type ≠ .error → b.type.isFunction = false →
      Misfit f arity (some b) [⟨.notCallable f.name, f.loc⟩]
  | argumentCount {b : Binding} {params : List Ty} {result : Ty} :
      b.type = .func params result → params.length ≠ arity →
        Misfit f arity (some b) [⟨.argumentCount f.name params.length arity, f.loc⟩]

/-- The complaint that a procedure is called for a value. -/
def Ident.noValue (f : Ident) (meaning : Option Binding) : List Diagnostic :=
  complainIf (meaning.any fun b => b.type.isProcedure) (.noValue f.name) f.loc

section

variable {env : Env} {f : Ident} {arity : Nat}

theorem Ident.misfit_of_not_takes (h : env.takes f arity = false) :
    f.Misfit arity (env f.name) (Rule.name f (env f.name) ++ Rule.call f (env.typeOf f) arity) := by
  unfold Env.takes at h
  unfold Env.typeOf at h ⊢
  cases hmeaning : env f.name with
  | none => exact .undeclared
  | some b =>
      have htype : Rule.nameType (some b) = b.type := rfl
      rw [hmeaning, htype] at h
      rw [htype]
      cases hb : b.type with
      | error => exact .erroneous hb
      | func params result =>
          have hlength : params.length ≠ arity := by simpa [hb] using h
          have hcall : Rule.call f (.func params result) arity =
              [⟨.argumentCount f.name params.length arity, f.loc⟩] := by
            simp [Rule.call, complainIf, hlength]
          rw [hcall]
          exact .argumentCount hb hlength
      | _ => exact .notCallable (by simp [hb]) (by simp [hb, Ty.isFunction])

/-- A callee that takes the arguments is not complained of, unless for its want of a value. -/
theorem Rule.call_eq_nil_of_takes (h : env.takes f arity = true) :
    Rule.name f (env f.name) = [] ∧ Rule.call f (env.typeOf f) arity = [] := by
  unfold Env.takes Env.typeOf at h
  unfold Env.typeOf
  cases hmeaning : env f.name with
  | none => simp [hmeaning, Rule.nameType] at h
  | some b =>
      refine ⟨rfl, ?_⟩
      have htype : Rule.nameType (some b) = b.type := rfl
      rw [hmeaning, htype] at h
      rw [htype]
      cases hb : b.type with
      | func params result =>
          have hlength : params.length = arity := by simpa [hb] using h
          simp [Rule.call, complainIf, hlength]
      | _ => simp [hb] at h

/-- A name without meaning is no procedure, so the two complaints may change places. -/
theorem Rule.name_append_valueCall :
    Rule.name f (env f.name) ++ Rule.valueCall f (env.typeOf f) arity =
      f.noValue (env f.name) ++
        (Rule.name f (env f.name) ++ Rule.call f (env.typeOf f) arity) := by
  unfold Env.typeOf
  cases env f.name <;> rfl

end

section

variable (env : Env) (f : Ident)

theorem perm_found_argsReading (k : Nat) (params : List Ty) (args : List Expr)
    (hlength : params.length = args.length) :
    (argsReading env f k params args).found.Perm
      ((exprsReading env args).found ++
        Rule.arguments f k params (args.map fun e => (e.type env, e.loc))) := by
  induction args generalizing k params with
  | nil =>
      obtain rfl := List.length_eq_zero_iff.mp hlength
      simp [exprsReading, Rule.arguments]
  | cons e rest ih =>
      cases params with
      | nil => cases hlength
      | cons param params =>
          have hrest := ih (k + 1) params (Nat.succ.inj hlength)
          let arg := Rule.argument f k param (e.type env) e.loc
          let later := Rule.arguments f (k + 1) params (rest.map fun e => (e.type env, e.loc))
          -- the complaint about the first argument passes all that is found of the later ones
          have hswap : (arg ++ ((exprsReading env rest).found ++ later)).Perm
              ((exprsReading env rest).found ++ (arg ++ later)) := by
            rw [← List.append_assoc, ← List.append_assoc]
            exact List.perm_append_comm.append_right later
          have htail := ((hrest.append_left arg).trans hswap).append_left (e.reading env).found
          simpa [argsReading, exprsReading, Rule.arguments, arg, later] using htail

theorem found_call_by_itself (result : Ty) (loc : Location) (args : List Expr) :
    ((Stmt.call loc f args).reading env result).found =
      Rule.name f (env f.name) ++ (exprsReading env args).found ++
        Rule.call f (env.typeOf f) args.length ++
          Rule.arguments f 1 (Rule.params (env.typeOf f) args.length)
            (args.map fun e => (e.type env, e.loc)) := by
  simp [Stmt.reading, Ident.reading]

/-- What a call for its value finds, but for the complaint that the callee gives none. -/
def foundForValue (args : List Expr) : List Diagnostic :=
  Rule.name f (env f.name) ++ Rule.call f (env.typeOf f) args.length ++
    (argsReading env f 1 (Rule.params (env.typeOf f) args.length) args).found

theorem found_call_for_value (n : Node) (args : List Expr) :
    ((Expr.call n f args).reading env).found =
      f.noValue (env f.name) ++ foundForValue env f args := by
  have hcallee := @Rule.name_append_valueCall env f args.length
  simp only [Expr.reading, Ident.reading, Reading.found_append, Reading.found_reports,
    Part.found_visit, List.append_nil]
  rw [hcallee, List.append_assoc, foundForValue]

variable {env f} {args : List Expr}

theorem perm_found_of_takes (loc : Location) (h : env.takes f args.length = true) :
    (foundForValue env f args).Perm ((Stmt.call loc f args).reading env .void).found := by
  obtain ⟨hname, hcall⟩ := Rule.call_eq_nil_of_takes h
  have hperm := perm_found_argsReading env f 1 _ args (Rule.params_eq_of_takes h)
  rw [found_call_by_itself, foundForValue, hname, hcall]
  simpa using hperm

theorem found_of_not_takes (loc : Location) (h : env.takes f args.length = false) :
    ∃ before after, f.Misfit args.length (env f.name) (before ++ after) ∧
      ((Stmt.call loc f args).reading env .void).found =
        before ++ (exprsReading env args).found ++ after ∧
      foundForValue env f args = before ++ after := by
  have hparams := Rule.params_eq_nil_of_not_takes h
  refine ⟨_, _, Ident.misfit_of_not_takes h, ?_, ?_⟩
  · rw [found_call_by_itself, hparams]
    simp [Rule.arguments]
  · rw [foundForValue, hparams]
    simp

end

section

variable {env : Env} {t : Tables} {f : Ident} {args : List Expr}

open Tables (Visited)

theorem ids_call_eq (n : Node) (f : Ident) (args : List Expr) :
    (Expr.call n f args).ids = f.id :: exprIds args ++ [n.id] := by
  simp [Expr.ids, Expr.reached, everyCall, exprIds, Part.id, Expr.node]

variable {loc : Location} {n : Node} {s v : Tables} {found found' : List Diagnostic}

/-- Two calls that go into their arguments visit the same below themselves. -/
theorem sameAt_of_takes (h : env.takes f args.length = true)
    (hself : Visited env ((Stmt.call loc f args).reached env.takes) found t s)
    (hvalue : Visited env ((Expr.call n f args).reached env.takes) found' t v)
    (hnew : t.annotations.Untouched (f.id :: exprIds args ++ [n.id])) {node : NodeId}
    (hnode : node ∈ f.id :: exprIds args) : s.annotations.SameAt v.annotations node := by
  have hreached : (Expr.call n f args).reached env.takes =
      (.name .called f :: reachedExprs env.takes args) ++ [.expr (.call n f args)] := by
    simp [Expr.reached, h]
  rw [hreached] at hvalue
  rw [Stmt.reached, ← List.append_nil (List.cons _ _)] at hself
  exact hself.sameAt hvalue (by simp) (by simpa [Part.id, Expr.node] using hnew.ne_last hnode)

/-- A call for a value that does not go into its arguments leaves them as they were. -/
theorem eq_none_of_not_takes (h : env.takes f args.length = false)
    (hvalue : Visited env ((Expr.call n f args).reached env.takes) found t v)
    (hnew : t.annotations.Untouched (f.id :: exprIds args ++ [n.id])) {node : NodeId}
    (hnode : node ∈ exprIds args) :
    v.annotations.type? node = none ∧ v.annotations.lvalue? node = none := by
  have hreached : (Expr.call n f args).reached env.takes =
      [.name .called f, .expr (.call n f args)] := by
    simp [Expr.reached, h]
  have hcallee := hnew.sublist (List.sublist_append_left (f.id :: exprIds args) _)
  have hne : node ≠ f.id := by
    rintro rfl
    exact (List.nodup_cons.mp hcallee.nodup).1 hnode
  have hnode' := List.mem_cons_of_mem f.id hnode
  rw [hreached] at hvalue
  obtain ⟨htype, hlvalue⟩ :=
    hvalue.spared node (by simp [Part.id, Expr.node, hne, hnew.ne_last hnode'])
  exact ⟨htype.trans (hcallee.type node hnode'), hlvalue.trans (hcallee.lvalue node hnode')⟩

/-- A first visit gives just the parts that it reaches a type and a place. -/
theorem Tables.Visited.isSome_eq_reached {into : Entered} {os : List Occurrence}
    {found : List Diagnostic} {u : Tables} (hvisited : Visited env (reachedOf into os) found t u)
    (hnew : t.annotations.Untouched ((os.map Occurrence.part).map Part.id)) {o : Occurrence}
    (ho : o ∈ os) :
    (u.annotations.type? o.part.id).isSome = o.reached into ∧
      (u.annotations.lvalue? o.part.id).isSome = o.reached into := by
  have hid := List.mem_map_of_mem (f := Part.id) (List.mem_map_of_mem (f := Occurrence.part) ho)
  have hiff := id_mem_reachedOf_iff into hnew.nodup ho
  cases hreached : o.reached into with
  | true =>
      have hpart := (part_mem_reachedOf_iff into hnew.nodup ho).mpr hreached
      obtain ⟨htype, hlvalue⟩ := hvisited.recorded o.part hpart
      simp [htype, hlvalue]
  | false =>
      obtain ⟨htype, hlvalue⟩ := hvisited.spared o.part.id (by simp [hiff, hreached])
      simp [htype, hlvalue, hnew.type _ hid, hnew.lvalue _ hid]

end

/-- From the same tables, one call by itself, one for its value, and the arguments without a call.
Where the callee takes the arguments the two calls find the same in some order and annotate the
same. Where it does not, both find the same of the callee; around it the call by itself finds what
the arguments do, and annotates of them all that stands in no such call itself. -/
theorem call_forms_agree {t : Tables} (loc : Location) (n : Node) (f : Ident) (args : List Expr)
    (hnew : t.annotations.Untouched (Expr.call n f args).ids) :
    ∃ s τ v types w found other own,
      checkStmt (.call loc f args) t = .ok () s ∧ checkExpr (.call n f args) t = .ok τ v ∧
        checkExprs args t = .ok types w ∧
      s.diagnostics.toList = t.diagnostics.toList ++ found ∧
      v.diagnostics.toList = t.diagnostics.toList ++ (f.noValue (t.env f.name) ++ other) ∧
      w.diagnostics.toList = t.diagnostics.toList ++ own ∧
      (t.env.takes f args.length = true → other.Perm found ∧
        ∀ node ∈ f.id :: exprIds args, s.annotations.SameAt v.annotations node) ∧
      (t.env.takes f args.length = false →
        (∃ before after, f.Misfit args.length (t.env f.name) (before ++ after) ∧
          found = before ++ own ++ after ∧ other = before ++ after) ∧
        (∀ node ∈ exprIds args,
          v.annotations.type? node = none ∧ v.annotations.lvalue? node = none) ∧
        ∀ o ∈ exprsOccurrences [] args,
          (s.annotations.type? o.part.id).isSome = o.reached t.env.takes ∧
            (s.annotations.lvalue? o.part.id).isSome = o.reached t.env.takes) := by
  have hall : t.annotations.Untouched (f.id :: exprIds args ++ [n.id]) :=
    ids_call_eq n f args ▸ hnew
  have hcallee : t.annotations.Untouched (f.id :: exprIds args) :=
    hall.sublist (List.sublist_append_left _ _)
  have harguments : t.annotations.Untouched (exprIds args) :=
    hcallee.sublist (List.sublist_cons_self _ _)
  obtain ⟨s, hs, hself⟩ := exists_visited_call loc f args hcallee
  obtain ⟨v, hv, hvalue⟩ := (Expr.call n f args).exists_visited hnew
  obtain ⟨w, hw, hargs⟩ := exists_visited_exprs args harguments
  have hfound := hvalue.found
  rw [found_call_for_value] at hfound
  refine ⟨s, _, v, _, w, _, _, _, hs, hv, hw, hself.found, hfound, hargs.found, fun htakes => ?_,
    fun htakes => ?_⟩
  · refine ⟨perm_found_of_takes loc htakes, fun node hnode => ?_⟩
    exact sameAt_of_takes htakes hself hvalue hall hnode
  · refine ⟨found_of_not_takes loc htakes, fun node hnode => ?_, fun o ho => ?_⟩
    · exact eq_none_of_not_takes htakes hvalue hall hnode
    · -- the arguments are occurrences of the call by itself, which adds no call around them
      rw [← Stmt.reachedOf_occurrences] at hself
      refine hself.isSome_eq_reached ?_ (List.mem_cons_of_mem _ ho)
      rw [map_part_eq_reachedOf, Stmt.reachedOf_occurrences, Stmt.reached]
      exact hcallee

/-- The start of `halving` calls `half` with two arguments, of which the second means nothing. -/
theorem half_of_two_arguments :
    let start : Function := halving.functions.getLast (by decide)
    let loc := halving.loc
    let args : List Expr :=
      [.lit ⟨800, loc⟩ (.int 3), .var ⟨801, loc⟩ ⟨⟨802, loc⟩, "z"⟩]
    let half : Ident := ⟨⟨803, loc⟩, "half"⟩
    let inside : Tables :=
      { symbols := { scopes := #[halving.scope, start.scope], stack := [1, 0] } }
    ∃ s τ v before after own, checkStmt (.call loc half args) inside = .ok () s ∧
      checkExpr (.call ⟨804, loc⟩ half args) inside = .ok τ v ∧
      s.diagnostics.toList = before ++ own ++ after ∧ v.diagnostics.toList = before ++ after ∧
      before ++ after = [⟨.argumentCount "half" 1 2, loc⟩] ∧
      s.annotations.type? 801 ≠ none ∧ v.annotations.type? 801 = none := by
  intro start loc args half inside
  obtain ⟨s, τ, v, types, w, found, other, own, hs, hv, -, hfound, hother, -, -, hmisfit⟩ :=
    call_forms_agree (t := inside) loc ⟨804, loc⟩ half args
      (Annotations.untouched_empty (by decide))
  obtain ⟨⟨before, after, hcallee, rfl, rfl⟩, hnone, hreached⟩ := hmisfit (by decide)
  have hmeaning : inside.env half.name = some ⟨.func [.float] .float, .function⟩ := by decide
  rw [hmeaning] at hcallee hother
  refine ⟨s, τ, v, before, after, own, hs, hv, hfound, hother, ?_, ?_, (hnone 801 (by decide)).1⟩
  · generalize before ++ after = complaints at hcallee
    cases hcallee with
    | erroneous htype | notCallable _ htype => cases htype
    | argumentCount htype =>
        cases htype
        rfl
  · obtain ⟨o, ho, hid, hinto⟩ :
        ∃ o ∈ exprsOccurrences [] args, o.part.id = 801 ∧ o.reached inside.env.takes = true :=
      ⟨_, List.mem_of_getElem? (i := 2) rfl, rfl, rfl⟩
    have hseen := (hreached o ho).1
    rw [hid, hinto] at hseen
    exact Option.isSome_iff_ne_none.mp hseen

/-- Neither `p` nor `g` has a meaning: `p` by itself visits its argument, which is a call of `g`,
but this passes over its own. -/
theorem nested_arguments_stay_unannotated :
    let loc : Location := ⟨1, 1, none⟩
    let nested : Expr := .call ⟨1, loc⟩ ⟨⟨2, loc⟩, "g"⟩ [.lit ⟨0, loc⟩ (.int 1)]
    let p : Ident := ⟨⟨3, loc⟩, "p"⟩
    let t : Tables := { symbols := { scopes := #[⟨globalScope, []⟩], stack := [0] } }
    t.annotations.Untouched (Expr.call ⟨4, loc⟩ p [nested]).ids ∧
      t.env.takes p 1 = false ∧ 0 ∈ exprIds [nested] ∧
      ∃ s, checkStmt (.call loc p [nested]) t = .ok () s ∧
        s.annotations.type? 0 = none ∧ s.annotations.lvalue? 0 = none := by
  intro loc nested p t
  have hnew : t.annotations.Untouched (Expr.call ⟨4, loc⟩ p [nested]).ids :=
    Annotations.untouched_empty (by decide)
  refine ⟨hnew, by decide, by decide, ?_⟩
  obtain ⟨s, hs, hvisited⟩ :=
    exists_visited_call (t := t) loc p [nested] (Annotations.untouched_empty (by decide))
  obtain ⟨htype, hlvalue⟩ := hvisited.spared 0 (by decide)
  exact ⟨s, hs, htype, hlvalue⟩

end Asl
