import Asl.Proofs.Alone

/-!
# Subscripts on both sides

A subscripted name is checked by one function as a place and by another as a value. Both look up
the name, visit the subscript and make the same complaints. Of the types that they give, only those
of an array under a bad subscript differ: the place stays the array, the value is erroneous.
-/

namespace Asl

namespace Rule

variable {base index : Ty}

theorem elementPlace_ne_elementValue_iff :
    elementPlace base index ≠ elementValue base index ↔
      base.isArray = true ∧ index ≠ .error ∧ index ≠ .int := by
  cases base <;> cases index <;>
    simp [elementPlace, elementValue, element, Ty.fails, Ty.isError, Ty.isArray, Ty.isInt]

/-- An array under a bad subscript. -/
theorem eq_of_elementPlace_ne_elementValue
    (h : elementPlace base index ≠ elementValue base index) :
    elementPlace base index = base ∧ elementValue base index = .error := by
  obtain ⟨harray, herror, hint⟩ := elementPlace_ne_elementValue_iff.mp h
  have hbase : base.fails Ty.isArray = false := by simp [Ty.fails, harray]
  have hindex : index.fails Ty.isInt = true := by
    refine Ty.fails_eq_true_iff.mpr ⟨herror, ?_⟩
    cases index <;> simp_all [Ty.isInt]
  simp [elementPlace, elementValue, hbase, hindex]

end Rule

section

variable {t : Tables} {x : Ident} {e : Expr}

open Tables (Visited)

/-- What both ways to check a subscripted name find. -/
def foundAtSubscript (env : Env) (loc : Location) (x : Ident) (e : Expr) : List Diagnostic :=
  Rule.name x (env x.name) ++ (e.reading env).found ++
    Rule.subscript (env.typeOf x) (e.type env) loc e.loc

theorem exists_place (n : Node) (hnew : t.annotations.Untouched (x.id :: e.ids ++ [n.id])) :
    let place : Target := ⟨n, x, some e⟩
    ∃ u, checkTarget place t = .ok (Rule.elementPlace (t.env.typeOf x) (e.type t.env)) u ∧
      Visited t.env (.name .plain x :: e.reached t.env.takes ++ [.target place])
        (foundAtSubscript t.env n.loc x e) t u := by
  intro place
  have hids : (place.reached everyCall).map Part.id = x.id :: e.ids ++ [n.id] := by
    simp [place, Target.reached, Expr.ids, Part.id]
  have hfound : (place.reading t.env).found = foundAtSubscript t.env n.loc x e := by
    simp [place, Target.reading, foundAtSubscript, Ident.reading]
  exact hfound ▸ place.exists_visited (hids ▸ hnew)

theorem exists_value (n : Node) (hnew : t.annotations.Untouched (x.id :: e.ids ++ [n.id])) :
    let value : Expr := .index n x e
    ∃ v, checkExpr value t = .ok (Rule.elementValue (t.env.typeOf x) (e.type t.env)) v ∧
      Visited t.env (.name .plain x :: e.reached t.env.takes ++ [.expr value])
        (foundAtSubscript t.env n.loc x e) t v := by
  intro value
  have hids : value.ids = x.id :: e.ids ++ [n.id] := by
    simp [value, Expr.reached, Expr.ids, Part.id, Expr.node]
  have hfound : (value.reading t.env).found = foundAtSubscript t.env n.loc x e := by
    simp [value, Expr.reading, foundAtSubscript, Ident.reading]
  have hvisit := value.exists_visited (hids ▸ hnew)
  rwa [hfound, Expr.reached] at hvisit

end

/-- From the same tables, a subscripted name as a place and as a value at the same location. Both
find the same in the same order and annotate the name and the subscript alike. They differ in their
types for an array under a subscript that is neither an integer nor erroneous, and not elsewhere. -/
theorem subscript_sides_agree {t : Tables} (loc : Location) (i j : NodeId) (x : Ident) (e : Expr)
    (hplace : t.annotations.Untouched (x.id :: e.ids ++ [i]))
    (hvalue : t.annotations.Untouched (x.id :: e.ids ++ [j])) :
    ∃ σ u τ v found lvalue,
      checkTarget ⟨⟨i, loc⟩, x, some e⟩ t = .ok σ u ∧ checkExpr (.index ⟨j, loc⟩ x e) t = .ok τ v ∧
      u.diagnostics.toList = t.diagnostics.toList ++ found ∧
      v.diagnostics.toList = t.diagnostics.toList ++ found ∧
      (u.annotations.type? i = some σ ∧ v.annotations.type? j = some τ) ∧
      (u.annotations.lvalue? i = some lvalue ∧ v.annotations.lvalue? j = some lvalue) ∧
      (∀ node ∈ x.id :: e.ids, u.annotations.SameAt v.annotations node) ∧
      ∃ base index, u.annotations.type? x.id = some base ∧
        u.annotations.type? e.node.id = some index ∧
        base = Rule.nameType (t.env x.name) ∧ index = e.type t.env ∧
        (σ ≠ τ ↔ base.isArray = true ∧ index ≠ .error ∧ index ≠ .int) ∧
        (σ ≠ τ → σ = base ∧ τ = .error) ∧
        ∀ size element, base = .array size element → index = .error →
          σ = element ∧ τ = element := by
  obtain ⟨u, hu, huvisited⟩ := exists_place ⟨i, loc⟩ hplace
  obtain ⟨v, hv, hvvisited⟩ := exists_value ⟨j, loc⟩ hvalue
  obtain ⟨htype, hlvalue⟩ := huvisited.recorded (.target ⟨⟨i, loc⟩, x, some e⟩) (by simp)
  obtain ⟨htype', hlvalue'⟩ := hvvisited.recorded (.expr (.index ⟨j, loc⟩ x e)) (by simp)
  obtain ⟨hbase, -⟩ := huvisited.recorded (.name .plain x) (by simp)
  obtain ⟨hindex, -⟩ := huvisited.recorded (.expr e) (by simp [e.mem_reached])
  refine ⟨_, u, _, v, _, _, hu, hv, huvisited.found, hvvisited.found, ⟨htype, htype'⟩,
    ⟨hlvalue, hlvalue'⟩, fun node hnode => ?_, t.env.typeOf x, e.type t.env, hbase, hindex, rfl,
    rfl, Rule.elementPlace_ne_elementValue_iff, Rule.eq_of_elementPlace_ne_elementValue, ?_⟩
  · refine huvisited.sameAt hvvisited ?_ ?_
    · simpa [Part.id] using hplace.ne_last hnode
    · simpa [Part.id, Expr.node] using hvalue.ne_last hnode
  · intro size element harray herror
    rw [harray, herror]
    exact ⟨rfl, rfl⟩

/-- A truth value as the subscript of an array of integers. -/
theorem array_under_truth_value :
    let loc : Location := ⟨1, 1, none⟩
    let a : Ident := ⟨⟨0, loc⟩, "a"⟩
    let yes : Expr := .lit ⟨1, loc⟩ (.bool true)
    let t : Tables := { symbols :=
      { scopes := #[⟨globalScope, [("a", ⟨.array 3 .int, .variable⟩)]⟩], stack := [0] } }
    ∃ u v, checkTarget ⟨⟨2, loc⟩, a, some yes⟩ t = .ok (.array 3 .int) u ∧
      checkExpr (.index ⟨2, loc⟩ a yes) t = .ok .error v ∧
      u.diagnostics.toList = v.diagnostics.toList ∧
      ∀ node ∈ [0, 1], u.annotations.SameAt v.annotations node := by
  intro loc a yes t
  have hnew : t.annotations.Untouched (a.id :: yes.ids ++ [2]) :=
    Annotations.untouched_empty (by decide)
  obtain ⟨σ, u, τ, v, found, -, hu, hv, hfound, hfound', -, -, hsame, base, index, -, -, hbase,
    hindex, hdiffer, htypes, -⟩ := subscript_sides_agree loc 2 2 a yes hnew hnew
  obtain rfl : base = .array 3 .int := hbase
  obtain rfl : index = .bool := hindex
  obtain ⟨rfl, rfl⟩ := htypes (hdiffer.mpr (by decide))
  exact ⟨u, v, hu, hv, hfound.trans hfound'.symm, hsame⟩

end Asl
