import Asl.Proofs.Places

/-!
# Shapes of annotated types

The tests on types let more through than there is. The result of a procedure counts as primitive,
and what lies in an array may be of any type. Yet the types that a reading gives are the erroneous
one, those that can be written for a variable and, for names, those of functions: no rule makes
others of these. So whatever passes a test for primitive types is a scalar.
-/

namespace Asl

/-- Besides the erroneous type those arise that can be written, of functions for names only. -/
def Ty.Arises (name : Bool) (τ : Ty) : Prop :=
  τ = .error ∨ ∃ w : Written, τ = w.type ∧ (w.isFunction = true → name = true)

theorem Ty.fails_eq_false_iff {τ : Ty} {demand : Ty → Bool} :
    τ.fails demand = false ↔ (τ.isError || demand τ) = true := by
  rw [fails, ← Bool.not_or, Bool.not_eq_false']

namespace Ty.Arises

variable {name : Bool} {τ : Ty}

theorem error : Arises name .error := .inl rfl

theorem value (σ : TypeSpec) : Arises name σ.type := .inr ⟨.value σ, rfl, nofun⟩

theorem written (w : Written) : Arises true w.type := .inr ⟨w, rfl, fun _ => rfl⟩

theorem of_isScalar (h : (τ.isError || τ.isScalar) = true) : Arises name τ := by
  cases τ with
  | error => exact .error
  | int => exact .value (.basic .int)
  | float => exact .value (.basic .float)
  | bool => exact .value (.basic .bool)
  | char => exact .value (.basic .char)
  | void | array | func => cases h

theorem of_isNumeric (h : (τ.isError || τ.isNumeric) = true) : Arises name τ := by
  refine of_isScalar ?_
  cases τ <;> first | rfl | cases h

theorem ne_void (h : Arises name τ) : τ ≠ .void := by
  rintro rfl
  obtain h | ⟨w, hw, -⟩ := h
  · cases h
  · have hvoid := w.isVoid_type
    rw [← hw] at hvoid
    cases hvoid

theorem isScalar_element {size : Nat} (h : Arises name (.array size τ)) : τ.isScalar = true := by
  obtain h | ⟨w, hw, -⟩ := h
  · cases h
  · obtain ⟨size', b, rfl⟩ := Written.isArray_type_iff.mp (by rw [← hw]; rfl)
    obtain ⟨-, rfl⟩ := Ty.array.inj hw
    exact b.isScalar_type

theorem name_of_isFunction (h : Arises name τ) (hτ : τ.isFunction = true) : name = true := by
  obtain rfl | ⟨w, rfl, hname⟩ := h
  · cases hτ
  · exact hname (w.isFunction_type ▸ hτ)

/-- Where only such types arise, it makes no difference that `void` counts as primitive. -/
theorem isPrimitive_eq (h : Arises name τ) : τ.isPrimitive = τ.isScalar := by
  have hvoid := h.ne_void
  cases τ <;> simp_all [isScalar, isPrimitive, isVoid]

theorem of_isArray (h : Arises name τ) (harray : τ.fails Ty.isArray = false) :
    τ = .error ∨ ∃ size, ∃ b : BasicType, τ = .array size b.type := by
  obtain rfl | ⟨w, rfl, -⟩ := h
  · exact .inl rfl
  · obtain ⟨size, b, rfl⟩ := Written.isArray_type_iff.mp (by simpa using harray)
    exact .inr ⟨size, b, rfl⟩

end Ty.Arises

namespace Rule

open Ty (Arises)

variable {name : Bool} {σ τ : Ty} {loc : Location}

theorem elementValue_isScalar (h : Arises name σ) :
    ((elementValue σ τ).isError || (elementValue σ τ).isScalar) = true := by
  unfold elementValue
  split
  · rfl
  · next hpassed =>
      rw [Bool.or_eq_true, not_or, Bool.not_eq_true] at hpassed
      obtain rfl | ⟨size, b, rfl⟩ := h.of_isArray hpassed.1
      · rfl
      · simp [element, b.isScalar_type]

theorem elementPlace_arises (h : Arises name σ) : Arises false (elementPlace σ τ) := by
  unfold elementPlace
  split
  · exact .error
  · next harray =>
      rw [Bool.not_eq_true] at harray
      obtain rfl | ⟨size, b, rfl⟩ := h.of_isArray harray
      · split <;> exact .error
      · split
        · exact .value (.array size b)
        · exact .value (.basic b)

theorem callValue_arises (h : Arises name τ) : Arises false (callValue τ) := by
  obtain rfl | ⟨w, rfl, -⟩ := h
  · exact .error
  · rcases w with ((_ | _ | _ | _) | _) | ⟨params, _ | τ⟩
    case func.some =>
      rw [callValue_func]
      exact .value τ
    all_goals exact .error

theorem sign_isNumeric {op : UnaryOp} (hop : op ≠ .not) :
    ((unary op τ loc).type.isError || (unary op τ loc).type.isNumeric) = true := by
  cases op with
  | not => exact absurd rfl hop
  | plus | minus =>
      simp only [unary]
      split
      · rfl
      · next hnumeric => exact Ty.fails_eq_false_iff.mp (Bool.not_eq_true _ ▸ hnumeric)

theorem arith_isNumeric (op : ArithOp) (σ τ : Ty) (loc : Location) :
    ((arith op σ τ loc).type.isError || (arith op σ τ loc).type.isNumeric) = true := by
  unfold arith
  split
  · rfl
  · split
    · rfl
    · split <;> rfl

end Rule

/-- A name, within any parentheses. -/
def Expr.isName : Expr → Bool
  | .var _ _ => true
  | .paren _ e => e.isName
  | _ => false

def Part.isName : Part → Bool
  | expr e => e.isName
  | target t => t.subscript.isNone
  | name _ _ => true

/-- What the form of an operation says of its type. -/
def Part.form : Part → Ty → Bool
  | expr (.index _ _ _), τ => τ.isError || τ.isScalar
  | expr (.binary _ (.arith _) _ _), τ => τ.isError || τ.isNumeric
  | expr (.unary _ .plus _), τ | expr (.unary _ .minus _), τ => τ.isError || τ.isNumeric
  | expr (.binary _ (.rel _) _ _), τ | expr (.binary _ (.logic _) _ _), τ => τ.isBool
  | expr (.unary _ .not _), τ => τ.isBool
  | _, _ => true

/-- What can be said of the type of a part, whatever is wrong with it. -/
structure Part.Shaped (part : Part) (τ : Ty) : Prop where
  ne_void : τ ≠ .void
  element : ∀ size σ, τ = .array size σ → σ.isScalar = true
  function : τ.isFunction = true → part.isName = true
  form : part.form τ = true

section

variable {env : Env} (h : ∀ x : Ident, (env.typeOf x).Arises true)

include h

theorem Expr.type_arises (e : Expr) : (e.type env).Arises e.isName := by
  induction e with
  | lit n v =>
      have hv : v.type = (TypeSpec.basic v.basic).type := by cases v <;> rfl
      rw [type, hv]
      exact .value (.basic v.basic)
  | var n x => exact h x
  | paren n e ih => exact ih
  | index n x e ih => exact .of_isScalar (Rule.elementValue_isScalar (h x))
  | call n f args ih => exact Rule.callValue_arises (h f)
  | unary n op e ih =>
      by_cases hop : op = .not
      · subst hop
        exact .value (.basic .bool)
      · exact .of_isNumeric (Rule.sign_isNumeric hop)
  | binary n op l r ihl ihr =>
      cases op with
      | arith op => exact .of_isNumeric (Rule.arith_isNumeric op _ _ _)
      | rel op | logic op => exact .value (.basic .bool)

theorem Part.type_arises (part : Part) : (part.type env).Arises part.isName := by
  rcases part with e | ⟨n, x, _ | e⟩ | ⟨use, x⟩
  · exact e.type_arises h
  · exact h x
  · exact Rule.elementPlace_arises (h x)
  · exact h x

theorem Part.form_type (part : Part) : part.form (part.type env) = true := by
  rcases part with e | t | ⟨use, x⟩
  · cases e with
    | index n x e => exact Rule.elementValue_isScalar (h x)
    | unary n op e =>
        cases op with
        | not => rfl
        | plus | minus => exact Rule.sign_isNumeric nofun
    | binary n op l r =>
        cases op with
        | arith op => exact Rule.arith_isNumeric op _ _ _
        | rel op | logic op => rfl
    | lit | var | paren | call => rfl
  · rfl
  · rfl

theorem Part.shaped (part : Part) : part.Shaped (part.type env) where
  ne_void := (part.type_arises h).ne_void
  element _ _ hτ := (hτ ▸ part.type_arises h).isScalar_element
  function := (part.type_arises h).name_of_isFunction
  form := part.form_type h

end

theorem Program.typeOf_env_arises (p : Program) (f : Function) (x : Ident) :
    ((p.env f).typeOf x).Arises true := by
  have htype := (p.env_agrees f).type x.name
  cases hx : p.context f x.name with
  | none =>
      rw [hx, Option.map_none, Option.map_eq_none_iff] at htype
      rw [Env.typeOf, htype]
      exact .error
  | some w =>
      rw [(p.env_agrees f).typeOf hx]
      exact .written w

def Complaint.isNotPrimitive : Complaint → Bool
  | notPrimitive _ => true
  | _ => false

/-- The report on a `read` or a `write`, where of the primitive types only scalars may pass. -/
def Annotations.notScalar (a : Annotations) : Stmt → List Diagnostic
  | .read loc target =>
      complainIf (!(a.type? target.id).any fun τ => τ.isError || τ.isScalar || τ.isFunction)
        (.notPrimitive "read") loc
  | .write loc value =>
      complainIf (!(a.type? value.node.id).any fun τ => τ.isError || τ.isScalar)
        (.notPrimitive "write") loc
  | _ => []

/-- Where something is read or written. -/
def Site.isTransfer : Site → Bool
  | readable _ _ | writable _ _ => true
  | _ => false

theorem Site.isOfStmt_of_isTransfer {site : Site} (h : site.isTransfer = true) :
    site.isOfStmt = true := by
  cases site with
  | readable | writable => rfl
  | _ => cases h

theorem Stmt.found_transfer {env : Env} (h : ∀ x : Ident, (env.typeOf x).Arises true)
    {a : Annotations} (result : Ty) {s : Stmt}
    (hrecorded : ∀ site ∈ s.tests, ∀ part ∈ site.operands, part.Recorded a env) :
    (s.tests.filter Site.isTransfer).flatMap (Site.found env result) = a.notScalar s := by
  cases s with
  | read loc target =>
      have htype : a.type? target.id = some (target.type env) :=
        (hrecorded (.readable loc target) (by simp [tests]) (.target target)
          (by simp [Site.operands])).1
      have hprimitive : (target.type env).isPrimitive = (target.type env).isScalar :=
        ((Part.target target).type_arises h).isPrimitive_eq
      simp [tests, List.filter_cons, Site.isTransfer, Site.found, Rule.readable, Ty.fails,
        Annotations.notScalar, htype, hprimitive, Bool.and_assoc]
  | write loc value =>
      have htype : a.type? value.node.id = some (value.type env) :=
        (hrecorded (.writable loc value) (by simp [tests]) (.expr value)
          (by simp [Site.operands])).1
      have hprimitive : (value.type env).isPrimitive = (value.type env).isScalar :=
        (value.type_arises h).isPrimitive_eq
      simp [tests, List.filter_cons, Site.isTransfer, Site.found, Rule.writable, Ty.fails,
        Annotations.notScalar, htype, hprimitive]
  | _ => simp [tests, Site.isTransfer, Annotations.notScalar]

/-! ## Runs -/

/-- Whether or not the program is in order, a run gives a type to every part that it visits, and
the type of a part has the shape that goes with the part. A `write` is reported unless its value is
annotated with a scalar or as erroneous, and a `read` unless its target is, or is a function. So
neither passes for what is primitive and no scalar. -/
theorem annotated_types_have_shape (p : Program) (c : Config) (hscopes : p.scopeIds.Nodup)
    (hparts : p.partIds.Nodup) :
    ∃ t, analyse p c = .ok t ∧
      (∀ f ∈ p.functions, ∀ part ∈ f.parts,
        (∀ τ, t.annotations.type? part.id = some τ → part.Shaped τ) ∧
          (part ∈ reachedBlock (p.callable f) f.body →
            (t.annotations.type? part.id).isSome = true)) ∧
      (t.diagnostics.toList.filter fun d => d.complaint.isNotPrimitive) =
        p.functions.flatMap fun f => (allBlock f.body).flatMap t.annotations.notScalar := by
  obtain ⟨t, ht, houtcome⟩ := Program.exists_outcome c hscopes hparts
  refine ⟨t, ht, fun f hf part hpart => ⟨fun τ hτ => ?_, fun hvisited => ?_⟩, ?_⟩
  · obtain ⟨-, rfl⟩ := ((houtcome.part_iff hparts hf hpart).1 τ).mp hτ
    exact part.shaped (p.typeOf_env_arises f)
  · rw [(houtcome.visited hf hvisited).1]
    rfl
  · have hmine {a : Annotations} {declared : Ty} {site : Site} {complaint : Complaint}
        (h : site.Blames a declared complaint) : complaint.isNotPrimitive = site.isTransfer := by
      cases h <;> rfl
    rw [houtcome.filter_diagnostics (fun _ => rfl) (fun _ => rfl) hmine]
    refine List.flatMap_congr fun f hf => ?_
    rw [Function.sites, filter_blockSites_of_isOfStmt _ _ fun _ => Site.isOfStmt_of_isTransfer,
      List.flatMap_assoc]
    refine List.flatMap_congr fun s hs => ?_
    refine s.found_transfer (p.typeOf_env_arises f) _ fun site hsite part hpart => ?_
    have hmem : site ∈ f.sites p := mem_blockSites_of_tests (p.env f) hs hsite
    exact houtcome.visited hf (f.askedAmong_sites p site hmem hpart)

/-- The start reads into the procedure `p` and writes a call of it, an array, and the negation of
an unknown name. -/
def transferring : Program :=
  let build : Build Program := do
    let p ← Build.function "p" [] none [] []
    let own ← Build.vars ["a"] (.array 3 .int)
    let first ← Build.read (← Build.target "p" none)
    Build.moveTo 2 1
    let second ← Build.write (← Build.call "p" [])
    Build.moveTo 3 1
    let third ← Build.write (← Build.var "a")
    Build.moveTo 4 1
    let last ← Build.write (← Build.unary .not (← Build.var "x"))
    let start ← Build.function "main" [] none [own] [first, second, third, last]
    Build.program [p, start]
  (build.run {}).1

theorem transferring_writes_array :
    ∃ t, analyse transferring {} = .ok t ∧
      (∀ f ∈ transferring.functions, ∀ part ∈ f.parts, ∀ τ,
        t.annotations.type? part.id = some τ → part.Shaped τ) ∧
      (transferring.functions.flatMap fun f =>
        (allBlock f.body).flatMap t.annotations.notScalar) =
          [⟨.notPrimitive "write", ⟨3, 1, none⟩⟩] := by
  obtain ⟨t, ht, hparts, hfound⟩ :=
    annotated_types_have_shape transferring {} (by decide) (by decide +kernel)
  refine ⟨t, ht, fun f hf part hpart => (hparts f hf part hpart).1, hfound.symm.trans ?_⟩
  have hrun : (analyse transferring {}).toOption.map (fun t =>
      t.diagnostics.toList.filter fun d => d.complaint.isNotPrimitive) =
        some [⟨.notPrimitive "write", ⟨3, 1, none⟩⟩] := by
    decide +kernel
  rw [ht] at hrun
  exact Option.some.inj hrun

end Asl
