import Asl.Checking.Rule
import Asl.Proofs.Typing

/-!
# What the rules accept

Among types that can be written a rule stays silent exactly when a derivation could go
on, and then it gives the type of the derivation. That an erroneous operand meets every
demand makes no difference here, for no such type can be written.
-/

namespace Asl

theorem complainIf_eq_nil_iff {wrong : Bool} {complaint : Complaint} {loc : Location} :
    complainIf wrong complaint loc = [] ↔ wrong = false := by
  cases wrong <;> simp [complainIf]

def Written.type : Written → Ty
  | value τ => τ.type
  | func params result => .func (params.map TypeSpec.type) (result.elim .void TypeSpec.type)

/-- Only a value can be stored to. -/
def Written.isFunction : Written → Bool
  | value _ => false
  | func _ _ => true

namespace BasicType

variable {a b : BasicType}

theorem isNumeric_type_iff : b.type.isNumeric = true ↔ b.Numeric := by
  constructor
  · intro h
    cases b with
    | int => exact .int
    | float => exact .float
    | bool | char => cases h
  · rintro (_ | _) <;> rfl

theorem isScalar_type (b : BasicType) : b.type.isScalar = true := by
  cases b <;> rfl

theorem type_eq_type_iff : a.type = b.type ↔ a = b := by
  cases a <;> cases b <;> simp [type]

theorem comparable_type_iff {op : RelOp} :
    Ty.comparable op a.type b.type = true ↔ Comparable op a b := by
  simp only [Ty.comparable, Bool.or_eq_true, Bool.and_eq_true, isNumeric_type_iff, isScalar_type,
    beq_iff_eq, type_eq_type_iff, and_true]
  constructor
  · rintro (⟨ha, hb⟩ | ⟨hop, rfl⟩)
    · exact .numbers ha hb
    · exact .equality a hop
  · intro h
    cases h with
    | numbers ha hb => exact .inl ⟨ha, hb⟩
    | equality hop => exact .inr ⟨hop, rfl⟩

theorem type_ne_array {size : Nat} {t : Ty} : b.type ≠ .array size t := by
  cases b <;> exact fun h => nomatch h

end BasicType

namespace TypeSpec

variable {σ τ : TypeSpec}

theorem type_eq_type_iff : σ.type = τ.type ↔ σ = τ := by
  cases σ <;> cases τ <;>
    simp [type, BasicType.type_eq_type_iff, BasicType.type_ne_array, BasicType.type_ne_array.symm]

theorem admits_type_iff : τ.type.admits σ.type = true ↔ Stores σ τ := by
  simp only [Ty.admits, Bool.or_eq_true, Bool.and_eq_true, beq_iff_eq, type_eq_type_iff]
  constructor
  · rintro (rfl | ⟨hτ, hσ⟩)
    · exact .same τ
    · obtain rfl : τ = .basic .float := by
        rcases τ with (_ | _ | _ | _) | _ <;> first | rfl | cases hτ
      obtain rfl : σ = .basic .int := by
        rcases σ with (_ | _ | _ | _) | _ <;> first | rfl | cases hσ
      exact .widen
  · rintro (_ | _)
    · exact .inl rfl
    · exact .inr ⟨rfl, rfl⟩

end TypeSpec

namespace Written

variable {v w : Written} {τ : TypeSpec}

theorem value_or_func (w : Written) :
    (∃ b, w = .basic b) ∨ (∃ size b, w = .value (.array size b)) ∨
      ∃ params result, w = .func params result := by
  rcases w with (b | ⟨size, b⟩) | ⟨params, result⟩
  · exact .inl ⟨b, rfl⟩
  · exact .inr (.inl ⟨size, b, rfl⟩)
  · exact .inr (.inr ⟨params, result, rfl⟩)

@[simp] theorem isError_type (w : Written) : w.type.isError = false := by
  rcases w with ((_ | _ | _ | _) | _) | _ <;> rfl

theorem type_ne_error (w : Written) : w.type ≠ .error := by
  rcases w with ((_ | _ | _ | _) | _) | _ <;> exact fun h => nomatch h

@[simp] theorem isVoid_type (w : Written) : w.type.isVoid = false := by
  rcases w with ((_ | _ | _ | _) | _) | _ <;> rfl

@[simp] theorem fails_type (w : Written) (demand : Ty → Bool) :
    w.type.fails demand = !demand w.type := by
  simp [Ty.fails]

theorem isInt_type_iff : w.type.isInt = true ↔ w = .int := by
  rcases w with ((_ | _ | _ | _) | _) | _ <;> simp [type, TypeSpec.type, BasicType.type, Ty.isInt]

theorem isBool_type_iff : w.type.isBool = true ↔ w = .bool := by
  rcases w with ((_ | _ | _ | _) | _) | _ <;> simp [type, TypeSpec.type, BasicType.type, Ty.isBool]

theorem isArray_type_iff : w.type.isArray = true ↔ ∃ size b, w = .value (.array size b) := by
  rcases w with ((_ | _ | _ | _) | _) | _ <;>
    simp [type, TypeSpec.type, BasicType.type, Ty.isArray]

theorem isPrimitive_type_iff : w.type.isPrimitive = true ↔ ∃ b, w = .basic b := by
  rcases w with ((_ | _ | _ | _) | _) | _ <;>
    simp [type, TypeSpec.type, BasicType.type, Ty.isPrimitive]

theorem isFunction_type (w : Written) : w.type.isFunction = w.isFunction := by
  rcases w with ((_ | _ | _ | _) | _) | _ <;> rfl

theorem isNumeric_type_iff :
    w.type.isNumeric = true ↔ ∃ b : BasicType, b.Numeric ∧ w = .basic b := by
  obtain ⟨b, rfl⟩ | ⟨size, b, rfl⟩ | ⟨params, result, rfl⟩ := w.value_or_func
  · have hb : (Written.basic b).type.isNumeric = true ↔ b.Numeric := b.isNumeric_type_iff
    simp [hb]
  · simp [type, TypeSpec.type, Ty.isNumeric]
  · simp [type, Ty.isNumeric]

theorem comparable_type_iff {op : RelOp} :
    Ty.comparable op v.type w.type = true ↔
      ∃ a b, Comparable op a b ∧ v = .basic a ∧ w = .basic b := by
  constructor
  · intro h
    obtain ⟨a, rfl⟩ : ∃ a, v = .basic a := by
      simp only [Ty.comparable, Bool.or_eq_true, Bool.and_eq_true, Ty.isScalar,
        isPrimitive_type_iff, isNumeric_type_iff] at h
      obtain ⟨⟨a, -, rfl⟩, -⟩ | ⟨⟨-, ⟨a, rfl⟩, -⟩, -⟩ := h <;> exact ⟨a, rfl⟩
    obtain ⟨b, rfl⟩ : ∃ b, w = .basic b := by
      simp only [Ty.comparable, Bool.or_eq_true, Bool.and_eq_true, Ty.isScalar, beq_iff_eq,
        isNumeric_type_iff] at h
      obtain ⟨-, b, -, rfl⟩ | ⟨⟨-, hscalar, -⟩, hsame⟩ := h
      · exact ⟨b, rfl⟩
      · exact isPrimitive_type_iff.mp (hsame ▸ hscalar)
    exact ⟨a, b, BasicType.comparable_type_iff.mp h, rfl, rfl⟩
  · rintro ⟨a, b, h, rfl, rfl⟩
    exact BasicType.comparable_type_iff.mpr h

theorem admits_type_iff : τ.type.admits w.type = true ↔ ∃ σ, Stores σ τ ∧ w = .value σ := by
  cases w with
  | value σ =>
      have hσ : τ.type.admits (Written.value σ).type = true ↔ Stores σ τ :=
        TypeSpec.admits_type_iff
      simp [hσ]
  | func params result =>
      rcases τ with (_ | _ | _ | _) | _ <;>
        simp [type, TypeSpec.type, BasicType.type, Ty.admits, Ty.isInt]

end Written

namespace Rule

variable {v w : Written} {σ τ : TypeSpec} {a b : BasicType} {result : Option TypeSpec}
  {loc loc' : Location}

theorem name_eq_nil_iff {x : Ident} {meaning : Option Binding} :
    name x meaning = [] ↔ meaning.isSome = true := by
  cases meaning <;> simp [name, complainIf]

theorem subscript_eq_nil_iff :
    subscript v.type w.type loc loc' = [] ↔ (∃ size b, v = .value (.array size b)) ∧ w = .int := by
  simp [subscript, complainIf_eq_nil_iff, Written.isArray_type_iff, Written.isInt_type_iff]

theorem elementValue_array (size : Nat) (b : BasicType) :
    elementValue (Written.value (.array size b)).type Written.int.type = (Written.basic b).type :=
  rfl

theorem elementPlace_array (size : Nat) (b : BasicType) :
    elementPlace (Written.value (.array size b)).type Written.int.type = (Written.basic b).type :=
  rfl

theorem not_found_eq_nil_iff : (unary .not w.type loc).found = [] ↔ w = .bool := by
  simp [unary, complainIf_eq_nil_iff, Written.isBool_type_iff]

theorem sign_found_eq_nil_iff {op : UnaryOp} (hop : op ≠ .not) :
    (unary op w.type loc).found = [] ↔ ∃ b : BasicType, b.Numeric ∧ w = .basic b := by
  rw [← Written.isNumeric_type_iff]
  cases op with
  | not => exact absurd rfl hop
  | plus | minus => cases h : w.type.isNumeric <;> simp [unary, h]

theorem sign_type {op : UnaryOp} (hop : op ≠ .not) (hb : b.Numeric) :
    (unary op (Written.basic b).type loc).type = (Written.basic b).type := by
  cases op with
  | not => exact absurd rfl hop
  | plus | minus => cases hb <;> rfl

theorem mod_found_eq_nil_iff :
    (arith .mod v.type w.type loc).found = [] ↔ v = .int ∧ w = .int := by
  rw [← Written.isInt_type_iff, ← Written.isInt_type_iff]
  cases hv : v.type.isInt <;> cases hw : w.type.isInt <;>
    simp [arith, operandOf, hv, hw, apply_ite Verdict.found]

theorem arith_found_eq_nil_iff {op : ArithOp} (hop : op ≠ .mod) :
    (arith op v.type w.type loc).found = [] ↔
      (∃ a : BasicType, a.Numeric ∧ v = .basic a) ∧ ∃ b : BasicType, b.Numeric ∧ w = .basic b := by
  have hoperand : operandOf op = Ty.isNumeric := by
    cases op with
    | mod => exact absurd rfl hop
    | add | sub | mul | div => rfl
  rw [← Written.isNumeric_type_iff, ← Written.isNumeric_type_iff]
  cases hv : v.type.isNumeric <;> cases hw : w.type.isNumeric <;>
    simp [arith, hoperand, hv, hw, apply_ite Verdict.found]

theorem arith_type {op : ArithOp} (hop : op ≠ .mod) (ha : a.Numeric) (hb : b.Numeric) :
    (arith op (Written.basic a).type (Written.basic b).type loc).type =
      (Written.basic (a.sum b)).type := by
  cases op with
  | mod => exact absurd rfl hop
  | add | sub | mul | div => cases ha <;> cases hb <;> rfl

theorem rel_found_eq_nil_iff {op : RelOp} :
    (rel op v.type w.type loc).found = [] ↔
      ∃ a b, Comparable op a b ∧ v = .basic a ∧ w = .basic b := by
  simp [rel, complainIf_eq_nil_iff, Written.comparable_type_iff]

theorem logic_found_eq_nil_iff {op : LogicOp} :
    (logic op v.type w.type loc).found = [] ↔ v = .bool ∧ w = .bool := by
  simp [logic, complainIf_eq_nil_iff, Written.isBool_type_iff]

theorem call_eq_nil_iff {f : Ident} {arity : Nat} :
    call f w.type arity = [] ↔
      ∃ params result, w = .func params result ∧ params.length = arity := by
  rcases w with ((_ | _ | _ | _) | _) | _ <;>
    simp [call, Written.type, TypeSpec.type, BasicType.type, complainIf_eq_nil_iff]

theorem valueCall_eq_nil_iff {f : Ident} {arity : Nat} :
    valueCall f w.type arity = [] ↔
      ∃ params τ, w = .func params (some τ) ∧ params.length = arity := by
  rw [valueCall, List.append_eq_nil_iff, call_eq_nil_iff, complainIf_eq_nil_iff]
  constructor
  · rintro ⟨hvalue, params, result, rfl, harity⟩
    cases result with
    | none => cases hvalue
    | some τ => exact ⟨params, τ, rfl, harity⟩
  · rintro ⟨params, τ, rfl, harity⟩
    exact ⟨(Written.value τ).isVoid_type, params, some τ, rfl, harity⟩

theorem callValue_func (params : List TypeSpec) (τ : TypeSpec) :
    callValue (Written.func params (some τ)).type = (Written.value τ).type := by
  rcases τ with (_ | _ | _ | _) | _ <;> rfl

theorem params_func {params : List TypeSpec} {arity : Nat} (h : params.length = arity) :
    Rule.params (Written.func params result).type arity = params.map TypeSpec.type := by
  simp [Rule.params, Written.type, h]

theorem argument_eq_nil_iff {f : Ident} {k : Nat} :
    argument f k τ.type w.type loc = [] ↔ ∃ σ, Stores σ τ ∧ w = .value σ := by
  simp [argument, complainIf_eq_nil_iff, Written.admits_type_iff]

theorem assignment_eq_nil_iff :
    assignment (Written.value τ).type w.type loc = [] ↔ ∃ σ, Stores σ τ ∧ w = .value σ := by
  have hadmits : (Written.value τ).type.admits = τ.type.admits := rfl
  simp [assignment, complainIf_eq_nil_iff, hadmits, Written.admits_type_iff]

theorem addressable_eq_nil_iff {complaint : Complaint} :
    addressable v.type (!w.isFunction) complaint loc = [] ↔ ∃ τ, w = .value τ := by
  cases w <;> simp [addressable, complainIf_eq_nil_iff, Written.isFunction]

theorem addressable_true (t : Ty) (complaint : Complaint) (loc : Location) :
    addressable t true complaint loc = [] := by
  simp [addressable, complainIf_eq_nil_iff, Ty.fails]

theorem condition_eq_nil_iff {instruction : String} :
    condition instruction w.type loc = [] ↔ w = .bool := by
  simp [condition, complainIf_eq_nil_iff, Written.isBool_type_iff]

theorem readable_eq_nil_iff :
    readable (Written.value τ).type loc = [] ↔ ∃ b, τ = .basic b := by
  have hvalue := (Written.value τ).isFunction_type
  simp [readable, complainIf_eq_nil_iff, Written.isPrimitive_type_iff, hvalue, Written.isFunction]

theorem writable_eq_nil_iff : writable w.type loc = [] ↔ ∃ b, w = .basic b := by
  simp [writable, complainIf_eq_nil_iff, Written.isPrimitive_type_iff]

theorem resultValue_eq_nil_iff :
    resultValue (result.elim .void TypeSpec.type) w.type loc = [] ↔
      ∃ σ τ, result = some τ ∧ Stores σ τ ∧ w = .value σ := by
  cases result with
  | none => simp [resultValue, complainIf_eq_nil_iff, Ty.isVoid]
  | some τ =>
      have hvoid : τ.type.isVoid = false := (Written.value τ).isVoid_type
      simp [resultValue, complainIf_eq_nil_iff, hvoid, Written.admits_type_iff]

theorem resultNone_eq_nil_iff :
    resultNone (result.elim .void TypeSpec.type) loc = [] ↔ result = none := by
  cases result with
  | none => simp [resultNone, complainIf_eq_nil_iff, Ty.isVoid]
  | some τ =>
      have hvoid : τ.type.isVoid = false := (Written.value τ).isVoid_type
      simp [resultNone, complainIf_eq_nil_iff, hvoid]

end Rule

end Asl
