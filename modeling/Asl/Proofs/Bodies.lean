import Asl.Proofs.Reading
import Asl.Proofs.Verdicts

/-!
# Bodies without complaints

Where an environment agrees with a context, a reading finds nothing in an expression
exactly when the expression has a type. An erroneous type never hides a mistake, for it
only comes from an expression in which something was found; so by induction an expression
with nothing found in it has the type that the reading gives it.
-/

namespace Asl

/-- Names mean the same to a reading and to derivations. -/
structure Env.Agrees (env : Env) (Γ : Context) : Prop where
  type : ∀ x, (env x).map Binding.type = (Γ x).map Written.type
  function : ∀ x, (env x).map Binding.isFunction = (Γ x).map Written.isFunction

namespace Env.Agrees

variable {env : Env} {Γ : Context} {x : Ident} {w : Written}

theorem typeOf (h : env.Agrees Γ) (hx : Γ x.name = some w) : env.typeOf x = w.type := by
  have htype := h.type x.name
  rw [hx] at htype
  obtain ⟨b, hb, hbtype⟩ := Option.map_eq_some_iff.mp htype
  rw [Env.typeOf, hb]
  exact hbtype

theorem lvalueOf (h : env.Agrees Γ) (hx : Γ x.name = some w) :
    env.lvalueOf x = !w.isFunction := by
  have hfunction := h.function x.name
  rw [hx] at hfunction
  obtain ⟨b, hb, hbfunction⟩ := Option.map_eq_some_iff.mp hfunction
  rw [Env.lvalueOf, hb, ← hbfunction]
  rfl

theorem found_name_eq_nil_iff (h : env.Agrees Γ) (use : Use) (x : Ident) :
    (x.reading env use).found = [] ↔ ∃ w, Γ x.name = some w := by
  have hbound : (env x.name).isSome = (Γ x.name).isSome := by
    simpa using congrArg Option.isSome (h.type x.name)
  simp [Ident.reading, Rule.name_eq_nil_iff, hbound, Option.isSome_iff_exists]

end Env.Agrees

section

variable {env : Env} {Γ : Context}

/-- Nothing is found in the expression, and its type is one that can be written. -/
structure Expr.ReadsAs (env : Env) (e : Expr) (w : Written) : Prop where
  found : (e.reading env).found = []
  type : e.type env = w.type

namespace Expr

variable {n : Node} {x : Ident} {u v w : Written}

theorem found_var : ((var n x).reading env).found = (x.reading env .plain).found := by
  simp [reading]

theorem found_paren {e : Expr} : ((paren n e).reading env).found = (e.reading env).found := by
  simp [reading]

theorem found_index_eq_nil_iff {e : Expr} :
    ((index n x e).reading env).found = [] ↔
      (x.reading env .plain).found = [] ∧ (e.reading env).found = [] ∧
        Rule.subscript (env.typeOf x) (e.type env) n.loc e.loc = [] := by
  simp [reading]

theorem found_call_eq_nil_iff {args : List Expr} :
    ((call n x args).reading env).found = [] ↔
      (x.reading env .called).found = [] ∧ Rule.valueCall x (env.typeOf x) args.length = [] ∧
        (argsReading env x 1 (Rule.params (env.typeOf x) args.length) args).found = [] := by
  simp [reading]

theorem found_unary_eq_nil_iff {op : UnaryOp} {e : Expr} :
    ((unary n op e).reading env).found = [] ↔
      (e.reading env).found = [] ∧ (Rule.unary op (e.type env) n.loc).found = [] := by
  simp [reading]

theorem found_binary_eq_nil_iff {op : BinaryOp} {l r : Expr} :
    ((binary n op l r).reading env).found = [] ↔
      (l.reading env).found = [] ∧ (r.reading env).found = [] ∧
        (Rule.binary op (l.type env) (r.type env) n.loc).found = [] := by
  simp [reading]

theorem ReadsAs.unary {op : UnaryOp} {e : Expr} (he : e.ReadsAs env v)
    (hfound : (Rule.unary op v.type n.loc).found = [])
    (htype : (Rule.unary op v.type n.loc).type = w.type) : (unary n op e).ReadsAs env w := by
  refine ⟨found_unary_eq_nil_iff.mpr ⟨he.found, ?_⟩, ?_⟩
  · rw [he.type, hfound]
  · rw [Expr.type, he.type, htype]

theorem ReadsAs.binary {op : BinaryOp} {l r : Expr} (hl : l.ReadsAs env u)
    (hr : r.ReadsAs env v) (hfound : (Rule.binary op u.type v.type n.loc).found = [])
    (htype : (Rule.binary op u.type v.type n.loc).type = w.type) :
    (binary n op l r).ReadsAs env w := by
  refine ⟨found_binary_eq_nil_iff.mpr ⟨hl.found, hr.found, ?_⟩, ?_⟩
  · rw [hl.type, hr.type, hfound]
  · rw [Expr.type, hl.type, hr.type, htype]

end Expr

theorem found_argsReading_cons_eq_nil_iff {f : Ident} {k : Nat} {param : Ty} {params : List Ty}
    {e : Expr} {rest : List Expr} :
    (argsReading env f k (param :: params) (e :: rest)).found = [] ↔
      (e.reading env).found = [] ∧ Rule.argument f k param (e.type env) e.loc = [] ∧
        (argsReading env f (k + 1) params rest).found = [] := by
  simp [argsReading]

mutual
theorem Expr.typed_of_found (h : env.Agrees Γ) :
    ∀ e : Expr, (e.reading env).found = [] → ∃ w, HasType Γ e w ∧ e.type env = w.type
  | .lit n v, _ => ⟨.basic v.basic, .lit n v, by cases v <;> rfl⟩
  | .var n x, hfound => by
      rw [Expr.found_var] at hfound
      obtain ⟨w, hx⟩ := (h.found_name_eq_nil_iff .plain x).mp hfound
      exact ⟨w, .var hx, h.typeOf hx⟩
  | .paren n e, hfound => by
      rw [Expr.found_paren] at hfound
      obtain ⟨w, he, htype⟩ := e.typed_of_found h hfound
      exact ⟨w, .paren he, htype⟩
  | .index n x e, hfound => by
      obtain ⟨hname, hsubscript, hrule⟩ := Expr.found_index_eq_nil_iff.mp hfound
      obtain ⟨v, hx⟩ := (h.found_name_eq_nil_iff .plain x).mp hname
      obtain ⟨w, he, htype⟩ := e.typed_of_found h hsubscript
      rw [h.typeOf hx, htype, Rule.subscript_eq_nil_iff] at hrule
      obtain ⟨⟨size, b, rfl⟩, rfl⟩ := hrule
      refine ⟨.basic b, .index hx he, ?_⟩
      rw [Expr.type, h.typeOf hx, htype, Rule.elementValue_array]
  | .call n f args, hfound => by
      obtain ⟨hname, hrule, hargs⟩ := Expr.found_call_eq_nil_iff.mp hfound
      obtain ⟨w, hf⟩ := (h.found_name_eq_nil_iff .called f).mp hname
      rw [h.typeOf hf, Rule.valueCall_eq_nil_iff] at hrule
      obtain ⟨params, τ, rfl, harity⟩ := hrule
      rw [h.typeOf hf, Rule.params_func harity] at hargs
      have hfit := argsFit_of_found h f 1 params args harity hargs
      exact ⟨.value τ, .call hf hfit, by rw [Expr.type, h.typeOf hf, Rule.callValue_func]⟩
  | .unary n op e, hfound => by
      obtain ⟨hoperand, hrule⟩ := Expr.found_unary_eq_nil_iff.mp hfound
      obtain ⟨w, he, htype⟩ := e.typed_of_found h hoperand
      rw [htype] at hrule
      by_cases hop : op = .not
      · subst hop
        obtain rfl := Rule.not_found_eq_nil_iff.mp hrule
        exact ⟨.bool, .not he, rfl⟩
      · obtain ⟨b, hb, rfl⟩ := (Rule.sign_found_eq_nil_iff hop).mp hrule
        exact ⟨.basic b, .sign hop hb he, by rw [Expr.type, htype, Rule.sign_type hop hb]⟩
  | .binary n op l r, hfound => by
      obtain ⟨hleft, hright, hrule⟩ := Expr.found_binary_eq_nil_iff.mp hfound
      obtain ⟨v, hl, hltype⟩ := l.typed_of_found h hleft
      obtain ⟨w, hr, hrtype⟩ := r.typed_of_found h hright
      rw [hltype, hrtype] at hrule
      -- Neither operand is erroneous, so the rule is silent on its own account.
      have htype : (Expr.binary n op l r).type env = (Rule.binary op v.type w.type n.loc).type := by
        rw [Expr.type, hltype, hrtype]
      cases op with
      | arith op =>
          by_cases hop : op = .mod
          · subst hop
            obtain ⟨rfl, rfl⟩ := Rule.mod_found_eq_nil_iff.mp hrule
            exact ⟨.int, .mod hl hr, htype⟩
          · obtain ⟨⟨a, ha, rfl⟩, b, hb, rfl⟩ := (Rule.arith_found_eq_nil_iff hop).mp hrule
            refine ⟨.basic (a.sum b), .arith hop ha hb hl hr, ?_⟩
            exact htype.trans (Rule.arith_type hop ha hb)
      | rel op =>
          obtain ⟨a, b, hab, rfl, rfl⟩ := Rule.rel_found_eq_nil_iff.mp hrule
          exact ⟨.bool, .rel hab hl hr, rfl⟩
      | logic op =>
          obtain ⟨rfl, rfl⟩ := Rule.logic_found_eq_nil_iff.mp hrule
          exact ⟨.bool, .logic hl hr, rfl⟩
theorem argsFit_of_found (h : env.Agrees Γ) (f : Ident) :
    ∀ (k : Nat) (params : List TypeSpec) (args : List Expr), params.length = args.length →
      (argsReading env f k (params.map TypeSpec.type) args).found = [] → ArgsFit Γ args params
  | _, [], [], _, _ => .nil
  | _, [], _ :: _, hlength, _ => by simp at hlength
  | _, _ :: _, [], hlength, _ => by simp at hlength
  | k, τ :: params, e :: rest, hlength, hfound => by
      obtain ⟨harg, hrule, hrest⟩ := found_argsReading_cons_eq_nil_iff.mp hfound
      obtain ⟨w, he, htype⟩ := e.typed_of_found h harg
      rw [htype, Rule.argument_eq_nil_iff] at hrule
      obtain ⟨σ, hσ, rfl⟩ := hrule
      exact .cons he hσ (argsFit_of_found h f (k + 1) params rest (by simpa using hlength) hrest)
end

mutual
theorem HasType.readsAs (h : env.Agrees Γ) :
    ∀ {e : Expr} {w : Written}, HasType Γ e w → e.ReadsAs env w
  | _, _, .lit n v => ⟨rfl, by cases v <;> rfl⟩
  | .var n x, w, .var hx => by
      have hname := (h.found_name_eq_nil_iff .plain x).mpr ⟨w, hx⟩
      exact ⟨Expr.found_var.trans hname, h.typeOf hx⟩
  | _, _, .paren he => by
      obtain ⟨hfound, htype⟩ := he.readsAs h
      exact ⟨Expr.found_paren.trans hfound, htype⟩
  | .index n x e, _, .index hx he => by
      obtain ⟨hfound, htype⟩ := he.readsAs h
      have hname := (h.found_name_eq_nil_iff .plain x).mpr ⟨_, hx⟩
      refine ⟨Expr.found_index_eq_nil_iff.mpr ⟨hname, hfound, ?_⟩, ?_⟩
      · rw [h.typeOf hx, htype]
        exact Rule.subscript_eq_nil_iff.mpr ⟨⟨_, _, rfl⟩, rfl⟩
      · rw [Expr.type, h.typeOf hx, htype, Rule.elementValue_array]
  | .call n f args, _, .call hf hargs => by
      obtain ⟨harity, hfound⟩ := hargs.length_and_found h
      have hname := (h.found_name_eq_nil_iff .called f).mpr ⟨_, hf⟩
      refine ⟨Expr.found_call_eq_nil_iff.mpr ⟨hname, ?_, ?_⟩, ?_⟩
      · rw [h.typeOf hf]
        exact Rule.valueCall_eq_nil_iff.mpr ⟨_, _, rfl, harity⟩
      · rw [h.typeOf hf, Rule.params_func harity]
        exact hfound f 1
      · rw [Expr.type, h.typeOf hf, Rule.callValue_func]
  | _, _, .not he => (he.readsAs h).unary (Rule.not_found_eq_nil_iff.mpr rfl) rfl
  | _, _, .sign hop hb he => by
      refine (he.readsAs h).unary ?_ (Rule.sign_type hop hb)
      exact (Rule.sign_found_eq_nil_iff hop).mpr ⟨_, hb, rfl⟩
  | _, _, .arith hop ha hb hl hr => by
      refine (hl.readsAs h).binary (hr.readsAs h) ?_ (Rule.arith_type hop ha hb)
      exact (Rule.arith_found_eq_nil_iff hop).mpr ⟨⟨_, ha, rfl⟩, _, hb, rfl⟩
  | _, _, .mod hl hr =>
      (hl.readsAs h).binary (hr.readsAs h) (Rule.mod_found_eq_nil_iff.mpr ⟨rfl, rfl⟩) rfl
  | _, _, .rel hab hl hr => by
      refine (hl.readsAs h).binary (hr.readsAs h) ?_ rfl
      exact Rule.rel_found_eq_nil_iff.mpr ⟨_, _, hab, rfl, rfl⟩
  | _, _, .logic hl hr =>
      (hl.readsAs h).binary (hr.readsAs h) (Rule.logic_found_eq_nil_iff.mpr ⟨rfl, rfl⟩) rfl
theorem ArgsFit.length_and_found (h : env.Agrees Γ) :
    ∀ {args : List Expr} {params : List TypeSpec}, ArgsFit Γ args params →
      params.length = args.length ∧
        ∀ f k, (argsReading env f k (params.map TypeSpec.type) args).found = []
  | _, _, .nil => ⟨rfl, fun _ _ => by simp⟩
  | _, _, .cons he hσ hrest => by
      obtain ⟨hfound, htype⟩ := he.readsAs h
      obtain ⟨hlength, hargs⟩ := hrest.length_and_found h
      refine ⟨by simp [hlength], fun f k => found_argsReading_cons_eq_nil_iff.mpr ?_⟩
      rw [htype]
      exact ⟨hfound, Rule.argument_eq_nil_iff.mpr ⟨_, hσ, rfl⟩, hargs f (k + 1)⟩
end

theorem exists_hasType_iff (h : env.Agrees Γ) (e : Expr) (demand : Ty → Prop) :
    (e.reading env).found = [] ∧ demand (e.type env) ↔ ∃ w, HasType Γ e w ∧ demand w.type := by
  constructor
  · rintro ⟨hfound, hdemand⟩
    obtain ⟨w, he, htype⟩ := e.typed_of_found h hfound
    exact ⟨w, he, htype ▸ hdemand⟩
  · rintro ⟨w, he, hdemand⟩
    obtain ⟨hfound, htype⟩ := he.readsAs h
    exact ⟨hfound, htype ▸ hdemand⟩

/-- Nothing is found in the target, and it is a place for values of a type. -/
structure Target.ReadsAs (env : Env) (t : Target) (τ : TypeSpec) : Prop where
  found : (t.reading env).found = []
  type : t.type env = (Written.value τ).type
  lvalue : env.lvalueOf t.ident = true

theorem Target.element_of_found (h : env.Agrees Γ) {n : Node} {x : Ident} {e : Expr}
    (hfound : (reading env ⟨n, x, some e⟩).found = []) :
    ∃ b, HasPlace Γ ⟨n, x, some e⟩ (.basic b) ∧
      type env ⟨n, x, some e⟩ = (Written.basic b).type := by
  obtain ⟨hname, hsubscript, hrule⟩ : (x.reading env .plain).found = [] ∧
      (e.reading env).found = [] ∧
        Rule.subscript (env.typeOf x) (e.type env) n.loc e.loc = [] := by
    simpa [reading] using hfound
  obtain ⟨v, hx⟩ := (h.found_name_eq_nil_iff .plain x).mp hname
  obtain ⟨w, he, htype⟩ := e.typed_of_found h hsubscript
  rw [h.typeOf hx, htype, Rule.subscript_eq_nil_iff] at hrule
  obtain ⟨⟨size, b, rfl⟩, rfl⟩ := hrule
  refine ⟨b, .element hx he, ?_⟩
  simp only [type, h.typeOf hx, htype, Rule.elementPlace_array]

theorem Target.typed_of_found (h : env.Agrees Γ) {t : Target} {complaint : Complaint}
    {loc : Location} (hfound : (t.reading env).found = [])
    (hplace : t.unaddressable env complaint loc = []) :
    ∃ τ, HasPlace Γ t τ ∧ t.type env = (Written.value τ).type := by
  obtain ⟨n, x, subscript⟩ := t
  cases subscript with
  | none =>
      obtain ⟨w, hx⟩ := (h.found_name_eq_nil_iff .plain x).mp (by simpa [reading] using hfound)
      have htype : type env ⟨n, x, none⟩ = w.type := h.typeOf hx
      -- So far `x` may be a function; only the test for a place rules that out.
      rw [unaddressable, htype, h.lvalueOf hx, Rule.addressable_eq_nil_iff] at hplace
      obtain ⟨τ, rfl⟩ := hplace
      exact ⟨τ, .whole hx, htype⟩
  | some e =>
      obtain ⟨b, helement, htype⟩ := Target.element_of_found h hfound
      exact ⟨.basic b, helement, htype⟩

theorem HasPlace.readsAs (h : env.Agrees Γ) {t : Target} {τ : TypeSpec}
    (ht : HasPlace Γ t τ) : t.ReadsAs env τ := by
  cases ht with
  | @whole n x τ hx =>
      have hname := (h.found_name_eq_nil_iff .plain x).mpr ⟨_, hx⟩
      exact ⟨by simpa [Target.reading] using hname, h.typeOf hx, h.lvalueOf hx⟩
  | @element n x e size b hx he =>
      obtain ⟨hfound, htype⟩ := he.readsAs h
      have hname := (h.found_name_eq_nil_iff .plain x).mpr ⟨_, hx⟩
      have hrule : Rule.subscript (env.typeOf x) (e.type env) n.loc e.loc = [] := by
        rw [h.typeOf hx, htype]
        exact Rule.subscript_eq_nil_iff.mpr ⟨⟨_, _, rfl⟩, rfl⟩
      refine ⟨by simp [Target.reading, hname, hfound, hrule], ?_, h.lvalueOf hx⟩
      simp only [Target.type, h.typeOf hx, htype, Rule.elementPlace_array]

theorem exists_hasPlace_iff (h : env.Agrees Γ) (t : Target) (complaint : Complaint)
    (loc : Location) (demand : Ty → Prop) :
    (t.reading env).found = [] ∧ demand (t.type env) ∧ t.unaddressable env complaint loc = [] ↔
      ∃ τ, HasPlace Γ t τ ∧ demand (Written.value τ).type := by
  constructor
  · rintro ⟨hfound, hdemand, hplace⟩
    obtain ⟨τ, ht, htype⟩ := Target.typed_of_found h hfound hplace
    exact ⟨τ, ht, htype ▸ hdemand⟩
  · rintro ⟨τ, ht, hdemand⟩
    obtain ⟨hfound, htype, hlvalue⟩ := ht.readsAs h
    refine ⟨hfound, htype ▸ hdemand, ?_⟩
    rw [Target.unaddressable, hlvalue, Rule.addressable_true]

/-- Arguments are asked the same, whether each is held against its parameter at once or
all are visited before. -/
theorem found_argsReading_eq_nil_iff {f : Ident} {k : Nat} {params : List Ty} {args : List Expr}
    (hlength : params.length = args.length) :
    (argsReading env f k params args).found = [] ↔
      (exprsReading env args).found = [] ∧
        Rule.arguments f k params (args.map fun e => (e.type env, e.loc)) = [] := by
  induction args generalizing k params with
  | nil => simp_all [exprsReading, Rule.arguments]
  | cons e rest ih =>
      cases params with
      | nil => simp at hlength
      | cons param params =>
          have hrest := ih (k := k + 1) (by simpa using hlength)
          simp only [found_argsReading_cons_eq_nil_iff, hrest, exprsReading, Reading.found_append,
            List.append_eq_nil_iff, List.map_cons, Rule.arguments]
          constructor
          · rintro ⟨he, hrule, hargs, hrules⟩
            exact ⟨⟨he, hargs⟩, hrule, hrules⟩
          · rintro ⟨⟨he, hargs⟩, hrule, hrules⟩
            exact ⟨he, hrule, hargs, hrules⟩

variable {result : Option TypeSpec}

theorem found_assign_eq_nil_iff (h : env.Agrees Γ) {loc : Location} {target : Target}
    {value : Expr} {declared : Ty} :
    ((Stmt.assign loc target value).reading env declared).found = [] ↔
      StmtTyped Γ result (.assign loc target value) := by
  simp only [Stmt.reading, Reading.found_append, Reading.found_reports, List.append_eq_nil_iff]
  constructor
  · rintro ⟨⟨⟨htarget, hvalue⟩, hrule⟩, hplace⟩
    obtain ⟨τ, ht, httype⟩ := Target.typed_of_found h htarget hplace
    obtain ⟨w, he, hetype⟩ := value.typed_of_found h hvalue
    rw [httype, hetype, Rule.assignment_eq_nil_iff] at hrule
    obtain ⟨σ, hσ, rfl⟩ := hrule
    exact .assign ht he hσ
  · intro hs
    cases hs with
    | assign ht he hσ =>
        obtain ⟨htarget, httype, hlvalue⟩ := ht.readsAs h
        obtain ⟨hvalue, hetype⟩ := he.readsAs h
        rw [Target.unaddressable, httype, hetype, hlvalue]
        refine ⟨⟨⟨htarget, hvalue⟩, ?_⟩, Rule.addressable_true _ _ _⟩
        exact Rule.assignment_eq_nil_iff.mpr ⟨_, hσ, rfl⟩

theorem found_call_eq_nil_iff (h : env.Agrees Γ) {loc : Location} {f : Ident}
    {args : List Expr} {declared : Ty} :
    ((Stmt.call loc f args).reading env declared).found = [] ↔
      StmtTyped Γ result (.call loc f args) := by
  simp only [Stmt.reading, Reading.found_append, Reading.found_reports, List.append_eq_nil_iff]
  constructor
  · rintro ⟨⟨⟨hname, hargs⟩, hrule⟩, hfit⟩
    obtain ⟨w, hf⟩ := (h.found_name_eq_nil_iff .called f).mp hname
    rw [h.typeOf hf, Rule.call_eq_nil_iff] at hrule
    obtain ⟨params, given, rfl, harity⟩ := hrule
    rw [h.typeOf hf, Rule.params_func harity] at hfit
    have hlength : (params.map TypeSpec.type).length = args.length := by simpa using harity
    have hfound := (found_argsReading_eq_nil_iff hlength).mpr ⟨hargs, hfit⟩
    exact .call hf (argsFit_of_found h f 1 params args harity hfound)
  · intro hs
    cases hs with
    | @call _ _ _ params _ hf hfit =>
        obtain ⟨harity, hfound⟩ := hfit.length_and_found h
        have hlength : (params.map TypeSpec.type).length = args.length := by simpa using harity
        obtain ⟨hargs, hrule⟩ := (found_argsReading_eq_nil_iff hlength).mp (hfound f 1)
        have hname := (h.found_name_eq_nil_iff .called f).mpr ⟨_, hf⟩
        rw [h.typeOf hf, Rule.params_func harity]
        exact ⟨⟨⟨hname, hargs⟩, Rule.call_eq_nil_iff.mpr ⟨_, _, rfl, harity⟩⟩, hrule⟩

theorem found_read_eq_nil_iff (h : env.Agrees Γ) {loc : Location} {target : Target}
    {declared : Ty} :
    ((Stmt.read loc target).reading env declared).found = [] ↔
      StmtTyped Γ result (.read loc target) := by
  have htarget := exists_hasPlace_iff h target .readNotAddressable loc
    fun t => Rule.readable t loc = []
  simp only [Stmt.reading, Reading.found_append, Reading.found_reports, List.append_eq_nil_iff,
    and_assoc, htarget, Rule.readable_eq_nil_iff]
  constructor
  · rintro ⟨τ, ht, b, rfl⟩
    exact .read ht
  · intro hs
    cases hs with
    | read ht => exact ⟨_, ht, _, rfl⟩

theorem found_write_eq_nil_iff (h : env.Agrees Γ) {loc : Location} {value : Expr}
    {declared : Ty} :
    ((Stmt.write loc value).reading env declared).found = [] ↔
      StmtTyped Γ result (.write loc value) := by
  have hvalue := exists_hasType_iff h value fun t => Rule.writable t loc = []
  simp only [Stmt.reading, Reading.found_append, Reading.found_reports, List.append_eq_nil_iff,
    hvalue, Rule.writable_eq_nil_iff]
  constructor
  · rintro ⟨w, he, b, rfl⟩
    exact .write he
  · intro hs
    cases hs with
    | write he => exact ⟨_, he, _, rfl⟩

theorem found_ret_eq_nil_iff (h : env.Agrees Γ) {loc : Location} {value : Option Expr} :
    ((Stmt.ret loc value).reading env (result.elim .void TypeSpec.type)).found = [] ↔
      StmtTyped Γ result (.ret loc value) := by
  cases value with
  | none =>
      simp only [Stmt.reading, Reading.found_reports, Rule.resultNone_eq_nil_iff]
      constructor
      · exact .retNone
      · intro hs
        cases hs with
        | retNone hresult => exact hresult
  | some value =>
      have hvalue := exists_hasType_iff h value
        fun t => Rule.resultValue (result.elim .void TypeSpec.type) t loc = []
      simp only [Stmt.reading, Reading.found_append, Reading.found_reports,
        List.append_eq_nil_iff, hvalue, Rule.resultValue_eq_nil_iff]
      constructor
      · rintro ⟨w, he, σ, τ, hresult, hσ, rfl⟩
        exact .retSome hresult he hσ
      · intro hs
        cases hs with
        | retSome hresult he hσ => exact ⟨_, he, _, _, hresult, hσ, rfl⟩

theorem found_condition_eq_nil_iff (h : env.Agrees Γ) {condition : Expr} {instruction : String}
    {loc : Location} :
    (condition.reading env).found = [] ∧
        Rule.condition instruction (condition.type env) loc = [] ↔
      HasType Γ condition .bool := by
  rw [exists_hasType_iff h condition fun t => Rule.condition instruction t loc = []]
  simp [Rule.condition_eq_nil_iff]

mutual
theorem Stmt.found_eq_nil_iff (h : env.Agrees Γ) (result : Option TypeSpec) :
    ∀ s : Stmt, (s.reading env (result.elim .void TypeSpec.type)).found = [] ↔
      StmtTyped Γ result s
  | .assign _ _ _ => found_assign_eq_nil_iff h
  | .ite loc condition yes none => by
      simp only [Stmt.reading, Reading.found_append, Reading.found_reports,
        List.append_nil, List.append_eq_nil_iff, found_condition_eq_nil_iff h,
        found_blockReading_eq_nil_iff h result yes]
      constructor
      · rintro ⟨hcondition, hyes⟩
        exact .ite hcondition hyes
      · intro hs
        cases hs with
        | ite hcondition hyes => exact ⟨hcondition, hyes⟩
  | .ite loc condition yes (some no) => by
      simp only [Stmt.reading, Reading.found_append, Reading.found_reports,
        List.append_eq_nil_iff, found_condition_eq_nil_iff h,
        found_blockReading_eq_nil_iff h result yes, found_blockReading_eq_nil_iff h result no]
      constructor
      · rintro ⟨⟨hcondition, hyes⟩, hno⟩
        exact .iteElse hcondition hyes hno
      · intro hs
        cases hs with
        | iteElse hcondition hyes hno => exact ⟨⟨hcondition, hyes⟩, hno⟩
  | .loop loc condition body => by
      simp only [Stmt.reading, Reading.found_append, Reading.found_reports,
        List.append_eq_nil_iff, found_condition_eq_nil_iff h,
        found_blockReading_eq_nil_iff h result body]
      constructor
      · rintro ⟨hcondition, hbody⟩
        exact .loop hcondition hbody
      · intro hs
        cases hs with
        | loop hcondition hbody => exact ⟨hcondition, hbody⟩
  | .call _ _ _ => found_call_eq_nil_iff h
  | .read _ _ => found_read_eq_nil_iff h
  | .write _ _ => found_write_eq_nil_iff h
  | .print loc text => iff_of_true rfl (.print loc text)
  | .ret _ _ => found_ret_eq_nil_iff h
theorem found_blockReading_eq_nil_iff (h : env.Agrees Γ) (result : Option TypeSpec) :
    ∀ ss : List Stmt, (blockReading env (result.elim .void TypeSpec.type) ss).found = [] ↔
      BlockTyped Γ result ss
  | [] => iff_of_true rfl .nil
  | s :: rest => by
      simp only [blockReading, Reading.found_append, List.append_eq_nil_iff,
        s.found_eq_nil_iff h result, found_blockReading_eq_nil_iff h result rest]
      constructor
      · rintro ⟨hs, hrest⟩
        exact .cons hs hrest
      · intro hss
        cases hss with
        | cons hs hrest => exact ⟨hs, hrest⟩
end

end

end Asl
