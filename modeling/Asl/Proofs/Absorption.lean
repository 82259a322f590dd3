import Asl.Proofs.Acceptance
import Asl.Proofs.Replacement

/-!
# One mistake is found once

Every rule accepts an erroneous operand in the place of any other. So where an expression
with nothing found in it gets another part, what is found in the whole is what is found in
the new part, as long as that is erroneous; from there on upwards the type is erroneous or
what it was before. In statements nothing is left of it.
-/

namespace Asl

/-- The type is accepted in the place of the other: it is erroneous, or it is the other. -/
def Ty.PassesFor (u t : Ty) : Prop := u = .error ∨ u = t

namespace Ty.PassesFor

theorem refl (t : Ty) : t.PassesFor t := .inr rfl

theorem fails {u t : Ty} (h : u.PassesFor t) {demand : Ty → Bool}
    (ht : t.fails demand = false) : u.fails demand = false := by
  rcases h with rfl | rfl
  · rfl
  · exact ht

theorem complainIf_fails {u t : Ty} (h : u.PassesFor t) {demand : Ty → Bool}
    {complaint : Complaint} {loc loc' : Location}
    (ht : complainIf (t.fails demand) complaint loc = []) :
    complainIf (u.fails demand) complaint loc' = [] :=
  complainIf_eq_nil_iff.mpr (h.fails (complainIf_eq_nil_iff.mp ht))

end Ty.PassesFor

namespace Rule

variable {t u l l' r r' : Ty} {loc loc' at' : Location}

theorem subscript_passes {base base' : Ty} (hb : base'.PassesFor base) (h : u.PassesFor t)
    (hfound : subscript base t loc loc' = []) : subscript base' u loc at' = [] := by
  rw [subscript, List.append_eq_nil_iff] at hfound ⊢
  obtain ⟨hbase, hindex⟩ := hfound
  exact ⟨hb.complainIf_fails hbase, h.complainIf_fails hindex⟩

/-- A bad subscript is no reason to doubt the element. -/
theorem element_passes {base : Ty} (h : u.PassesFor t)
    (hfound : subscript base t loc loc' = []) :
    elementValue base u = elementValue base t ∧ elementPlace base u = elementPlace base t := by
  simp only [subscript, List.append_eq_nil_iff, complainIf_eq_nil_iff] at hfound
  obtain ⟨hbase, hindex⟩ := hfound
  simp [elementValue, elementPlace, hbase, hindex, h.fails hindex]

theorem unary_passes {op : UnaryOp} (h : u.PassesFor t) (hfound : (unary op t loc).found = []) :
    (unary op u loc).found = [] ∧ (unary op u loc).type.PassesFor (unary op t loc).type := by
  rcases h with rfl | rfl
  · cases op with
    | not => exact ⟨rfl, .refl _⟩
    | plus | minus => exact ⟨rfl, .inl rfl⟩
  · exact ⟨hfound, .refl _⟩

theorem arith_passes {op : ArithOp} (hl : l'.PassesFor l) (hr : r'.PassesFor r)
    (hfound : (arith op l r loc).found = []) :
    (arith op l' r' loc).found = [] ∧
      (arith op l' r' loc).type.PassesFor (arith op l r loc).type := by
  have hfits : (l.fails (operandOf op) || r.fails (operandOf op)) = false := by
    cases hfails : l.fails (operandOf op) || r.fails (operandOf op) with
    | false => rfl
    | true => simp [arith, hfails] at hfound
  have hboth := hfits
  rw [Bool.or_eq_false_iff] at hboth
  have hfits' : (l'.fails (operandOf op) || r'.fails (operandOf op)) = false := by
    rw [hl.fails hboth.1, hr.fails hboth.2]
    rfl
  have hrule : arith op l' r' loc =
      if l'.isError || r'.isError then ⟨.error, []⟩
      else if l'.isFloat || r'.isFloat then ⟨.float, []⟩ else ⟨.int, []⟩ := by
    rw [arith, hfits']
    rfl
  rcases hl with rfl | rfl
  · exact ⟨by rw [hrule]; rfl, .inl (by rw [hrule]; rfl)⟩
  · rcases hr with rfl | rfl
    · have herror : arith op l' .error loc = ⟨.error, []⟩ := by
        rw [hrule]
        simp [Ty.isError]
      exact ⟨by rw [herror], .inl (by rw [herror])⟩
    · exact ⟨hfound, .refl _⟩

theorem binary_passes {op : BinaryOp} (hl : l'.PassesFor l) (hr : r'.PassesFor r)
    (hfound : (binary op l r loc).found = []) :
    (binary op l' r' loc).found = [] ∧
      (binary op l' r' loc).type.PassesFor (binary op l r loc).type := by
  cases op with
  | arith op => exact arith_passes hl hr hfound
  | rel op =>
      refine ⟨?_, .refl _⟩
      rcases hl with rfl | rfl
      · rfl
      · rcases hr with rfl | rfl
        · simp [binary, rel, complainIf]
        · exact hfound
  | logic op =>
      refine ⟨?_, .refl _⟩
      simp only [binary, logic, complainIf_eq_nil_iff, Bool.or_eq_false_iff] at hfound ⊢
      exact ⟨hl.fails hfound.1, hr.fails hfound.2⟩

theorem argument_passes {f : Ident} {k : Nat} {param : Ty} (h : u.PassesFor t)
    (hfound : argument f k param t loc = []) : argument f k param u loc' = [] :=
  h.complainIf_fails hfound

theorem condition_passes {instruction : String} (h : u.PassesFor t)
    (hfound : condition instruction t loc = []) : condition instruction u loc = [] :=
  h.complainIf_fails hfound

theorem writable_passes (h : u.PassesFor t) (hfound : writable t loc = []) :
    writable u loc = [] := h.complainIf_fails hfound

theorem assignment_passes (hl : l'.PassesFor l) (hr : r'.PassesFor r)
    (hfound : assignment l r loc = []) : assignment l' r' loc = [] := by
  rcases hl with rfl | rfl
  · rfl
  · simp only [assignment, complainIf_eq_nil_iff, Bool.and_eq_false_iff] at hfound ⊢
    exact hfound.imp id hr.fails

theorem resultValue_passes {declared : Ty} (h : u.PassesFor t)
    (hfound : resultValue declared t loc = []) : resultValue declared u loc = [] := by
  simp only [resultValue, complainIf_eq_nil_iff, Bool.or_eq_false_iff] at hfound ⊢
  exact ⟨hfound.1, h.fails hfound.2⟩

end Rule

/-- In `e'` these complaints are found, and it is accepted in the place of `e`. -/
structure Expr.Absorbs (env : Env) (ds : List Diagnostic) (e e' : Expr) : Prop where
  found : (e'.reading env).found = ds
  type : (e'.type env).PassesFor (e.type env)

section

variable {env : Env} {Γ : Context} {ds : List Diagnostic} {R : Expr → Expr → Prop}
  {S : Stmt → Stmt → Prop}

mutual
theorem Expr.Within.absorbs (h : env.Agrees Γ)
    (hR : ∀ {e e'}, R e e' → (e.reading env).found = [] → Expr.Absorbs env ds e e') :
    ∀ {e e' : Expr}, Expr.Within R e e' → (e.reading env).found = [] → Expr.Absorbs env ds e e'
  | _, _, .here he, hfound => hR he hfound
  | _, _, .paren he, hfound => by
      rw [Expr.found_paren] at hfound
      obtain ⟨hnew, htype⟩ := he.absorbs h hR hfound
      exact ⟨Expr.found_paren.trans hnew, htype⟩
  | _, _, .index he, hfound => by
      obtain ⟨hname, hsubscript, hrule⟩ := Expr.found_index_eq_nil_iff.mp hfound
      obtain ⟨hnew, htype⟩ := he.absorbs h hR hsubscript
      refine ⟨?_, ?_⟩
      · simp [Expr.reading, hname, hnew, Rule.subscript_passes (.refl _) htype hrule]
      · exact .inr (Rule.element_passes htype hrule).1
  | _, _, @Expr.Within.call _ n f args args' hargs, hfound => by
      obtain ⟨hname, hrule, hvalues⟩ := Expr.found_call_eq_nil_iff.mp hfound
      obtain ⟨w, hf⟩ := (h.found_name_eq_nil_iff .called f).mp hname
      -- The arguments are entered only because their number was right before the change.
      have harity : (Rule.params (env.typeOf f) args.length).length = args.length := by
        rw [h.typeOf hf, Rule.valueCall_eq_nil_iff] at hrule
        obtain ⟨params, τ, rfl, harity⟩ := hrule
        rw [h.typeOf hf, Rule.params_func harity, List.length_map, harity]
      have hnew := hargs.found_argsReading h hR harity hvalues
      refine ⟨?_, .refl _⟩
      simp [Expr.reading, hargs.length_eq, hname, hrule, hnew]
  | _, _, .unary he, hfound => by
      obtain ⟨hoperand, hrule⟩ := Expr.found_unary_eq_nil_iff.mp hfound
      obtain ⟨hnew, htype⟩ := he.absorbs h hR hoperand
      obtain ⟨hrule', htype'⟩ := Rule.unary_passes htype hrule
      exact ⟨by simp [Expr.reading, hnew, hrule'], htype'⟩
  | _, _, .left hl, hfound => by
      obtain ⟨hleft, hright, hrule⟩ := Expr.found_binary_eq_nil_iff.mp hfound
      obtain ⟨hnew, htype⟩ := hl.absorbs h hR hleft
      obtain ⟨hrule', htype'⟩ := Rule.binary_passes htype (.refl _) hrule
      exact ⟨by simp [Expr.reading, hnew, hright, hrule'], htype'⟩
  | _, _, .right hr, hfound => by
      obtain ⟨hleft, hright, hrule⟩ := Expr.found_binary_eq_nil_iff.mp hfound
      obtain ⟨hnew, htype⟩ := hr.absorbs h hR hright
      obtain ⟨hrule', htype'⟩ := Rule.binary_passes (.refl _) htype hrule
      exact ⟨by simp [Expr.reading, hnew, hleft, hrule'], htype'⟩
/-- Where each argument has a parameter, the one that is replaced is visited. -/
theorem ArgsWithin.found_argsReading (h : env.Agrees Γ)
    (hR : ∀ {e e'}, R e e' → (e.reading env).found = [] → Expr.Absorbs env ds e e') {f : Ident} :
    ∀ {es es' : List Expr} {k : Nat} {params : List Ty}, ArgsWithin R es es' →
      params.length = es.length → (argsReading env f k params es).found = [] →
        (argsReading env f k params es').found = ds
  | _, _, _, [], .head _, hlength, _ | _, _, _, [], .tail _, hlength, _ => by simp at hlength
  | _, _, k, param :: params, .head he, hlength, hfound => by
      obtain ⟨harg, hrule, hrest⟩ := found_argsReading_cons_eq_nil_iff.mp hfound
      obtain ⟨hnew, htype⟩ := he.absorbs h hR harg
      simp [argsReading, hnew, hrest, Rule.argument_passes htype hrule]
  | _, _, k, param :: params, .tail hes, hlength, hfound => by
      obtain ⟨harg, hrule, hrest⟩ := found_argsReading_cons_eq_nil_iff.mp hfound
      have hnew := hes.found_argsReading h hR (by simpa using hlength) hrest
      simp [argsReading, harg, hrule, hnew]
end

theorem ArgsWithin.found_exprsReading (h : env.Agrees Γ)
    (hR : ∀ {e e'}, R e e' → (e.reading env).found = [] → Expr.Absorbs env ds e e') {f : Ident}
    {es es' : List Expr} {k : Nat} {params : List Ty} (hes : ArgsWithin R es es')
    (hfound : (exprsReading env es).found = [])
    (hrules : Rule.arguments f k params (es.map fun e => (e.type env, e.loc)) = []) :
    (exprsReading env es').found = ds ∧
      Rule.arguments f k params (es'.map fun e => (e.type env, e.loc)) = [] := by
  induction es generalizing es' k params with
  | nil => cases hes
  | cons e rest ih =>
      simp only [exprsReading, Reading.found_append, List.append_eq_nil_iff] at hfound
      obtain ⟨harg, hrest⟩ := hfound
      cases hes with
      | head he =>
          obtain ⟨hnew, htype⟩ := he.absorbs h hR harg
          refine ⟨by simp [exprsReading, hnew, hrest], ?_⟩
          cases params with
          | nil => simp [Rule.arguments]
          | cons param params =>
              simp only [List.map_cons, Rule.arguments, List.append_eq_nil_iff] at hrules ⊢
              obtain ⟨hrule, hrules⟩ := hrules
              exact ⟨Rule.argument_passes htype hrule, hrules⟩
      | tail hes =>
          cases params with
          -- In a statement the arguments beyond the parameters are visited as well.
          | nil =>
              have hnone : Rule.arguments f k [] (rest.map fun e => (e.type env, e.loc)) = [] := by
                simp [Rule.arguments]
              obtain ⟨hnew, -⟩ := ih hes hrest hnone
              exact ⟨by simp [exprsReading, harg, hnew], by simp [Rule.arguments]⟩
          | cons param params =>
              simp only [List.map_cons, Rule.arguments, List.append_eq_nil_iff] at hrules ⊢
              obtain ⟨hrule, hrules⟩ := hrules
              obtain ⟨hnew, hrules'⟩ := ih hes hrest hrules
              exact ⟨by simp [exprsReading, harg, hnew], hrule, hrules'⟩

/-- A place with another subscript. -/
theorem Target.absorbs_subscript {n : Node} {x : Ident} {e e' : Expr}
    (he : (e.reading env).found = [] → Expr.Absorbs env ds e e')
    (hfound : (Target.reading env ⟨n, x, some e⟩).found = []) :
    (Target.reading env ⟨n, x, some e'⟩).found = ds ∧
      Target.type env ⟨n, x, some e'⟩ = Target.type env ⟨n, x, some e⟩ := by
  obtain ⟨hname, hsubscript, hrule⟩ : (x.reading env .plain).found = [] ∧
      (e.reading env).found = [] ∧
        Rule.subscript (env.typeOf x) (e.type env) n.loc e.loc = [] := by
    simpa [Target.reading] using hfound
  obtain ⟨hnew, htype⟩ := he hsubscript
  refine ⟨?_, (Rule.element_passes htype hrule).2⟩
  simp [Target.reading, hname, hnew, Rule.subscript_passes (.refl _) htype hrule]

variable {result : Ty}

namespace Stmt

variable {loc : Location} {target : Target} {f : Ident} {e value : Expr} {args : List Expr}
  {yes body : List Stmt} {no : Option (List Stmt)}

theorem found_assign :
    ((assign loc target value).reading env result).found =
      (target.reading env).found ++ (value.reading env).found ++
        Rule.assignment (target.type env) (value.type env) loc ++
          target.unaddressable env .targetNotAddressable target.loc := by
  simp [reading]

theorem found_ite :
    ((ite loc e yes no).reading env result).found =
      (e.reading env).found ++ Rule.condition "if" (e.type env) loc ++
        (blockReading env result yes).found ++
          no.elim [] fun no => (blockReading env result no).found := by
  cases no <;> simp [reading]

theorem found_loop :
    ((loop loc e body).reading env result).found =
      (e.reading env).found ++ Rule.condition "while" (e.type env) loc ++
        (blockReading env result body).found := by
  simp [reading]

theorem found_call :
    ((call loc f args).reading env result).found =
      (f.reading env .called).found ++ (exprsReading env args).found ++
        Rule.call f (env.typeOf f) args.length ++
          Rule.arguments f 1 (Rule.params (env.typeOf f) args.length)
            (args.map fun e => (e.type env, e.loc)) := by
  simp [reading]

theorem found_read :
    ((read loc target).reading env result).found =
      (target.reading env).found ++ Rule.readable (target.type env) loc ++
        target.unaddressable env .readNotAddressable loc := by
  simp [reading]

theorem found_write :
    ((write loc value).reading env result).found =
      (value.reading env).found ++ Rule.writable (value.type env) loc := by
  simp [reading]

theorem found_ret :
    ((ret loc (some value)).reading env result).found =
      (value.reading env).found ++ Rule.resultValue result (value.type env) loc := by
  simp [reading]

end Stmt

mutual
theorem Stmt.Within.absorbs (h : env.Agrees Γ)
    (hR : ∀ {e e'}, R e e' → (e.reading env).found = [] → Expr.Absorbs env ds e e')
    (hS : ∀ {s s'}, S s s' → (s.reading env result).found = [] →
      (s'.reading env result).found = ds) :
    ∀ {s s' : Stmt}, Stmt.Within R S s s' → (s.reading env result).found = [] →
      (s'.reading env result).found = ds
  | _, _, .here hs, hfound => hS hs hfound
  | _, _, .subscript he, hfound => by
      simp only [Stmt.found_assign, List.append_eq_nil_iff] at hfound
      obtain ⟨⟨⟨htarget, hvalue⟩, hrule⟩, hplace⟩ := hfound
      obtain ⟨hnew, htype⟩ := Target.absorbs_subscript (he.absorbs h hR) htarget
      rw [Target.unaddressable] at hplace
      simp [Stmt.found_assign, Target.unaddressable, hnew, htype, hvalue, hrule, hplace]
  | _, _, .value he, hfound => by
      simp only [Stmt.found_assign, List.append_eq_nil_iff] at hfound
      obtain ⟨⟨⟨htarget, hvalue⟩, hrule⟩, hplace⟩ := hfound
      obtain ⟨hnew, htype⟩ := he.absorbs h hR hvalue
      have hrule' := Rule.assignment_passes (.refl _) htype hrule
      simp [Stmt.found_assign, htarget, hnew, hrule', hplace]
  | _, _, .condition he, hfound => by
      simp only [Stmt.found_ite, List.append_eq_nil_iff] at hfound
      obtain ⟨⟨⟨hcondition, hrule⟩, hyes⟩, hno⟩ := hfound
      obtain ⟨hnew, htype⟩ := he.absorbs h hR hcondition
      simp [Stmt.found_ite, hnew, Rule.condition_passes htype hrule, hyes, hno]
  | _, _, .yes hss, hfound => by
      simp only [Stmt.found_ite, List.append_eq_nil_iff] at hfound
      obtain ⟨⟨⟨hcondition, hrule⟩, hyes⟩, hno⟩ := hfound
      have hnew := hss.absorbs h hR hS hyes
      simp [Stmt.found_ite, hnew, hcondition, hrule, hno]
  | _, _, .no hss, hfound => by
      simp only [Stmt.found_ite, List.append_eq_nil_iff] at hfound
      obtain ⟨⟨⟨hcondition, hrule⟩, hyes⟩, hno⟩ := hfound
      have hnew := hss.absorbs h hR hS hno
      simp [Stmt.found_ite, hnew, hcondition, hrule, hyes]
  | _, _, .guard he, hfound => by
      simp only [Stmt.found_loop, List.append_eq_nil_iff] at hfound
      obtain ⟨⟨hcondition, hrule⟩, hbody⟩ := hfound
      obtain ⟨hnew, htype⟩ := he.absorbs h hR hcondition
      simp [Stmt.found_loop, hnew, Rule.condition_passes htype hrule, hbody]
  | _, _, .body hss, hfound => by
      simp only [Stmt.found_loop, List.append_eq_nil_iff] at hfound
      obtain ⟨⟨hcondition, hrule⟩, hbody⟩ := hfound
      have hnew := hss.absorbs h hR hS hbody
      simp [Stmt.found_loop, hnew, hcondition, hrule]
  | _, _, .args hargs, hfound => by
      simp only [Stmt.found_call, List.append_eq_nil_iff] at hfound
      obtain ⟨⟨⟨hname, hvalues⟩, hrule⟩, hfit⟩ := hfound
      obtain ⟨hnew, hfit'⟩ := hargs.found_exprsReading h hR hvalues hfit
      simp [Stmt.found_call, hargs.length_eq, hname, hnew, hrule, hfit']
  | _, _, .read he, hfound => by
      simp only [Stmt.found_read, List.append_eq_nil_iff] at hfound
      obtain ⟨⟨htarget, hrule⟩, hplace⟩ := hfound
      obtain ⟨hnew, htype⟩ := Target.absorbs_subscript (he.absorbs h hR) htarget
      rw [Target.unaddressable] at hplace
      simp [Stmt.found_read, Target.unaddressable, hnew, htype, hrule, hplace]
  | _, _, .write he, hfound => by
      simp only [Stmt.found_write, List.append_eq_nil_iff] at hfound
      obtain ⟨hvalue, hrule⟩ := hfound
      obtain ⟨hnew, htype⟩ := he.absorbs h hR hvalue
      simp [Stmt.found_write, hnew, Rule.writable_passes htype hrule]
  | _, _, .ret he, hfound => by
      simp only [Stmt.found_ret, List.append_eq_nil_iff] at hfound
      obtain ⟨hvalue, hrule⟩ := hfound
      obtain ⟨hnew, htype⟩ := he.absorbs h hR hvalue
      simp [Stmt.found_ret, hnew, Rule.resultValue_passes htype hrule]
theorem BlockWithin.absorbs (h : env.Agrees Γ)
    (hR : ∀ {e e'}, R e e' → (e.reading env).found = [] → Expr.Absorbs env ds e e')
    (hS : ∀ {s s'}, S s s' → (s.reading env result).found = [] →
      (s'.reading env result).found = ds) :
    ∀ {ss ss' : List Stmt}, BlockWithin R S ss ss' → (blockReading env result ss).found = [] →
      (blockReading env result ss').found = ds
  | _, _, .head hs, hfound => by
      simp only [blockReading, Reading.found_append, List.append_eq_nil_iff] at hfound
      obtain ⟨hfirst, hrest⟩ := hfound
      simp [blockReading, hs.absorbs h hR hS hfirst, hrest]
  | _, _, .tail hss, hfound => by
      simp only [blockReading, Reading.found_append, List.append_eq_nil_iff] at hfound
      obtain ⟨hfirst, hrest⟩ := hfound
      simp [blockReading, hfirst, hss.absorbs h hR hS hrest]
end

variable {x : Ident} {y : String}

/-- What is found where a name means nothing. -/
abbrev Ident.unknown (x : Ident) (y : String) : List Diagnostic := [⟨.undeclared y, x.loc⟩]

theorem Ident.found_named (hy : env y = none) (use : Use) :
    ((x.named y).reading env use).found = x.unknown y := by
  simp [reading, named, hy, Rule.name, complainIf]

theorem Env.typeOf_named (hy : env y = none) : env.typeOf (x.named y) = .error := by
  simp [typeOf, Ident.named, hy, Rule.nameType]

theorem Expr.Renames.absorbs (hy : env y = none) {e e' : Expr} (h : Expr.Renames x y e e')
    (hfound : (e.reading env).found = []) : Expr.Absorbs env (x.unknown y) e e' := by
  have htype := Env.typeOf_named (x := x) hy
  cases h with
  | var n => exact ⟨Expr.found_var.trans (Ident.found_named hy .plain), .inl htype⟩
  | index n e =>
      obtain ⟨-, hsubscript, hrule⟩ := Expr.found_index_eq_nil_iff.mp hfound
      have hrule' : Rule.subscript .error (e.type env) n.loc e.loc = [] :=
        Rule.subscript_passes (.inl rfl) (.refl _) hrule
      refine ⟨?_, .inl ?_⟩
      · simp [Expr.reading, Ident.found_named hy, htype, hsubscript, hrule']
      · rw [Expr.type, htype, Rule.elementValue]
        split <;> rfl
  | call n args =>
      -- Here the arguments are not entered any more, and nothing was found in them before.
      refine ⟨?_, .inl ?_⟩
      · simp [Expr.reading, Ident.found_named hy, htype, Rule.valueCall, Rule.call, Rule.params,
          complainIf, Ty.isProcedure]
      · rw [Expr.type, htype]
        rfl

/-- A place without a meaning is erroneous, and its subscript is visited all the same. -/
theorem Target.absorbs_named (hy : env y = none) {n : Node} {subscript : Option Expr}
    (hfound : (Target.reading env ⟨n, x, subscript⟩).found = []) :
    (Target.reading env ⟨n, x.named y, subscript⟩).found = x.unknown y ∧
      Target.type env ⟨n, x.named y, subscript⟩ = .error := by
  have htype := Env.typeOf_named (x := x) hy
  cases subscript with
  | none => exact ⟨by simp [Target.reading, Ident.found_named hy], htype⟩
  | some e =>
      obtain ⟨-, hsubscript, hrule⟩ : (x.reading env .plain).found = [] ∧
          (e.reading env).found = [] ∧
            Rule.subscript (env.typeOf x) (e.type env) n.loc e.loc = [] := by
        simpa [Target.reading] using hfound
      have hrule' : Rule.subscript .error (e.type env) n.loc e.loc = [] :=
        Rule.subscript_passes (.inl rfl) (.refl _) hrule
      refine ⟨?_, ?_⟩
      · simp [Target.reading, Ident.found_named hy, htype, hsubscript, hrule']
      · simp only [Target.type, htype, Rule.elementPlace]
        split
        · rfl
        · split <;> rfl

theorem Stmt.Renames.found (hy : env y = none) {s s' : Stmt} (h : Stmt.Renames x y s s')
    (hfound : (s.reading env result).found = []) : (s'.reading env result).found = x.unknown y := by
  cases h with
  | assign loc n subscript value =>
      simp only [Stmt.found_assign, List.append_eq_nil_iff] at hfound
      obtain ⟨⟨⟨htarget, hvalue⟩, -⟩, -⟩ := hfound
      obtain ⟨hnew, htype⟩ := Target.absorbs_named hy htarget
      simp [Stmt.found_assign, Target.unaddressable, hnew, htype, hvalue, Rule.assignment,
        Rule.addressable, complainIf, Ty.isError]
  | read loc n subscript =>
      simp only [Stmt.found_read, List.append_eq_nil_iff] at hfound
      obtain ⟨⟨htarget, -⟩, -⟩ := hfound
      obtain ⟨hnew, htype⟩ := Target.absorbs_named hy htarget
      simp [Stmt.found_read, Target.unaddressable, hnew, htype, Rule.readable, Rule.addressable,
        complainIf]
  | call loc args =>
      simp only [Stmt.found_call, List.append_eq_nil_iff] at hfound
      obtain ⟨⟨⟨-, hvalues⟩, -⟩, -⟩ := hfound
      simp [Stmt.found_call, Ident.found_named hy, Env.typeOf_named hy, hvalues, Rule.call,
        Rule.params, Rule.arguments]

end

end Asl
