import Asl.Proofs.Complaints
import Asl.Proofs.Independence
import Asl.Proofs.Meanings

/-!
# Places

What can be stored to is a matter of names alone: a name, plain or under a subscript, is a place
unless it means a function, whatever becomes of its type. An assignment or a `read` is reported for
storing to no place exactly if its target is the plain name of a function.
-/

namespace Asl

mutual
/-- The statement and those within it, in order. -/
def Stmt.all : Stmt → List Stmt
  | .ite loc condition yes no =>
      .ite loc condition yes no :: allBlock yes ++
        match no with
        | none => []
        | some no => allBlock no
  | .loop loc condition body => .loop loc condition body :: allBlock body
  | .assign loc target value => [.assign loc target value]
  | .call loc f args => [.call loc f args]
  | .read loc target => [.read loc target]
  | .write loc value => [.write loc value]
  | .print loc text => [.print loc text]
  | .ret loc value => [.ret loc value]
def allBlock : List Stmt → List Stmt
  | [] => []
  | s :: rest => s.all ++ allBlock rest
end

/-- What is tested at the statement itself, after the tests within its expressions. -/
def Stmt.tests : Stmt → List Site
  | .assign loc target value => [.assignment loc target value, .assigned target]
  | .ite loc condition _ _ => [.condition "if" loc condition]
  | .loop loc condition _ => [.condition "while" loc condition]
  | .call _ f args => [.call f args.length]
  | .read loc target => [.readable loc target, .stored loc target]
  | .write loc value => [.writable loc value]
  | .print _ _ => []
  | .ret loc value => [.result loc value]

def Site.isOfStmt : Site → Bool
  | assignment _ _ _ | assigned _ | condition _ _ _ | call _ _ => true
  | readable _ _ | stored _ _ | writable _ _ | result _ _ => true
  | _ => false

section

variable (env : Env)

mutual
theorem Expr.filter_isOfStmt_sites : ∀ e : Expr, (e.sites env).filter Site.isOfStmt = []
  | .lit _ _ => rfl
  | .var _ _ => by simp [Expr.sites, Site.isOfStmt]
  | .paren _ e | .index _ _ e | .unary _ _ e => by
      simp [Expr.sites, Site.isOfStmt, e.filter_isOfStmt_sites]
  | .call _ f args => by
      have hargs := filter_isOfStmt_argsSites f 1 (Rule.params (env.typeOf f) args.length) args
      simp [Expr.sites, Site.isOfStmt, hargs]
  | .binary _ _ l r => by
      simp [Expr.sites, Site.isOfStmt, l.filter_isOfStmt_sites, r.filter_isOfStmt_sites]
theorem filter_isOfStmt_argsSites (f : Ident) :
    ∀ (k : Nat) (params : List Ty) (args : List Expr),
      (argsSites env f k params args).filter Site.isOfStmt = []
  | _, [], _ => by simp [argsSites]
  | _, _ :: _, [] => by simp [argsSites]
  | k, param :: params, e :: rest => by
      simp [argsSites, Site.isOfStmt, e.filter_isOfStmt_sites,
        filter_isOfStmt_argsSites f (k + 1) params rest]
end

theorem filter_isOfStmt_exprs (es : List Expr) :
    (es.flatMap (Expr.sites env)).filter Site.isOfStmt = [] := by
  simp [List.filter_flatMap, Expr.filter_isOfStmt_sites]

theorem filter_isOfStmt_argumentSites (f : Ident) (k : Nat) (params : List Ty)
    (args : List Expr) : (argumentSites f k params args).filter Site.isOfStmt = [] := by
  induction params generalizing k args with
  | nil => simp [argumentSites]
  | cons param params ih =>
      cases args with
      | nil => simp [argumentSites]
      | cons e rest => simp [argumentSites, Site.isOfStmt, ih]

theorem Target.filter_isOfStmt_sites (t : Target) : (t.sites env).filter Site.isOfStmt = [] := by
  obtain ⟨n, x, _ | e⟩ := t
  · simp [sites, Site.isOfStmt]
  · simp [sites, Site.isOfStmt, e.filter_isOfStmt_sites env]

mutual
theorem Stmt.filter_isOfStmt_sites : ∀ s : Stmt,
    (s.sites env).filter Site.isOfStmt = s.all.flatMap Stmt.tests
  | .assign _ target value => by
      simp [Stmt.sites, Stmt.all, Stmt.tests, Site.isOfStmt, target.filter_isOfStmt_sites env,
        value.filter_isOfStmt_sites env]
  | .ite _ condition yes none => by
      simp [Stmt.sites, Stmt.all, Stmt.tests, Site.isOfStmt, List.filter_cons,
        condition.filter_isOfStmt_sites env, filter_isOfStmt_blockSites yes]
  | .ite _ condition yes (some no) => by
      simp [Stmt.sites, Stmt.all, Stmt.tests, Site.isOfStmt, List.filter_cons,
        condition.filter_isOfStmt_sites env, filter_isOfStmt_blockSites yes,
        filter_isOfStmt_blockSites no]
  | .loop _ condition body => by
      simp [Stmt.sites, Stmt.all, Stmt.tests, Site.isOfStmt, List.filter_cons,
        condition.filter_isOfStmt_sites env, filter_isOfStmt_blockSites body]
  | .call _ _ args => by
      simp [Stmt.sites, Stmt.all, Stmt.tests, Site.isOfStmt, List.filter_cons,
        filter_isOfStmt_exprs, filter_isOfStmt_argumentSites]
  | .read _ target => by
      simp [Stmt.sites, Stmt.all, Stmt.tests, Site.isOfStmt, target.filter_isOfStmt_sites env]
  | .write _ value | .ret _ (some value) => by
      simp [Stmt.sites, Stmt.all, Stmt.tests, Site.isOfStmt, value.filter_isOfStmt_sites env]
  | .print _ _ => rfl
  | .ret _ none => rfl
theorem filter_isOfStmt_blockSites : ∀ ss : List Stmt,
    (blockSites env ss).filter Site.isOfStmt = (allBlock ss).flatMap Stmt.tests
  | [] => rfl
  | s :: rest => by
      simp [blockSites, allBlock, s.filter_isOfStmt_sites, filter_isOfStmt_blockSites rest]
end

theorem mem_blockSites_of_tests {ss : List Stmt} {s : Stmt} {site : Site} (hs : s ∈ allBlock ss)
    (hsite : site ∈ s.tests) : site ∈ blockSites env ss := by
  have hmem := List.mem_flatMap.mpr ⟨s, hs, hsite⟩
  rw [← filter_isOfStmt_blockSites env] at hmem
  exact (List.mem_filter.mp hmem).1

/-- The sites of a kind that only statements have are found statement by statement. -/
theorem filter_blockSites_of_isOfStmt {mine : Site → Bool} (ss : List Stmt)
    (h : ∀ site, mine site = true → site.isOfStmt = true) :
    (blockSites env ss).filter mine = (allBlock ss).flatMap fun s => s.tests.filter mine := by
  have hmine : mine = fun site => mine site && site.isOfStmt := by
    funext site
    cases hsite : mine site with
    | false => rfl
    | true => rw [h site hsite, Bool.and_self]
  rw [hmine, ← List.filter_filter, filter_isOfStmt_blockSites, List.filter_flatMap, ← hmine]

end

/-- The name that is stored under or read from. -/
def Part.place? : Part → Option Ident
  | name _ x => some x
  | expr (.var _ x) | expr (.index _ x _) => some x
  | expr _ => none
  | target t => some t.ident

namespace Program

variable (p : Program) (f : Function)

/-- In the body of a function the part is a name, plain or under a subscript, of no function. -/
def isPlace (part : Part) : Bool := part.place?.any fun x => !p.meansFunction f x.name

theorem lvalue_env (part : Part) : part.lvalue (p.env f) = p.isPlace f part := by
  rcases part with e | t | ⟨use, x⟩
  · cases e <;> simp [Part.lvalue, Expr.lvalue, isPlace, Part.place?, p.lvalueOf_env]
  · simp [Part.lvalue, isPlace, Part.place?, p.lvalueOf_env]
  · simp [Part.lvalue, isPlace, Part.place?, p.lvalueOf_env]

variable {p f} in
/-- A function is no array. -/
theorem fails_isArray_of_meansFunction {x : Ident} (h : p.meansFunction f x.name = true) :
    ((p.env f).typeOf x).fails Ty.isArray = true := by
  rw [← p.isFunction_typeOf_env] at h
  cases htype : (p.env f).typeOf x <;> simp_all [Ty.isFunction, Ty.fails, Ty.isError, Ty.isArray]

/-- The plain name of a function. -/
def isNoPlace (t : Target) : Bool := t.subscript.isNone && p.meansFunction f t.ident.name

/-- The report on a statement that stores to no place. -/
def misplaced : Stmt → List Diagnostic
  | .assign _ target _ => complainIf (p.isNoPlace f target) .targetNotAddressable target.loc
  | .read loc target => complainIf (p.isNoPlace f target) .readNotAddressable loc
  | _ => []

theorem unaddressable_env (t : Target) (complaint : Complaint) (loc : Location) :
    t.unaddressable (p.env f) complaint loc = complainIf (p.isNoPlace f t) complaint loc := by
  have hlvalue := p.lvalueOf_env f t.ident
  unfold Target.unaddressable Rule.addressable isNoPlace
  cases hmeans : p.meansFunction f t.ident.name with
  | false => simp [hlvalue, hmeans, Ty.fails]
  | true =>
      have harray := fails_isArray_of_meansFunction hmeans
      have herror : ((p.env f).typeOf t.ident).isError = false := by
        have hfails := (Ty.fails_eq_true_iff.mp harray).1
        cases htype : (p.env f).typeOf t.ident <;> simp_all [Ty.isError]
      cases hsubscript : t.subscript with
      | none => simp [Target.type, hsubscript, hlvalue, hmeans, Ty.fails, herror]
      | some e =>
          -- the subscript has failed already, and an erroneous target meets every demand
          simp [Target.type, hsubscript, Rule.elementPlace, harray]

end Program

def Complaint.isUnaddressable : Complaint → Bool
  | targetNotAddressable | readNotAddressable => true
  | _ => false

/-- Where a target is asked whether it can be stored to. -/
def Site.isStoring : Site → Bool
  | assigned _ | stored _ _ => true
  | _ => false

theorem Site.isOfStmt_of_isStoring {site : Site} (h : site.isStoring = true) :
    site.isOfStmt = true := by
  cases site with
  | assigned | stored => rfl
  | _ => cases h

section

variable (p : Program) (f : Function)

theorem Stmt.found_storing (s : Stmt) :
    (s.tests.filter Site.isStoring).flatMap (Site.found (p.env f) f.resultType) =
      p.misplaced f s := by
  cases s <;>
    simp [tests, List.filter_cons, Site.isStoring, Site.found, Program.misplaced,
      p.unaddressable_env]

theorem Function.found_storing :
    ((f.sites p).filter Site.isStoring).flatMap (Site.found (p.env f) f.resultType) =
      (allBlock f.body).flatMap (p.misplaced f) := by
  rw [sites, filter_blockSites_of_isOfStmt _ _ fun _ => Site.isOfStmt_of_isStoring,
    List.flatMap_assoc]
  simp only [Stmt.found_storing]

end

/-- What is found of names under a subscript, by their types. -/
def Tally.ofSubscripted (env : Env) : Tally where
  subscript loc x _ := complainIf ((env.typeOf x).fails Ty.isArray) .notArray loc

theorem Site.tally_ofSubscripted_sublist (env : Env) (declared : Ty) (site : Site) :
    (site.tally (.ofSubscripted env)).Sublist (site.found env declared) := by
  cases site with
  | subscript loc x e => exact List.sublist_append_left _ _
  | _ => exact List.nil_sublist _

/-- The reports on functions under a subscript. -/
def Program.subscriptedFunctions (p : Program) (f : Function) : Tally where
  subscript loc x _ := complainIf (p.meansFunction f x.name) .notArray loc

theorem Program.subscriptedFunctions_sublist (p : Program) (f : Function) (part : Part) :
    (part.tally (p.subscriptedFunctions f)).Sublist (part.tally (.ofSubscripted (p.env f))) := by
  have hname (loc : Location) (x : Ident) :
      (complainIf (p.meansFunction f x.name) .notArray loc).Sublist
        (complainIf (((p.env f).typeOf x).fails Ty.isArray) .notArray loc) := by
    cases hmeans : p.meansFunction f x.name with
    | false => exact List.nil_sublist _
    | true => rw [fails_isArray_of_meansFunction hmeans]
  rcases part with e | ⟨n, x, _ | e⟩ | ⟨use, x⟩
  · cases e with
    | index n x e => exact hname n.loc x
    | _ => exact .slnil
  · exact .slnil
  · exact hname n.loc x
  · exact .slnil

/-- Functions under a subscript are reported where their names are found to be no arrays. -/
theorem Program.subscriptedFunctions_found (p : Program) (f : Function) :
    ((reachedBlock (p.callable f) f.body).flatMap
      (Part.tally (p.subscriptedFunctions f))).Sublist
        ((f.sites p).flatMap (Site.found (p.env f) f.resultType)) := by
  have hparts : ((reachedBlock (p.callable f) f.body).flatMap
      (Part.tally (p.subscriptedFunctions f))).Sublist
        ((reachedBlock (p.callable f) f.body).flatMap (Part.tally (.ofSubscripted (p.env f)))) :=
    .flatMap_right _ fun part _ => p.subscriptedFunctions_sublist f part
  have hsites : ((f.sites p).flatMap (Site.tally (.ofSubscripted (p.env f)))).Sublist
      ((f.sites p).flatMap (Site.found (p.env f) f.resultType)) :=
    .flatMap_right _ fun site _ => site.tally_ofSubscripted_sublist (p.env f) f.resultType
  rw [f.tally_sites] at hsites
  exact hparts.trans hsites

/-! ## Runs -/

/-- A run marks as places just those parts that it visits which are names, plain or under a
subscript, of no function. It reports each assignment and each `read` that stores to the plain name
of a function, in order, and no other statement for its place. A function under a subscript is
reported as no array. -/
theorem places_are_names_of_values (p : Program) (c : Config) (hscopes : p.scopeIds.Nodup)
    (hparts : p.partIds.Nodup) :
    ∃ t, analyse p c = .ok t ∧
      (∀ f ∈ p.functions, ∀ part ∈ f.parts,
        (part ∈ reachedBlock (p.callable f) f.body →
          t.annotations.lvalue? part.id = some (p.isPlace f part)) ∧
        (part ∉ reachedBlock (p.callable f) f.body →
          t.annotations.type? part.id = none ∧ t.annotations.lvalue? part.id = none)) ∧
      (t.diagnostics.toList.filter fun d => d.complaint.isUnaddressable) =
        (p.functions.flatMap fun f => (allBlock f.body).flatMap (p.misplaced f)) ∧
      (p.functions.flatMap fun f => (reachedBlock (p.callable f) f.body).flatMap
        (Part.tally (p.subscriptedFunctions f))).Sublist t.diagnostics.toList := by
  obtain ⟨t, ht, houtcome⟩ := Program.exists_outcome c hscopes hparts
  refine ⟨t, ht, fun f hf part hpart => ?_, ?_, ?_⟩
  · obtain ⟨htype, hlvalue⟩ := houtcome.part_iff hparts hf hpart
    refine ⟨fun hvisited => (hlvalue _).mpr ⟨hvisited, p.lvalue_env f part⟩, fun hpassed => ?_⟩
    exact ⟨Option.eq_none_iff_forall_ne_some.mpr fun τ hτ => hpassed ((htype τ).mp hτ).1,
      Option.eq_none_iff_forall_ne_some.mpr fun l hl => hpassed ((hlvalue l).mp hl).1⟩
  · have hmine {a : Annotations} {declared : Ty} {site : Site} {complaint : Complaint}
        (h : site.Blames a declared complaint) : complaint.isUnaddressable = site.isStoring := by
      cases h <;> rfl
    rw [houtcome.filter_diagnostics (fun _ => rfl) (fun _ => rfl) hmine]
    simp only [Function.found_storing]
  · rw [houtcome.found, p.found_eq_sites, List.append_assoc]
    refine .trans ?_ ((List.sublist_append_left _ _).trans (List.sublist_append_right _ _))
    exact .flatMap_right _ fun f _ => p.subscriptedFunctions_found f

/-- The start stores to `f` and to an element of `f`, and `f` to a variable that it calls so. -/
def storing : Program :=
  let build : Build Program := do
    let first ← Build.assign (← Build.target "f" none) (← Build.lit (.int 1))
    Build.moveTo 2 1
    let second ← Build.read (← Build.target "f" none)
    Build.moveTo 3 1
    let element ← Build.target "f" (some (← Build.lit (.int 0)))
    let third ← Build.assign element (← Build.lit (.int 1))
    let start ← Build.function "main" [] none [] [first, second, third]
    Build.moveTo 4 1
    let own ← Build.vars ["f"] (.basic .int)
    let last ← Build.assign (← Build.target "f" none) (← Build.lit (.int 1))
    let f ← Build.function "f" [] none [own] [last]
    Build.program [start, f]
  (build.run {}).1

theorem storing_reports :
    ∃ t, analyse storing {} = .ok t ∧
      (t.diagnostics.toList.filter fun d => d.complaint.isUnaddressable) =
        [⟨.targetNotAddressable, ⟨1, 1, none⟩⟩, ⟨.readNotAddressable, ⟨2, 1, none⟩⟩] ∧
      ⟨.notArray, ⟨3, 1, none⟩⟩ ∈ t.diagnostics.toList ∧
      ∀ f ∈ storing.functions, ∀ part ∈ reachedBlock (storing.callable f) f.body,
        t.annotations.lvalue? part.id = some (storing.isPlace f part) := by
  obtain ⟨t, ht, hplaces, hfound, hsubscripted⟩ :=
    places_are_names_of_values storing {} (by decide) (by decide +kernel)
  refine ⟨t, ht, hfound.trans (by decide +kernel), hsubscripted.subset (by decide +kernel), ?_⟩
  intro f hf part hpart
  exact (hplaces f hf part ((reachedBlock_sublist _ _).subset hpart)).1 hpart

end Asl
