import Asl.Proofs.Blame

/-!
# Complaints of one kind

Each site can make only a few kinds of complaints. The complaints of one kind that a run makes are
therefore those of the sites that can make them, body by body, once the complaints of registration
and of the entry point are left aside.
-/

namespace Asl

/-- What is listed for names and for subscripted names. Both are tested right where they are
visited, so that whatever is listed for them site by site can be listed part by part. -/
structure Tally where
  name : Ident → List Diagnostic := fun _ => []
  subscript : Location → Ident → Expr → List Diagnostic := fun _ _ _ => []

def Site.tally (a : Tally) : Site → List Diagnostic
  | name x => a.name x
  | subscript loc x e => a.subscript loc x e
  | _ => []

def Part.tally (a : Tally) : Part → List Diagnostic
  | name _ x => a.name x
  | expr (.index n x e) => a.subscript n.loc x e
  | target ⟨n, x, some e⟩ => a.subscript n.loc x e
  | _ => []

section

variable (a : Tally) (env : Env)

mutual
theorem Expr.tally_sites : ∀ e : Expr,
    (e.sites env).flatMap (Site.tally a) = (e.reached env.takes).flatMap (Part.tally a)
  | .lit _ _ => by simp [Expr.sites, Expr.reached, Part.tally]
  | .var _ x => by simp [Expr.sites, Expr.reached, Site.tally, Part.tally]
  | .paren _ e | .index _ _ e | .unary _ _ e => by
      simp [Expr.sites, Expr.reached, Site.tally, Part.tally, e.tally_sites]
  | .call _ f args => by
      cases htakes : env.takes f args.length with
      | true =>
          have hargs := tally_argsSites f 1 _ args (Rule.params_eq_of_takes htakes)
          simp [Expr.sites, Expr.reached, Site.tally, Part.tally, htakes, hargs]
      | false =>
          -- neither list goes into the arguments
          have hparams := Rule.params_eq_nil_of_not_takes htakes
          simp [Expr.sites, Expr.reached, Site.tally, Part.tally, htakes, hparams, argsSites]
  | .binary _ _ l r => by
      simp [Expr.sites, Expr.reached, Site.tally, Part.tally, l.tally_sites, r.tally_sites]
theorem tally_argsSites (f : Ident) :
    ∀ (k : Nat) (params : List Ty) (args : List Expr), params.length = args.length →
      (argsSites env f k params args).flatMap (Site.tally a) =
        (reachedExprs env.takes args).flatMap (Part.tally a)
  | _, [], [], _ => by simp [argsSites, reachedExprs]
  | _, [], _ :: _, h => by simp at h
  | _, _ :: _, [], h => by simp at h
  | k, _ :: params, e :: rest, h => by
      have hrest := tally_argsSites f (k + 1) params rest (by simpa using h)
      simp [argsSites, reachedExprs, Site.tally, e.tally_sites, hrest]
end

theorem tally_exprs (es : List Expr) :
    (es.flatMap (Expr.sites env)).flatMap (Site.tally a) =
      (reachedExprs env.takes es).flatMap (Part.tally a) := by
  induction es with
  | nil => rfl
  | cons e rest ih => simp [reachedExprs, e.tally_sites a env, ih]

theorem tally_argumentSites (f : Ident) (k : Nat) (params : List Ty) (args : List Expr) :
    (argumentSites f k params args).flatMap (Site.tally a) = [] := by
  induction params generalizing k args with
  | nil => simp [argumentSites]
  | cons param params ih =>
      cases args with
      | nil => simp [argumentSites]
      | cons e rest => simpa [argumentSites, Site.tally] using ih (k + 1) rest

theorem Target.tally_sites (t : Target) :
    (t.sites env).flatMap (Site.tally a) = (t.reached env.takes).flatMap (Part.tally a) := by
  obtain ⟨n, x, _ | e⟩ := t
  · simp [sites, reached, Site.tally, Part.tally]
  · simp [sites, reached, Site.tally, Part.tally, e.tally_sites a env]

mutual
theorem Stmt.tally_sites : ∀ s : Stmt,
    (s.sites env).flatMap (Site.tally a) = (s.reached env.takes).flatMap (Part.tally a)
  | .assign _ target value => by
      simp [Stmt.sites, Stmt.reached, Site.tally, target.tally_sites a env, value.tally_sites a env]
  | .ite _ condition yes none => by
      simp [Stmt.sites, Stmt.reached, Site.tally, condition.tally_sites a env,
        tally_blockSites yes]
  | .ite _ condition yes (some no) => by
      simp [Stmt.sites, Stmt.reached, Site.tally, condition.tally_sites a env,
        tally_blockSites yes, tally_blockSites no]
  | .loop _ condition body => by
      simp [Stmt.sites, Stmt.reached, Site.tally, condition.tally_sites a env,
        tally_blockSites body]
  | .call _ f args => by
      simp [Stmt.sites, Stmt.reached, Site.tally, Part.tally, tally_exprs a env,
        tally_argumentSites a]
  | .read _ target => by
      simp [Stmt.sites, Stmt.reached, Site.tally, target.tally_sites a env]
  | .write _ value | .ret _ (some value) => by
      simp [Stmt.sites, Stmt.reached, Site.tally, value.tally_sites a env]
  | .print _ _ => rfl
  | .ret _ none => by simp [Stmt.sites, Stmt.reached, Site.tally]
theorem tally_blockSites : ∀ ss : List Stmt,
    (blockSites env ss).flatMap (Site.tally a) = (reachedBlock env.takes ss).flatMap (Part.tally a)
  | [] => rfl
  | s :: rest => by
      simp [blockSites, reachedBlock, s.tally_sites, tally_blockSites rest]
end

theorem Function.tally_sites (p : Program) (f : Function) :
    (f.sites p).flatMap (Site.tally a) =
      (reachedBlock (p.callable f) f.body).flatMap (Part.tally a) := by
  rw [sites, tally_blockSites, p.takes_env]

end

theorem Program.found_eq_sites (p : Program) (c : Config) (base : ScopeId) :
    (p.reading c base).found =
      p.redeclared ++
        (p.functions.flatMap fun f => (f.sites p).flatMap (Site.found (p.env f) f.resultType)) ++
        p.entryReports c := by
  have hsites (f : Function) : (f.reading p).found =
      (f.sites p).flatMap (Site.found (p.env f) f.resultType) :=
    found_blockReading_eq_sites f.resultType f.body
  simp only [found_reading, hsites]

section

variable {kind : Complaint → Bool} {mine : Site → Bool}

/-- Of complaints that are made at some of the sites only, and alone there, what is found at these
sites is kept. -/
theorem Site.filter_found {env : Env} {declared : Ty} {sites : List Site}
    (h : ∀ site ∈ sites, ∀ d ∈ site.found env declared, kind d.complaint = mine site) :
    ((sites.flatMap (Site.found env declared)).filter fun d => kind d.complaint) =
      (sites.filter mine).flatMap (Site.found env declared) := by
  induction sites with
  | nil => rfl
  | cons site rest ih =>
      obtain ⟨hsite, hrest⟩ := List.forall_mem_cons.mp h
      rw [List.flatMap_cons, List.filter_append, ih hrest]
      cases hmine : mine site with
      | true =>
          have hself : ((site.found env declared).filter fun d => kind d.complaint) =
              site.found env declared :=
            List.filter_eq_self.mpr fun d hd => (hsite d hd).trans hmine
          rw [hself, List.filter_cons_of_pos hmine, List.flatMap_cons]
      | false =>
          have hnone : ((site.found env declared).filter fun d => kind d.complaint) = [] :=
            List.filter_eq_nil_iff.mpr fun d hd => by simp [hsite d hd, hmine]
          rw [hnone, List.filter_cons_of_neg (by simp [hmine]), List.nil_append]

/-- Where the sites at which a kind of complaints is made make no others, a run finds of that kind
what is found at these sites of each body. -/
theorem Program.Outcome.filter_diagnostics {p : Program} {c : Config} {t : Tables}
    (h : p.Outcome c t) (hredeclared : ∀ x, kind (.redeclared x) = false)
    (hentry : ∀ x, kind (.entryPoint x) = false)
    (hmine : ∀ {a declared site complaint},
      Site.Blames a declared site complaint → kind complaint = mine site) :
    (t.diagnostics.toList.filter fun d => kind d.complaint) =
      p.functions.flatMap fun f =>
        ((f.sites p).filter mine).flatMap (Site.found (p.env f) f.resultType) := by
  have hregistration : (p.redeclared.filter fun d => kind d.complaint) = [] := by
    rw [p.redeclared_eq, List.filter_eq_nil_iff]
    intro d hd
    obtain ⟨e, -, rfl⟩ := List.mem_map.mp hd
    simp [Entry.complaint, hredeclared]
  have hstart : ((p.entryReports c).filter fun d => kind d.complaint) = [] := by
    rw [List.filter_eq_nil_iff]
    intro d hd
    obtain ⟨-, rfl⟩ := mem_complainIf_iff.mp hd
    simp [hentry]
  rw [h.found, p.found_eq_sites, List.filter_append, List.filter_append, hregistration, hstart,
    List.nil_append, List.append_nil, List.filter_flatMap]
  refine List.flatMap_congr fun f hf => Site.filter_found fun site hsite d hd => ?_
  exact hmine (h.blames hf hsite hd)

end

end Asl
