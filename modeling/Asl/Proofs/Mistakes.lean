import Asl.Proofs.Absorption
import Asl.Proofs.Alone

/-!
# One mistake in an accepted program

A body is read under an environment that other bodies have no part in. So when one
occurrence in an accepted program is replaced, all that is found is found in the body
around it, and that is what is found in the new part.
-/

namespace Asl

section

variable {p : Program} {f : Function} {before after : List Function} {body : List Stmt}

/-- The program with another body for the function between these functions. -/
abbrev Program.withBody (p : Program) (before : List Function) (f : Function)
    (after : List Function) (body : List Stmt) : Program :=
  { p with functions := before ++ { f with body := body } :: after }

namespace Program

theorem map_function?_withBody (hp : p.functions = before ++ f :: after) (view : Function → α)
    (hview : view { f with body := body } = view f) (x : String) :
    ((p.withBody before f after body).function? x).map view = (p.function? x).map view := by
  simp only [function?, hp, List.find?_append, List.find?_cons]
  cases before.find? fun g => g.name.name == x with
  | some g => rfl
  | none =>
      cases hname : f.name.name == x with
      | true => simp [hview]
      | false => simp

theorem env_withBody (hp : p.functions = before ++ f :: after) (g : Function) :
    (p.withBody before f after body).env g = p.env g := by
  funext x
  let view (g : Function) : Binding := ⟨g.signature, .function⟩
  have hview : view { f with body := body } = view f := rfl
  exact congrArg ((g.declared? x).or ·) (map_function?_withBody hp view hview x)

theorem functionsRedeclared_withBody (names : List String) (before : List Function) :
    functionsRedeclared names (before ++ { f with body := body } :: after) =
      functionsRedeclared names (before ++ f :: after) := by
  induction before generalizing names with
  | nil => rfl
  | cons g rest ih => simp only [List.cons_append, functionsRedeclared, ih]

theorem redeclared_withBody (hp : p.functions = before ++ f :: after) :
    (p.withBody before f after body).redeclared = p.redeclared := by
  rw [redeclared, redeclared, hp]
  exact functionsRedeclared_withBody [] before

theorem entryReports_withBody (hp : p.functions = before ++ f :: after) (c : Config) :
    (p.withBody before f after body).entryReports c = p.entryReports c := by
  let view (g : Function) : Bool := g.params.isEmpty && g.result.isNone
  have hview : view { f with body := body } = view f := rfl
  have hstarts : (p.withBody before f after body).startsAt c.entryPoint =
      p.startsAt c.entryPoint := by
    have hsame := congrArg (Option.any id) (map_function?_withBody hp view hview c.entryPoint)
    simpa [startsAt, Option.any_map, Function.comp_def] using hsame
  rw [entryReports, entryReports, hstarts]

theorem scopeIds_withBody (hp : p.functions = before ++ f :: after) :
    (p.withBody before f after body).scopeIds = p.scopeIds := by
  simp [scopeIds, hp]

theorem partIds_withBody {Q : List NodeId → List NodeId → Prop} (hQ : Surrounds Q)
    (hp : p.functions = before ++ f :: after) (h : Q (blockIds f.body) (blockIds body)) :
    Q p.partIds (p.withBody before f after body).partIds := by
  let ids (fs : List Function) : List NodeId := (fs.flatMap Function.parts).map Part.id
  have hids := hQ (ids before) (ids after) h
  simpa [partIds, parts, Function.parts, blockIds, hp, ids] using hids

theorem partIds_swapped (hp : p.functions = before ++ f :: after) {a e : Expr}
    (hbody : BlockWithin (Expr.Swaps a e) Stmt.stays f.body body) :
    Spliced e.ids p.partIds (p.withBody before f after body).partIds := by
  have hexpr {b b' : Expr} (hb : Expr.Swaps a e b b') : Spliced e.ids b.ids b'.ids := by
    obtain ⟨rfl, rfl⟩ := hb
    exact ⟨[], b.ids, [], by simp, by simp⟩
  refine partIds_withBody (spliced_surrounds e.ids) hp ?_
  exact hbody.ids (spliced_surrounds e.ids) hexpr (fun hstays => hstays.elim)

/-- In a program without complaints all that is found with another body is found there. -/
theorem found_withBody {c : Config} (hclean : (p.reading c 0).found = [])
    (hp : p.functions = before ++ f :: after) :
    ((p.withBody before f after body).reading c 0).found =
      (blockReading (p.env f) f.resultType body).found := by
  have hothers (g : Function) : g.reading (p.withBody before f after body) = g.reading p := by
    rw [Function.reading, Function.reading, env_withBody hp]
  have hbody : ({ f with body := body } : Function).reading p =
      blockReading (p.env f) f.resultType body := rfl
  simp only [found_reading, hp, List.flatMap_append, List.flatMap_cons,
    List.append_eq_nil_iff] at hclean
  obtain ⟨⟨hredeclared, hbefore, -, hafter⟩, hentry⟩ := hclean
  rw [found_reading, redeclared_withBody hp, entryReports_withBody hp]
  simp [hothers, hbody, hredeclared, hbefore, hafter, hentry]

end Program

end

structure Program.Accepted (p : Program) (c : Config) : Prop where
  wellTyped : p.WellTyped c.entryPoint
  scopes : p.scopeIds.Nodup
  parts : p.partIds.Nodup

namespace Program

variable {p : Program} {c : Config}

theorem nodup_of_analyse {t : Tables} (h : analyse p c = .ok t) :
    p.scopeIds.Nodup ∧ p.visitedIds.Nodup := by
  have hfault (fault : Fault) : analyse p c ≠ .error fault := by
    rw [h]
    exact fun heq => nomatch heq
  have hscopes : p.scopeIds.Nodup := by
    by_contra hrepeat
    obtain ⟨id, hid⟩ := exists_firstRepeat_iff.mpr hrepeat
    exact hfault _ ((analyse_eq_error_iff p c _).mpr (.inl ⟨id, hid, rfl⟩))
  refine ⟨hscopes, ?_⟩
  by_contra hrepeat
  obtain ⟨id, hid⟩ := exists_firstRepeat_iff.mpr hrepeat
  exact hfault _ ((analyse_eq_error_iff p c _).mpr (.inr ⟨hscopes, id, hid, rfl⟩))

theorem WellTyped.visitedIds_eq {start : String} (h : p.WellTyped start) :
    p.visitedIds = p.partIds := by
  have hvisited : p.visited = p.parts := List.flatMap_congr fun f hf => h.reached_eq_parts hf
  rw [visitedIds, partIds, hvisited]

theorem accepted_of_analyse {t : Tables} (hrun : analyse p c = .ok t) (hok : t.isOk = true) :
    p.Accepted c := by
  have hwellTyped := (outcome_of_analyse hrun).isOk_iff.mp hok
  obtain ⟨hscopes, hvisits⟩ := nodup_of_analyse hrun
  exact ⟨hwellTyped, hscopes, hwellTyped.visitedIds_eq ▸ hvisits⟩

/-- A run over an accepted program with another body finds what is found in that body. -/
theorem Accepted.analyse_withBody (h : p.Accepted c) {f : Function} {before after : List Function}
    {body : List Stmt} (hp : p.functions = before ++ f :: after)
    (hparts : (p.withBody before f after body).partIds.Nodup) :
    ∃ t, analyse (p.withBody before f after body) c = .ok t ∧
      t.diagnostics.toList = (blockReading (p.env f) f.resultType body).found := by
  have hscopes : (p.withBody before f after body).scopeIds.Nodup := by
    rw [scopeIds_withBody hp]
    exact h.scopes
  obtain ⟨t, ht, houtcome⟩ := exists_outcome c hscopes hparts
  have hclean := (p.found_reading_eq_nil_iff c 0).mpr h.wellTyped
  exact ⟨t, ht, houtcome.found.trans (found_withBody hclean hp)⟩

theorem Accepted.found_body (h : p.Accepted c) {f : Function} (hf : f ∈ p.functions) :
    (blockReading (p.env f) f.resultType f.body).found = [] :=
  (found_blockReading_eq_nil_iff (p.env_agrees f) f.result f.body).mpr (h.wellTyped.bodies f hf)

end Program

/-- On tables that know nothing about it, an expression is checked to the end. -/
theorem checkExpr_alone {env : Env} {e : Expr} {t : Tables} (henv : ∀ x, t.symbols.find? x = env x)
    (hids : e.ids.Nodup) (hfresh : ∀ node ∈ e.ids, t.annotations.get? node = none) :
    ∃ u, checkExpr e t = .ok (e.type env) u ∧
      u.diagnostics.toList = t.diagnostics.toList ++ (e.reading env).found := by
  have hnew : t.annotations.Untouched e.ids := by
    refine ⟨hids, fun node hnode => ?_, fun node hnode => ?_⟩
    · simp [Annotations.type?, hfresh node hnode]
    · simp [Annotations.lvalue?, hfresh node hnode]
  obtain rfl : t.env = env := funext henv
  obtain ⟨u, hu, hvisited⟩ := e.exists_visited hnew
  exact ⟨u, hu, hvisited.found⟩

/-! ## One mistake -/

namespace Program.Accepted

variable {p : Program} {c : Config} {f : Function} {before after : List Function}
  {body : List Stmt}

theorem swap (h : p.Accepted c) (hp : p.functions = before ++ f :: after) {a e : Expr}
    (hbody : BlockWithin (Expr.Swaps a e) Stmt.stays f.body body) (hids : e.ids.Nodup)
    (hdisjoint : e.ids.Disjoint p.ids) (htype : e.type (p.env f) = .error) :
    ∃ t, analyse (p.withBody before f after body) c = .ok t ∧
      t.diagnostics.toList = (e.reading (p.env f)).found := by
  have hspliced := partIds_swapped hp hbody
  have hapart : e.ids.Disjoint p.partIds :=
    fun id hid hmem => hdisjoint hid (p.partIds_sublist_ids.subset hmem)
  obtain ⟨t, ht, hfound⟩ := h.analyse_withBody hp (hspliced.nodup h.parts hids hapart)
  refine ⟨t, ht, hfound.trans ?_⟩
  have habsorbs {b b' : Expr} (hb : Expr.Swaps a e b b') (_ : (b.reading (p.env f)).found = []) :
      Expr.Absorbs (p.env f) (e.reading (p.env f)).found b b' := by
    obtain ⟨rfl, rfl⟩ := hb
    exact ⟨rfl, .inl htype⟩
  have hclean := h.found_body (f := f) (by simp [hp])
  exact hbody.absorbs (p.env_agrees f) habsorbs (fun hstays => hstays.elim) hclean

theorem rename (h : p.Accepted c) (hp : p.functions = before ++ f :: after) {x : Ident}
    {y : String} (hbody : BlockWithin (Expr.Renames x y) (Stmt.Renames x y) f.body body)
    (hlocal : f.declared? y = none) (hglobal : p.function? y = none) :
    ∃ t, analyse (p.withBody before f after body) c = .ok t ∧
      t.diagnostics.toList = x.unknown y := by
  have hsame : Surrounds Eq := by
    rintro pre post ids _ rfl
    rfl
  have hids : p.partIds = (p.withBody before f after body).partIds :=
    partIds_withBody hsame hp (hbody.ids hsame (fun hb => hb.ids.symm) (fun hs => hs.ids.symm))
  obtain ⟨t, ht, hfound⟩ := h.analyse_withBody hp (hids ▸ h.parts)
  refine ⟨t, ht, hfound.trans ?_⟩
  have hy : p.env f y = none := by simp [env, hlocal, hglobal]
  have hclean := h.found_body (f := f) (by simp [hp])
  exact hbody.absorbs (p.env_agrees f) (fun hb => hb.absorbs hy) (fun hs => hs.found hy) hclean

end Program.Accepted

/-- In an accepted program one erroneous expression in the place of another gives just the
complaints that it gives by itself, and one name without a meaning in the place of another
gives just the complaint about it. -/
theorem one_mistake_is_found_once {p : Program} {c : Config} {t : Tables}
    (hrun : analyse p c = .ok t) (hok : t.isOk = true) {f : Function}
    {before after : List Function} (hp : p.functions = before ++ f :: after) :
    (∀ a e : Expr, .expr a ∈ f.parts → e.ids.Nodup → e.ids.Disjoint p.ids →
        e.type (p.env f) = .error →
          (∃ body, BlockWithin (Expr.Swaps a e) Stmt.stays f.body body) ∧
            ∀ body, BlockWithin (Expr.Swaps a e) Stmt.stays f.body body →
              ∃ v, analyse (p.withBody before f after body) c = .ok v ∧
                ∀ u : Tables, (∀ x, u.symbols.find? x = p.env f x) →
                  (∀ node ∈ e.ids, u.annotations.get? node = none) →
                    ∃ u', checkExpr e u = .ok .error u' ∧
                      u'.diagnostics.toList = u.diagnostics.toList ++ v.diagnostics.toList) ∧
      ∀ (use : Use) (x : Ident) (y : String), .name use x ∈ f.parts → f.declared? y = none →
        p.function? y = none →
          (∃ body, BlockWithin (Expr.Renames x y) (Stmt.Renames x y) f.body body) ∧
            ∀ body, BlockWithin (Expr.Renames x y) (Stmt.Renames x y) f.body body →
              ∃ v, analyse (p.withBody before f after body) c = .ok v ∧
                v.diagnostics.toList = [⟨.undeclared y, x.loc⟩] := by
  have haccepted := Program.accepted_of_analyse hrun hok
  constructor
  · intro a e hmem hids hdisjoint htype
    refine ⟨exists_swapped hmem e, fun body hbody => ?_⟩
    obtain ⟨v, hv, hfound⟩ := haccepted.swap hp hbody hids hdisjoint htype
    refine ⟨v, hv, fun u henv hfresh => ?_⟩
    obtain ⟨u', hcheck, hu'⟩ := checkExpr_alone henv hids hfresh
    rw [htype] at hcheck
    exact ⟨u', hcheck, by rw [hu', hfound]⟩
  · intro use x y hmem hlocal hglobal
    refine ⟨exists_renamed hmem y, fun body hbody => ?_⟩
    exact haccepted.rename hp hbody hlocal hglobal

/-- The argument of the call in `halving` becomes a sum with two mistakes in it, and then the
name that is called one that no function has. -/
theorem halving_with_one_mistake :
    let half : Function := halving.functions.head (by decide)
    let start : Function := halving.functions.getLast (by decide)
    let node (id : NodeId) : Node := ⟨id, halving.loc⟩
    let sum : Expr := .binary (node 800) (.arith .add) (.var (node 801) ⟨node 802, "z"⟩)
      (.lit (node 803) (.bool true))
    let inside : Tables :=
      { symbols := { scopes := #[halving.scope, start.scope], stack := [1, 0] } }
    (∃ a body, BlockWithin (Expr.Swaps a sum) Stmt.stays start.body body ∧
        ∃ v u, analyse (halving.withBody [half] start [] body) {} = .ok v ∧
          checkExpr sum inside = .ok .error u ∧
            u.diagnostics.toList = v.diagnostics.toList) ∧
      ∃ x body, BlockWithin (Expr.Renames x "z") (Stmt.Renames x "z") start.body body ∧
        ∃ v, analyse (halving.withBody [half] start [] body) {} = .ok v ∧
          v.diagnostics.toList = [⟨.undeclared "z", x.loc⟩] := by
  intro half start node sum inside
  obtain ⟨t, hrun, hok⟩ := halving_accepted
  have hfunctions : halving.functions = [half] ++ start :: [] := rfl
  obtain ⟨a, ha⟩ : ∃ a, Part.expr a ∈ start.parts := ⟨_, List.mem_of_getElem? (i := 3) rfl⟩
  obtain ⟨x, hx⟩ : ∃ x, Part.name .called x ∈ start.parts :=
    ⟨_, List.mem_of_getElem? (i := 2) rfl⟩
  have henv : ∀ x, inside.symbols.find? x = halving.env start x :=
    @find?_eq_env halving start inside.symbols 0 1 rfl rfl rfl
  have hfresh : ∀ node ∈ sum.ids, inside.annotations.get? node = none :=
    fun node _ => Annotations.get?_empty node
  have hapart : sum.ids.Disjoint halving.ids := by
    have hold : ∀ id ∈ halving.ids, id < 800 := by decide
    have hnew : ∀ id ∈ sum.ids, 800 ≤ id := by decide
    intro id hid hmem
    exact absurd (hold id hmem) (Nat.not_lt_of_le (hnew id hid))
  obtain ⟨hswap, hrename⟩ := one_mistake_is_found_once hrun hok hfunctions
  obtain ⟨⟨body, hbody⟩, hfound⟩ := hswap a sum ha (by decide) hapart (by decide)
  obtain ⟨⟨body', hbody'⟩, hfound'⟩ := hrename .called x "z" hx (by decide) (by decide)
  obtain ⟨v, hv, halone⟩ := hfound body hbody
  obtain ⟨u, hu, hsame⟩ := halone inside henv hfresh
  exact ⟨⟨a, body, hbody, v, u, hv, hu, hsame⟩, x, body', hbody', hfound' body' hbody'⟩

end Asl
