import Asl.Proofs.Outcome
import Asl.Proofs.Relabelling

/-!
# Other numbers for the same parts

The parts of a body are told apart by their numbers, and a traversal asks nothing else of a
number. When the numbers are changed, even so that distinct parts come to share one, the parts are
visited in the same order with the same complaints, and what is written about a part is written
under its new number. Two programs are the same tree if they agree once all their parts have the
number 0. Among the programs of one tree there is one whose parts have different numbers.
-/

namespace Asl

/-- Only the parts of the body are renumbered. -/
def Function.renumber (ν : NodeId → NodeId) (f : Function) : Function :=
  { f with body := relabelBlock (.ofNumbers ν) f.body }

namespace Program

def renumber (ν : NodeId → NodeId) (p : Program) : Program :=
  p.mapBodies (relabelBlock (.ofNumbers ν))

/-- The same tree but for the numbers of its parts. -/
def SameTree (p p' : Program) : Prop := p.renumber (fun _ => 0) = p'.renumber fun _ => 0

section

variable {ν : NodeId → NodeId}

theorem functions_renumber (p : Program) :
    (p.renumber ν).functions = p.functions.map (Function.renumber ν) := rfl

theorem env_renumber (p : Program) (f : Function) : (p.renumber ν).env (f.renumber ν) = p.env f :=
  p.env_mapBodies (relabelBlock (.ofNumbers ν)) f (relabelBlock (.ofNumbers ν) f.body)

theorem callable_renumber (p : Program) (f : Function) :
    (p.renumber ν).callable (f.renumber ν) = p.callable f :=
  p.callable_mapBodies (relabelBlock (.ofNumbers ν)) f (relabelBlock (.ofNumbers ν) f.body)

/-- Calls are entered by the names of their callees. -/
theorem reached_renumber (p : Program) (f : Function) :
    reachedBlock (p.callable f) (f.renumber ν).body =
      (reachedBlock (p.callable f) f.body).map (Part.relabel (.ofNumbers ν)) :=
  reachedBlock_relabel (fun _ _ => rfl) f.body

theorem bodiesReading_renumber (p : Program) (c : Config) :
    (p.renumber ν).bodiesReading c = (p.bodiesReading c).map (Event.relabel (.ofNumbers ν)) := by
  have hreading (f : Function) :
      (f.renumber ν).reading (p.renumber ν) = (f.reading p).map (Event.relabel (.ofNumbers ν)) := by
    rw [Function.reading, env_renumber]
    exact blockReading_relabel (fun _ => rfl) f.resultType f.body
  have hentry : (p.renumber ν).entryReports c = p.entryReports c :=
    p.entryReports_mapBodies (relabelBlock (.ofNumbers ν)) c
  rw [bodiesReading, bodiesReading, hentry, functions_renumber, List.map_append,
    map_relabel_reports, Diagnostic.rename_id, List.map_id, List.flatMap_map, List.map_flatMap]
  simp only [hreading]

theorem visited_renumber (p : Program) :
    (p.renumber ν).visited = p.visited.map (Part.relabel (.ofNumbers ν)) := by
  simp only [visited, functions_renumber, List.flatMap_map, callable_renumber,
    reached_renumber, List.map_flatMap]

namespace SameTree

variable {p p' : Program}

theorem bodiesReading (h : p.SameTree p') (c : Config) :
    (p.bodiesReading c).map (Event.relabel .unnumbered) =
      (p'.bodiesReading c).map (Event.relabel .unnumbered) := by
  rw [← p.bodiesReading_renumber, ← p'.bodiesReading_renumber, h]

theorem visited (h : p.SameTree p') :
    p.visited.map (Part.relabel .unnumbered) = p'.visited.map (Part.relabel .unnumbered) := by
  rw [← p.visited_renumber, ← p'.visited_renumber, h]

/-- Registration does not look into bodies. -/
theorem register (h : p.SameTree p') : registerProgram p = registerProgram p' := by
  have hsame (q : Program) : registerProgram (q.renumber fun _ => 0) = registerProgram q :=
    q.register_mapBodies (relabelBlock .unnumbered)
  rw [← hsame p, h, hsame p']

theorem scopeIds (h : p.SameTree p') : p.scopeIds = p'.scopeIds := by
  have hsame (q : Program) : (q.renumber fun _ => 0).scopeIds = q.scopeIds :=
    q.scopeIds_mapBodies (relabelBlock .unnumbered)
  rw [← hsame p, h, hsame p']

end SameTree

end

end Program

/-- The parts of a list have the numbers from `k` on. -/
def Consecutive (k : Nat) (parts : List Part) : Prop :=
  parts.map Part.id = List.range' k parts.length

namespace Consecutive

variable {k : Nat} {part : Part} {parts rest : List Part}

theorem nil (k : Nat) : Consecutive k [] := rfl

theorem single (h : part.id = k) : Consecutive k [part] := by
  simp [Consecutive, h]

theorem append (hparts : Consecutive k parts) (hrest : Consecutive (k + parts.length) rest) :
    Consecutive k (parts ++ rest) := by
  unfold Consecutive at hparts hrest ⊢
  rw [List.map_append, hparts, hrest, List.range'_append_1, List.length_append]

theorem cons (hpart : part.id = k) (hrest : Consecutive (k + 1) rest) :
    Consecutive k (part :: rest) :=
  (single hpart).append hrest

theorem nodup (h : Consecutive k parts) : (parts.map Part.id).Nodup := h ▸ List.nodup_range'

end Consecutive

mutual
theorem Expr.exists_consecutive :
    ∀ (e : Expr) (k : Nat), ∃ e' : Expr,
      e.relabel .unnumbered = e'.relabel .unnumbered ∧ Consecutive k (e'.reached everyCall)
  | .lit n v, k => ⟨.lit { n with id := k } v, rfl, .single rfl⟩
  | .var n x, k =>
      ⟨.var { n with id := k + 1 } { x with id := k }, rfl, .cons rfl (.single rfl)⟩
  | .paren n e, k => by
      obtain ⟨e', hsame, he⟩ := e.exists_consecutive k
      refine ⟨.paren { n with id := k + (e'.reached everyCall).length } e', ?_, ?_⟩
      · rw [Expr.relabel, hsame]
        rfl
      · exact he.append (.single rfl)
  | .index n x e, k => by
      obtain ⟨e', hsame, he⟩ := e.exists_consecutive (k + 1)
      refine ⟨.index { n with id := k + 1 + (e'.reached everyCall).length }
        { x with id := k } e', ?_, ?_⟩
      · rw [Expr.relabel, hsame]
        rfl
      · exact .cons rfl (he.append (.single rfl))
  | .call n f args, k => by
      obtain ⟨args', hsame, hargs⟩ := exists_consecutiveExprs args (k + 1)
      refine ⟨.call { n with id := k + 1 + (reachedExprs everyCall args').length }
        { f with id := k } args', ?_, ?_⟩
      · rw [Expr.relabel, hsame]
        rfl
      · exact .cons rfl (hargs.append (.single rfl))
  | .unary n op e, k => by
      obtain ⟨e', hsame, he⟩ := e.exists_consecutive k
      refine ⟨.unary { n with id := k + (e'.reached everyCall).length } op e', ?_, ?_⟩
      · rw [Expr.relabel, hsame]
        rfl
      · exact he.append (.single rfl)
  | .binary n op l r, k => by
      obtain ⟨l', hl, hleft⟩ := l.exists_consecutive k
      obtain ⟨r', hr, hright⟩ := r.exists_consecutive (k + (l'.reached everyCall).length)
      have hoperands := hleft.append hright
      refine ⟨.binary { n with id :=
        k + (l'.reached everyCall ++ r'.reached everyCall).length } op l' r', ?_, ?_⟩
      · rw [Expr.relabel, hl, hr]
        rfl
      · exact hoperands.append (.single rfl)
theorem exists_consecutiveExprs :
    ∀ (es : List Expr) (k : Nat), ∃ es' : List Expr,
      relabelExprs .unnumbered es = relabelExprs .unnumbered es' ∧
        Consecutive k (reachedExprs everyCall es')
  | [], k => ⟨[], rfl, .nil k⟩
  | e :: rest, k => by
      obtain ⟨e', hsame, he⟩ := e.exists_consecutive k
      obtain ⟨rest', hothers, hrest⟩ :=
        exists_consecutiveExprs rest (k + (e'.reached everyCall).length)
      refine ⟨e' :: rest', ?_, he.append hrest⟩
      rw [relabelExprs, hsame, hothers]
      rfl
end

theorem Target.exists_consecutive (t : Target) (k : Nat) : ∃ t' : Target,
    t.relabel .unnumbered = t'.relabel .unnumbered ∧ Consecutive k (t'.reached everyCall) := by
  obtain ⟨n, x, _ | e⟩ := t
  · exact ⟨⟨{ n with id := k + 1 }, { x with id := k }, none⟩, rfl, .cons rfl (.single rfl)⟩
  · obtain ⟨e', hsame, he⟩ := e.exists_consecutive (k + 1)
    refine ⟨⟨{ n with id := k + 1 + (e'.reached everyCall).length }, { x with id := k },
      some e'⟩, ?_, ?_⟩
    · rw [relabel, Option.map_some, hsame]
      rfl
    · exact .cons rfl (he.append (.single rfl))

mutual
theorem Stmt.exists_consecutive :
    ∀ (s : Stmt) (k : Nat), ∃ s' : Stmt,
      s.relabel .unnumbered = s'.relabel .unnumbered ∧ Consecutive k (s'.reached everyCall)
  | .assign loc target value, k => by
      obtain ⟨target', ht, htarget⟩ := target.exists_consecutive k
      obtain ⟨value', hv, hvalue⟩ :=
        value.exists_consecutive (k + (target'.reached everyCall).length)
      refine ⟨.assign loc target' value', ?_, htarget.append hvalue⟩
      rw [Stmt.relabel, Stmt.relabel, ht, hv]
  | .ite loc condition yes no, k => by
      obtain ⟨condition', hc, hcondition⟩ := condition.exists_consecutive k
      obtain ⟨yes', hy, hyes⟩ :=
        exists_consecutiveBlock yes (k + (condition'.reached everyCall).length)
      have hfirst := hcondition.append hyes
      match no with
      | none =>
          refine ⟨.ite loc condition' yes' none, ?_, hfirst.append (.nil _)⟩
          rw [Stmt.relabel, Stmt.relabel, hc, hy]
      | some no =>
          obtain ⟨no', hn, hno⟩ := exists_consecutiveBlock no
            (k + (condition'.reached everyCall ++ reachedBlock everyCall yes').length)
          refine ⟨.ite loc condition' yes' (some no'), ?_, hfirst.append hno⟩
          rw [Stmt.relabel, Stmt.relabel, hc, hy, hn]
  | .loop loc condition body, k => by
      obtain ⟨condition', hc, hcondition⟩ := condition.exists_consecutive k
      obtain ⟨body', hb, hbody⟩ :=
        exists_consecutiveBlock body (k + (condition'.reached everyCall).length)
      refine ⟨.loop loc condition' body', ?_, hcondition.append hbody⟩
      rw [Stmt.relabel, Stmt.relabel, hc, hb]
  | .call loc f args, k => by
      obtain ⟨args', hsame, hargs⟩ := exists_consecutiveExprs args (k + 1)
      refine ⟨.call loc { f with id := k } args', ?_, .cons rfl hargs⟩
      rw [Stmt.relabel, Stmt.relabel, hsame]
      rfl
  | .read loc target, k => by
      obtain ⟨target', hsame, htarget⟩ := target.exists_consecutive k
      refine ⟨.read loc target', ?_, htarget⟩
      rw [Stmt.relabel, Stmt.relabel, hsame]
  | .write loc value, k => by
      obtain ⟨value', hsame, hvalue⟩ := value.exists_consecutive k
      refine ⟨.write loc value', ?_, hvalue⟩
      rw [Stmt.relabel, Stmt.relabel, hsame]
  | .print loc text, k => ⟨.print loc text, rfl, .nil k⟩
  | .ret loc none, k => ⟨.ret loc none, rfl, .nil k⟩
  | .ret loc (some value), k => by
      obtain ⟨value', hsame, hvalue⟩ := value.exists_consecutive k
      refine ⟨.ret loc (some value'), ?_, hvalue⟩
      rw [Stmt.relabel, Stmt.relabel, Option.map_some, Option.map_some, hsame]
theorem exists_consecutiveBlock :
    ∀ (ss : List Stmt) (k : Nat), ∃ ss' : List Stmt,
      relabelBlock .unnumbered ss = relabelBlock .unnumbered ss' ∧
        Consecutive k (reachedBlock everyCall ss')
  | [], k => ⟨[], rfl, .nil k⟩
  | s :: rest, k => by
      obtain ⟨s', hsame, hs⟩ := s.exists_consecutive k
      obtain ⟨rest', hothers, hrest⟩ :=
        exists_consecutiveBlock rest (k + (s'.reached everyCall).length)
      refine ⟨s' :: rest', ?_, hs.append hrest⟩
      rw [relabelBlock, relabelBlock, hsame, hothers]
end

theorem exists_consecutiveFunctions (fs : List Function) (k : Nat) : ∃ fs' : List Function,
    fs.map (Function.renumber fun _ => 0) = fs'.map (Function.renumber fun _ => 0) ∧
      Consecutive k (fs'.flatMap Function.parts) := by
  induction fs generalizing k with
  | nil => exact ⟨[], rfl, .nil k⟩
  | cons f rest ih =>
      obtain ⟨body', hbody, hparts⟩ := exists_consecutiveBlock f.body k
      obtain ⟨rest', hothers, hrest⟩ := ih (k + (reachedBlock everyCall body').length)
      refine ⟨{ f with body := body' } :: rest', ?_, hparts.append hrest⟩
      have hfunction : f.renumber (fun _ => 0) =
          ({ f with body := body' } : Function).renumber fun _ => 0 := by
        rw [Function.renumber, hbody]
        rfl
      rw [List.map_cons, List.map_cons, hfunction, hothers]

/-- The parts of every tree can be given numbers of their own. -/
theorem Program.exists_sameTree_nodup (p : Program) :
    ∃ p', p.SameTree p' ∧ p'.partIds.Nodup := by
  obtain ⟨fs, hfunctions, hparts⟩ := exists_consecutiveFunctions p.functions 0
  exact ⟨{ p with functions := fs }, congrArg (Program.mk p.toNode) hfunctions, hparts.nodup⟩

end Asl
