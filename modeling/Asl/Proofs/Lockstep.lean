import Asl.Proofs.Frame
import Asl.Proofs.Run

/-!
# Running beside other scopes

Tables that have been used before hold scopes, facts and complaints that a run on empty
tables knows nothing of. As long as none of the facts is about a node of the program, the
two runs go in lockstep: a scope of the one stands behind the old scopes of the other, and
facts and complaints are the same but for that shift. This holds step by step and at
faults too, so the two passes need not follow each other at once.
-/

namespace Asl

namespace Symbols

/-- The scopes of `s` stand from number `base` on among those of `u`, and the same of them
are active. -/
structure Shifted (base : ScopeId) (s u : Symbols) : Prop where
  stack : u.stack = s.stack.map (base + ·)
  active : ∀ id ∈ s.stack, id < s.scopes.size
  scopes : ∀ id < s.scopes.size, u.scopes[base + id]? = s.scopes[id]?

namespace Shifted

variable {base : ScopeId} {s u : Symbols}

theorem lt_size (h : Shifted base s u) {id : ScopeId} (hid : id < s.scopes.size) :
    base + id < u.scopes.size := by
  have hscope := h.scopes id hid
  rw [Array.getElem?_eq_getElem hid] at hscope
  exact (Array.getElem?_eq_some_iff.mp hscope).1

theorem findIn? (h : Shifted base s u) {id : ScopeId} (hid : id < s.scopes.size) (x : String) :
    u.findIn? (base + id) x = s.findIn? id x := by
  rw [Symbols.findIn?, Symbols.findIn?, h.scopes id hid]

theorem find? (h : Shifted base s u) (x : String) : u.find? x = s.find? x := by
  have hfind (stack : List ScopeId) (hstack : ∀ id ∈ stack, id < s.scopes.size) :
      (stack.map (base + ·)).findSome? (u.findIn? · x) = stack.findSome? (s.findIn? · x) := by
    induction stack with
    | nil => rfl
    | cons id rest ih =>
        rw [List.forall_mem_cons] at hstack
        obtain ⟨hid, hrest⟩ := hstack
        simp only [List.map_cons, List.findSome?_cons, h.findIn? hid x, ih hrest]
  rw [Symbols.find?, h.stack]
  exact hfind s.stack h.active

theorem innermost? (h : Shifted base s u) : u.innermost? = s.innermost?.map (base + ·) := by
  rw [Symbols.innermost?, Symbols.innermost?, h.stack, List.head?_map]

theorem declaredHere (h : Shifted base s u) (x : String) :
    u.declaredHere x = s.declaredHere x := by
  rw [Symbols.declaredHere, Symbols.declaredHere, h.innermost?]
  cases hid : s.innermost? with
  | none => rfl
  | some id =>
      have hactive := h.active id (List.mem_of_mem_head? hid)
      simp [h.findIn? hactive]

theorem hasEntryPoint (h : Shifted base s u) (x : String) :
    u.hasEntryPoint x = s.hasEntryPoint x := by
  rw [Symbols.hasEntryPoint, Symbols.hasEntryPoint, Symbols.outermost?, Symbols.outermost?,
    h.stack, List.getLast?_map]
  cases hid : s.stack.getLast? with
  | none => rfl
  | some id =>
      have hactive := h.active id (List.mem_of_getLast? hid)
      simp [h.findIn? hactive]

theorem enter (h : Shifted base s u) {id : ScopeId} (hid : id < s.scopes.size) :
    Shifted base (s.activate id) (u.activate (base + id)) := by
  refine ⟨by simp [activate, h.stack], ?_, h.scopes⟩
  rintro other hother
  rcases List.mem_cons.mp hother with rfl | hother
  · exact hid
  · exact h.active other hother

theorem leave (h : Shifted base s u) : Shifted base s.leave u.leave := by
  refine ⟨?_, fun id hid => h.active id (List.mem_of_mem_tail hid), h.scopes⟩
  simp [Symbols.leave, h.stack]

theorem modify (h : Shifted base s u) (id : ScopeId) (change : Scope → Scope) :
    Shifted base (s.modify id change) (u.modify (base + id) change) := by
  refine ⟨h.stack, ?_, fun other hother => ?_⟩
  · simpa [Symbols.modify] using h.active
  · have hscope := h.scopes other (by simpa [Symbols.modify] using hother)
    simp [Symbols.modify, Array.getElem?_modify, hscope]

theorem push (h : Shifted base s u) (hsize : u.scopes.size = base + s.scopes.size)
    (scope : Scope) : Shifted base (s.push scope) (u.push scope) := by
  refine ⟨h.stack, fun id hid => ?_, fun id hid => ?_⟩
  · have hactive := h.active id hid
    simp only [Symbols.push, Array.size_push]
    exact Nat.lt_succ_of_lt hactive
  · simp only [Symbols.push, Array.size_push] at hid ⊢
    rcases Nat.lt_succ_iff_lt_or_eq.mp hid with hlt | rfl
    · simp only [Array.getElem?_push, hsize, Nat.add_left_cancel_iff, Nat.ne_of_lt hlt, if_false]
      exact h.scopes id hlt
    · have hlast : (u.scopes.push scope)[u.scopes.size]? = some scope := Array.getElem?_push_size
      rw [← hsize, hlast, Array.getElem?_push_size]

end Shifted

end Symbols

def Fact.shift (base : ScopeId) : Fact → Fact
  | .scope id => .scope (base + id)
  | fact => fact

def Annotation.shift (base : ScopeId) (a : Annotation) : Annotation :=
  { a with scope := a.scope.map (base + ·) }

theorem Fact.field_shift (base : ScopeId) (fact : Fact) : (fact.shift base).field = fact.field := by
  cases fact <;> rfl

theorem Annotation.has_shift (base : ScopeId) (a : Annotation) (field : Field) :
    (a.shift base).has field = a.has field := by
  cases field <;> simp [shift, has]

theorem Annotation.learn_shift (base : ScopeId) (a : Annotation) (fact : Fact) :
    (a.shift base).learn (fact.shift base) = (a.learn fact).shift base := by
  cases fact <;> rfl

namespace Annotations

/-- About these nodes the stores say the same, but for the shift. -/
def Shifted (ids : List NodeId) (base : ScopeId) (a b : Annotations) : Prop :=
  ∀ node ∈ ids, b.get? node = (a.get? node).map (·.shift base)

namespace Shifted

variable {ids : List NodeId} {base : ScopeId} {a b : Annotations} {node : NodeId}

theorem scope? (h : Shifted ids base a b) (hnode : node ∈ ids) :
    b.scope? node = (a.scope? node).map (base + ·) := by
  rw [Annotations.scope?, Annotations.scope?, h node hnode]
  cases a.get? node <;> rfl

theorem put (h : Shifted ids base a b) (hnode : node ∈ ids) (fact : Fact) :
    (∃ fault, a.put node fact = .error fault ∧ b.put node (fact.shift base) = .error fault) ∨
      ∃ a' b', a.put node fact = .ok a' ∧ b.put node (fact.shift base) = .ok b' ∧
        Shifted ids base a' b' := by
  have hknown : (b.get? node).getD {} = ((a.get? node).getD {}).shift base := by
    rw [h node hnode]
    cases a.get? node <;> rfl
  have hhas : ((b.get? node).getD {}).has (fact.shift base).field =
      ((a.get? node).getD {}).has fact.field := by
    rw [hknown, Fact.field_shift, Annotation.has_shift]
  cases hfield : ((a.get? node).getD {}).has fact.field with
  | true =>
      refine .inl ⟨_, put_eq_error hfield, ?_⟩
      rw [put_eq_error (hhas.trans hfield), Fact.field_shift]
  | false =>
      have ha := put_eq_ok hfield
      have hb := put_eq_ok (hhas.trans hfield)
      refine .inr ⟨_, _, ha, hb, fun other hother => ?_⟩
      rw [get?_of_put ha, get?_of_put hb]
      split
      · rw [hknown, Annotation.learn_shift, Option.map_some]
      · exact h other hother

end Shifted

end Annotations

/-- What two runs have written down: the same facts about the nodes `ids` but for the shift,
with scopes below `limit`, and the same complaints since there were `own` and `others`. -/
structure Tables.Tally (ids : List NodeId) (base limit : ScopeId) (own others : List Diagnostic)
    (o t : Tables) : Prop where
  given : ∀ node ∈ ids, ∀ id, o.annotations.scope? node = some id → id < limit
  records : o.annotations.Shifted ids base t.annotations
  found : ∃ new, o.diagnostics.toList = own ++ new ∧ t.diagnostics.toList = others ++ new

/-- What the tables `o` hold is part of what the tables `t` hold. -/
structure Tables.Beside (ids : List NodeId) (base : ScopeId) (own others : List Diagnostic)
    (o t : Tables) : Prop where
  symbols : o.symbols.Shifted base t.symbols
  tally : Tables.Tally ids base o.symbols.scopes.size own others o t

/-- No scope has been made since but those of `o`. -/
structure Tables.Behind (ids : List NodeId) (base : ScopeId) (own others : List Diagnostic)
    (o t : Tables) : Prop extends Tables.Beside ids base own others o t where
  size : t.symbols.scopes.size = base + o.symbols.scopes.size

namespace Pass

/-- The value of a pass, or the fault that it met. -/
def result (p : Pass α) (t : Tables) : Except Fault α :=
  match p t with
  | .ok a _ => .ok a
  | .error fault _ => .error fault

theorem result_of_ok {p : Pass α} {t u : Tables} {a : α} (h : p t = .ok a u) :
    p.result t = .ok a := by
  simp [result, h]

theorem result_of_error {p : Pass α} {t u : Tables} {fault : Fault} (h : p t = .error fault u) :
    p.result t = .error fault := by
  simp [result, h]

theorem result_of_eq {p q : Pass α} {t u : Tables} (h : p t = q u) : p.result t = q.result u := by
  rw [result, h, result]

theorem eq_ok_of_result {p : Pass α} {t : Tables} {a : α} (h : p.result t = .ok a) :
    p t = .ok a (p.after t) := by
  cases hrun : p t <;> simp_all [result, after]

theorem eq_error_of_result {p : Pass α} {t : Tables} {fault : Fault}
    (h : p.result t = .error fault) : p t = .error fault (p.after t) := by
  cases hrun : p t <;> simp_all [result, after]

theorem result_ensuring (tidy : Tables → Tables) (body : Pass α) (t : Tables) :
    (body.ensuring tidy).result t = body.result t := by
  unfold result ensuring
  cases body t <;> rfl

theorem result_within (scope : ScopeId) (body : Pass α) (t : Tables) :
    (Pass.within scope body).result t =
      if scope < t.symbols.scopes.size then
        body.result { t with symbols.stack := scope :: t.symbols.stack }
      else .error (.unknownScope scope) := by
  by_cases hscope : scope < t.symbols.scopes.size
  · rw [if_pos hscope, result_of_eq (within_of_lt hscope), result_ensuring]
  · rw [if_neg hscope, result_of_error (within_of_not_lt hscope)]

/-- Both passes give the same value or meet the same fault, and lead to related tables. -/
structure Alike (R : Tables → Tables → Prop) (p : Pass α) (o : Tables) (q : Pass α)
    (t : Tables) : Prop where
  result : p.result o = q.result t
  tables : R (p.after o) (q.after t)

namespace Alike

variable {R : Tables → Tables → Prop} {p q : Pass α} {f g : α → Pass β} {o t : Tables}

theorem of_ok {o' t' : Tables} {a : α} (hp : p o = .ok a o') (hq : q t = .ok a t')
    (h : R o' t') : Alike R p o q t :=
  ⟨(result_of_ok hp).trans (result_of_ok hq).symm, by rwa [after_of_ok hp, after_of_ok hq]⟩

theorem of_error {o' t' : Tables} {fault : Fault} (hp : p o = .error fault o')
    (hq : q t = .error fault t') (h : R o' t') : Alike R p o q t :=
  ⟨(result_of_error hp).trans (result_of_error hq).symm,
    by rwa [after_of_error hp, after_of_error hq]⟩

/-- Only the runs count, not how they are written. -/
theorem congr {p' q' : Pass α} {o' t' : Tables} (hp : p o = p' o') (hq : q t = q' t')
    (h : Alike R p' o' q' t') : Alike R p o q t := by
  obtain ⟨hresult, htables⟩ := h
  refine ⟨?_, ?_⟩
  · rw [result_of_eq hp, result_of_eq hq, hresult]
  · rw [after_of_eq hp, after_of_eq hq]
    exact htables

theorem bind {S : Tables → Tables → Prop} (h : Alike S p o q t)
    (hrest : ∀ a o' t', S o' t' → Alike R (f a) o' (g a) t')
    (hfault : ∀ {o' t'}, S o' t' → R o' t') : Alike R (p >>= f) o (q >>= g) t := by
  obtain ⟨hresult, htables⟩ := h
  cases hp : p.result o with
  | ok a =>
      have hrun := eq_ok_of_result hp
      have hrun' := eq_ok_of_result (hresult.symm.trans hp)
      exact congr (bind_of_ok hrun) (bind_of_ok hrun') (hrest a (p.after o) (q.after t) htables)
  | error fault =>
      have hrun := eq_error_of_result hp
      have hrun' := eq_error_of_result (hresult.symm.trans hp)
      exact .of_error (bind_of_error hrun) (bind_of_error hrun') (hfault htables)

theorem ensuring {S : Tables → Tables → Prop} {tidy : Tables → Tables}
    (htidy : ∀ {o' t'}, S o' t' → R (tidy o') (tidy t')) (h : Alike S p o q t) :
    Alike R (p.ensuring tidy) o (q.ensuring tidy) t := by
  refine ⟨?_, ?_⟩
  · rw [result_ensuring, result_ensuring, h.result]
  · rw [after_ensuring, after_ensuring]
    exact htidy h.tables

theorem within {id id' : ScopeId} (hid : id < o.symbols.scopes.size)
    (hid' : id' < t.symbols.scopes.size) (hleave : ∀ {o' t'}, R o' t' → R o'.leave t'.leave)
    (h : Alike R p { o with symbols := o.symbols.activate id } q
      { t with symbols := t.symbols.activate id' }) :
    Alike R (Pass.within id p) o (Pass.within id' q) t :=
  congr (within_of_lt hid) (within_of_lt hid') (.ensuring hleave h)

end Alike

end Pass

open Pass (Alike)
open Tables (Tally Beside Behind SameScopes)

section

variable {ids : List NodeId} {base limit : ScopeId} {own others : List Diagnostic} {o t : Tables}

namespace Tables.Tally

theorem report (h : Tally ids base limit own others o t) (ds : List Diagnostic) :
    Tally ids base limit own others (o.report ds) (t.report ds) := by
  obtain ⟨new, ho, ht⟩ := h.found
  refine ⟨h.given, h.records, new ++ ds, ?_, ?_⟩
  · simp [Tables.report, ho]
  · simp [Tables.report, ht]

theorem withSymbols (h : Tally ids base limit own others o t) (s s' : Symbols) :
    Tally ids base limit own others (o.withSymbols s) (t.withSymbols s') :=
  ⟨h.given, h.records, h.found⟩

theorem put (h : Tally ids base limit own others o t) {node : NodeId} (hnode : node ∈ ids)
    {fact : Fact} (hfact : ∀ id, fact = .scope id → id < limit) :
    Alike (Tally ids base limit own others) (Pass.put node fact) o
      (Pass.put node (fact.shift base)) t := by
  obtain ⟨fault, ha, hb⟩ | ⟨a, b, ha, hb, hrecords⟩ := h.records.put hnode fact
  · have hown : Pass.put node fact o = .error fault o := by simp [Pass.put, ha]
    have hothers : Pass.put node (fact.shift base) t = .error fault t := by simp [Pass.put, hb]
    exact .of_error hown hothers h
  · have htally : Tally ids base limit own others { o with annotations := a }
        { t with annotations := b } := by
      refine ⟨fun other hother id hid => ?_, hrecords, h.found⟩
      have hget := Annotations.get?_of_put ha other
      simp only [Annotations.scope?, hget] at hid
      split at hid
      · next heq =>
          subst heq
          cases fact with
          | scope id' =>
              obtain rfl : id' = id := Option.some.inj hid
              exact hfact id' rfl
          | type _ | lvalue _ =>
              apply h.given node hother id
              cases hold : o.annotations.get? node <;>
                simp_all [Annotations.scope?, Annotation.learn]
      · exact h.given other hother id hid
    refine .of_ok (a := ()) ?_ ?_ htally
    · simp [Pass.put, ha]
    · simp [Pass.put, hb]

/-- Events about the nodes have the same effect on both sides. -/
theorem replay {es : Reading}
    (hes : ∀ node fact, (node, fact) ∈ es.facts → node ∈ ids ∧ ∀ id, fact ≠ .scope id)
    (h : Tally ids base limit own others o t) :
    Alike (Tally ids base limit own others) es.replay o es.replay t := by
  induction es generalizing o t with
  | nil => exact .of_ok (a := ()) rfl rfl h
  | cons e es ih =>
      cases e with
      | report d =>
          have hrest := ih hes (h.report [d])
          exact .congr (Reading.replay_report d es o) (Reading.replay_report d es t) hrest
      | write node fact =>
          obtain ⟨hnode, hfact⟩ := hes node fact List.mem_cons_self
          have hshift : fact.shift base = fact := by
            cases fact with
            | scope id => exact absurd rfl (hfact id)
            | type _ | lvalue _ => rfl
          have hput := h.put hnode fun id hid => absurd hid (hfact id)
          rw [hshift] at hput
          refine hput.bind (fun _ o' t' h' => ih (fun other found hmem => ?_) h') id
          exact hes other found (List.mem_cons_of_mem _ hmem)

end Tables.Tally

namespace Tables.Beside

/-- The scopes of the one run have not changed, nor has what is active. -/
theorem of_sameScopes {o' t' : Tables} (h : o.symbols.Shifted base t.symbols)
    (ho : SameScopes o o') (ht : SameScopes t t')
    (htally : Tally ids base o.symbols.scopes.size own others o' t') :
    Beside ids base own others o' t' := by
  refine ⟨⟨?_, ?_, ?_⟩, ?_⟩
  · rw [ho.stack, ht.stack, h.stack]
  · rw [ho.stack, ho.scopes]
    exact h.active
  · rw [ho.scopes, ht.scopes]
    exact h.scopes
  · rwa [ho.scopes]

theorem report (h : Beside ids base own others o t) (ds : List Diagnostic) :
    Beside ids base own others (o.report ds) (t.report ds) :=
  ⟨h.symbols, h.tally.report ds⟩

theorem leave (h : Beside ids base own others o t) :
    Beside ids base own others o.leave t.leave :=
  ⟨h.symbols.leave, h.tally.withSymbols _ _⟩

theorem activate (h : Beside ids base own others o t) {id : ScopeId}
    (hid : id < o.symbols.scopes.size) :
    Beside ids base own others { o with symbols := o.symbols.activate id }
      { t with symbols := t.symbols.activate (base + id) } :=
  ⟨h.symbols.enter hid, h.tally.withSymbols _ _⟩

theorem withSignature (h : Beside ids base own others o t) (signature : Option Ty) :
    Beside ids base own others (o.withSignature signature) (t.withSignature signature) :=
  ⟨⟨h.symbols.stack, h.symbols.active, h.symbols.scopes⟩, h.tally.withSymbols _ _⟩

end Tables.Beside

/-- Names mean the same on both sides, so both replay one reading. -/
theorem checkBlock_alike (h : Beside ids base own others o t) {result : Ty}
    (ho : o.symbols.signature.bind Ty.result? = some result)
    (ht : t.symbols.signature.bind Ty.result? = some result) (ss : List Stmt)
    (hparts : ∀ part ∈ reachedBlock everyCall ss, part.id ∈ ids) :
    Alike (Beside ids base own others) (checkBlock ss) o (checkBlock ss) t := by
  let env : Env := o.symbols.find?
  let es := blockReading env result ss
  have hown : Pass.Replays o (checkBlock ss) () es o.symbols :=
    checkBlock_reads (fun _ => rfl) ho ss [] o rfl (by simp)
  have hothers : Pass.Replays t (checkBlock ss) () es t.symbols :=
    checkBlock_reads h.symbols.find? ht ss [] t rfl (by simp)
  have hfacts : ∀ node fact, (node, fact) ∈ es.facts → node ∈ ids ∧ ∀ id, fact ≠ .scope id := by
    intro node fact hmem
    rw [facts_blockReading] at hmem
    obtain ⟨part, hpart, hfact⟩ := List.mem_flatMap.mp hmem
    have hid := hparts part ((reachedBlock_sublist env.takes ss).subset hpart)
    rcases List.mem_cons.mp hfact with heq | hfact
    · obtain ⟨rfl, rfl⟩ := Prod.mk.inj heq
      exact ⟨hid, fun _ heq => nomatch heq⟩
    · obtain ⟨rfl, rfl⟩ := Prod.mk.inj (List.mem_singleton.mp hfact)
      exact ⟨hid, fun _ heq => nomatch heq⟩
  have hscopes (u : Tables) : SameScopes u ((checkBlock ss).after u) :=
    checkBlock_keeps sameScopes_tolerates ss (fun _ _ => trivial) u
  obtain ⟨hresult, htally⟩ := h.tally.replay hfacts
  unfold Pass.Replays at hown hothers
  cases hes : es.replay.result o with
  | ok _ =>
      rw [Pass.eq_ok_of_result hes] at hown
      rw [Pass.eq_ok_of_result (hresult.symm.trans hes)] at hothers
      refine .of_ok hown hothers (.of_sameScopes h.symbols ?_ ?_ (htally.withSymbols _ _))
      · exact Pass.after_of_ok hown ▸ hscopes o
      · exact Pass.after_of_ok hothers ▸ hscopes t
  | error fault =>
      rw [Pass.eq_error_of_result hes] at hown
      rw [Pass.eq_error_of_result (hresult.symm.trans hes)] at hothers
      obtain ⟨s, hown⟩ := hown
      obtain ⟨s', hothers⟩ := hothers
      refine .of_error hown hothers (.of_sameScopes h.symbols ?_ ?_ (htally.withSymbols _ _))
      · exact Pass.after_of_error hown ▸ hscopes o
      · exact Pass.after_of_error hothers ▸ hscopes t

/-- The scope of a node has the number that the shift asks for, or is missing on both sides. -/
theorem scopeOf_alike (h : Beside ids base own others o t) {node : NodeId} (hnode : node ∈ ids)
    {rest rest' : ScopeId → Pass α}
    (hrest : ∀ id < o.symbols.scopes.size,
      Alike (Beside ids base own others) (rest id) o (rest' (base + id)) t) :
    Alike (Beside ids base own others) (Pass.scopeOf node >>= rest) o
      (Pass.scopeOf node >>= rest') t := by
  have hshift := h.tally.records.scope? hnode
  cases hscope : o.annotations.scope? node with
  | none =>
      rw [hscope] at hshift
      exact .of_error (Pass.bind_of_error (Pass.scopeOf_of_none hscope))
        (Pass.bind_of_error (Pass.scopeOf_of_none hshift)) h
  | some id =>
      rw [hscope] at hshift
      have hid := h.tally.given node hnode id hscope
      exact .congr (Pass.bind_of_ok (Pass.scopeOf_of_some hscope))
        (Pass.bind_of_ok (Pass.scopeOf_of_some hshift)) (hrest id hid)

theorem checkFunction_alike (h : Beside ids base own others o t) {f : Function}
    (hf : f.id ∈ ids) (hparts : ∀ part ∈ f.parts, part.id ∈ ids) :
    Alike (Beside ids base own others) (checkFunction f) o (checkFunction f) t := by
  let signed (u : Tables) : Tables := u.withSignature (some f.signature)
  let rest (scope : ScopeId) : Pass Unit :=
    (Pass.within scope (checkBlock f.body)).ensuring (·.withSignature none)
  have hrun (u : Tables) : checkFunction f u = (Pass.scopeOf f.id >>= rest) (signed u) := rfl
  have hsigned : Beside ids base own others (signed o) (signed t) := h.withSignature _
  refine .congr (hrun o) (hrun t) (scopeOf_alike hsigned hf fun id hid => ?_)
  refine .ensuring (fun h' => Beside.withSignature h' none) ?_
  refine .within hid (hsigned.symbols.lt_size hid) (fun h' => Beside.leave h') ?_
  exact checkBlock_alike (hsigned.activate hid) rfl rfl f.body hparts

theorem checkFunctions_alike (h : Beside ids base own others o t) {fs : List Function}
    (hfs : ∀ f ∈ fs, f.id ∈ ids ∧ ∀ part ∈ f.parts, part.id ∈ ids) :
    Alike (Beside ids base own others) (checkFunctions fs) o (checkFunctions fs) t := by
  induction fs generalizing o t with
  | nil => exact .of_ok (a := ()) rfl rfl h
  | cons f rest ih =>
      rw [List.forall_mem_cons] at hfs
      obtain ⟨⟨hf, hparts⟩, hrest⟩ := hfs
      rw [checkFunctions]
      exact (checkFunction_alike h hf hparts).bind (fun _ _ _ h' => ih h' hrest) id

theorem checkEntryPoint_alike (h : Beside ids base own others o t) (c : Config) (loc : Location) :
    Alike (Beside ids base own others) (checkEntryPoint c loc) o (checkEntryPoint c loc) t := by
  have hrun (u : Tables) : checkEntryPoint c loc u = .ok () (u.report
      (complainIf (!u.symbols.hasEntryPoint c.entryPoint) (.entryPoint c.entryPoint) loc)) := rfl
  refine .of_ok (hrun o) (hrun t) ?_
  rw [h.symbols.hasEntryPoint]
  exact h.report _

/-- The same number of complaints is found, as many as there were before. -/
theorem checkProgram_alike (h : Beside ids base own others o t) (c : Config) {p : Program}
    (hids : p.ids ⊆ ids) :
    Alike (Beside ids base own others) (checkProgram c p) o (checkProgram c p) t := by
  have hp : p.id ∈ ids := hids List.mem_cons_self
  have hfs : ∀ f ∈ p.functions, f.id ∈ ids ∧ ∀ part ∈ f.parts, part.id ∈ ids := by
    intro f hf
    exact ⟨hids (Program.id_mem_ids hf), fun part hpart => hids (Program.part_id_mem_ids hf hpart)⟩
  let count (before : Nat) : Pass Nat := do return (← get).diagnostics.size - before
  let rest (scope : ScopeId) (before : Nat) : Pass Nat := do
    Pass.within scope do
      checkFunctions p.functions
      checkEntryPoint c p.loc
    count before
  have hcount {o' t' : Tables} (h' : Beside ids base own others o' t') :
      Alike (Beside ids base own others) (count o.diagnostics.size) o'
        (count t.diagnostics.size) t' := by
    obtain ⟨new, ho, ht⟩ := h.tally.found
    obtain ⟨new', ho', ht'⟩ := h'.tally.found
    have hsame : t'.diagnostics.size - t.diagnostics.size =
        o'.diagnostics.size - o.diagnostics.size := by
      simp only [Diagnostics.size_eq_length, ho, ht, ho', ht', List.length_append]
      omega
    refine .of_ok (a := o'.diagnostics.size - o.diagnostics.size) rfl ?_ h'
    exact congrArg (EStateM.Result.ok · t') hsame
  have hrun (u : Tables) : checkProgram c p u =
      (Pass.scopeOf p.id >>= fun scope => rest scope u.diagnostics.size) u := rfl
  refine .congr (hrun o) (hrun t) (scopeOf_alike h hp fun id hid => ?_)
  have hbody : Alike (Beside ids base own others)
      (Pass.within id do
        checkFunctions p.functions
        checkEntryPoint c p.loc) o
      (Pass.within (base + id) do
        checkFunctions p.functions
        checkEntryPoint c p.loc) t := by
    refine .within hid (h.symbols.lt_size hid) (fun h' => Beside.leave h') ?_
    refine (checkFunctions_alike (h.activate hid) hfs).bind (fun _ _ _ h' => ?_) (fun h' => h')
    exact checkEntryPoint_alike h' c p.loc
  exact hbody.bind (fun _ _ _ h' => hcount h') (fun h' => h')

namespace Tables.Behind

theorem report (h : Behind ids base own others o t) (ds : List Diagnostic) :
    Behind ids base own others (o.report ds) (t.report ds) :=
  ⟨h.toBeside.report ds, h.size⟩

theorem leave (h : Behind ids base own others o t) :
    Behind ids base own others o.leave t.leave :=
  ⟨h.toBeside.leave, h.size⟩

theorem modify (h : Behind ids base own others o t) (id : ScopeId) (change : Scope → Scope) :
    Behind ids base own others { o with symbols := o.symbols.modify id change }
      { t with symbols := t.symbols.modify (base + id) change } := by
  have hsize : (o.symbols.modify id change).scopes.size = o.symbols.scopes.size := by
    simp [Symbols.modify]
  refine ⟨⟨h.symbols.modify id change, ?_⟩, ?_⟩
  · rw [hsize]
    exact h.tally.withSymbols _ _
  · rw [hsize]
    simpa [Symbols.modify] using h.size

theorem push (h : Behind ids base own others o t) (scope : Scope) :
    Behind ids base own others { o with symbols := o.symbols.push scope }
      { t with symbols := t.symbols.push scope } := by
  have hsize : (o.symbols.push scope).scopes.size = o.symbols.scopes.size + 1 := by
    simp [Symbols.push]
  obtain ⟨hgiven, hrecords, hfound⟩ := h.tally
  refine ⟨⟨h.symbols.push h.size scope, ⟨fun node hnode id hid => ?_, hrecords, hfound⟩⟩, ?_⟩
  · rw [hsize]
    exact Nat.lt_succ_of_lt (hgiven node hnode id hid)
  · rw [hsize, ← Nat.add_assoc, ← h.size]
    simp [Symbols.push]

end Tables.Behind

theorem registerName_alike (h : Behind ids base own others o t) (x : Ident) (b : Binding) :
    Alike (Behind ids base own others) (registerName x b) o (registerName x b) t := by
  have hrun (u : Tables) : registerName x b u =
      (if u.symbols.declaredHere x.name then Pass.report [⟨.redeclared x.name, x.loc⟩]
        else Pass.declare x.name b) u := rfl
  refine .congr (hrun o) (hrun t) ?_
  rw [h.symbols.declaredHere]
  split
  · exact .of_ok (a := ()) rfl rfl (h.report _)
  · have hshift := h.symbols.innermost?
    cases hinnermost : o.symbols.innermost? with
    | none =>
        rw [hinnermost] at hshift
        exact .of_error (Pass.declare_of_none hinnermost _ b) (Pass.declare_of_none hshift _ b) h
    | some id =>
        rw [hinnermost] at hshift
        exact .of_ok (Pass.declare_of_some hinnermost _ b) (Pass.declare_of_some hshift _ b)
          (h.modify id _)

theorem registerNames_alike (h : Behind ids base own others o t) (ds : List Decl) :
    Alike (Behind ids base own others) (registerNames ds) o (registerNames ds) t := by
  induction ds generalizing o t with
  | nil => exact .of_ok (a := ()) rfl rfl h
  | cons d rest ih =>
      rw [registerNames]
      exact (registerName_alike h d.1 d.2).bind (fun _ _ _ h' => ih h') id

/-- The two new scopes have the numbers that the shift asks for. -/
theorem opening_alike (h : Behind ids base own others o t) {name : String} {node : NodeId}
    (hnode : node ∈ ids) {body : Pass Unit}
    (hbody : ∀ {o' t'}, Behind ids base own others o' t' →
      Alike (Behind ids base own others) body o' body t') :
    Alike (Behind ids base own others)
      (do
        let scope ← Pass.newScope name
        Pass.put node (.scope scope)
        Pass.within scope body) o
      (do
        let scope ← Pass.newScope name
        Pass.put node (.scope scope)
        Pass.within scope body) t := by
  let made (u : Tables) : Tables := { u with symbols := u.symbols.push ⟨name, []⟩ }
  let rest (scope : ScopeId) : Pass Unit := do
    Pass.put node (.scope scope)
    Pass.within scope body
  have hrun (u : Tables) : (do
        let scope ← Pass.newScope name
        Pass.put node (.scope scope)
        Pass.within scope body : Pass Unit) u = rest u.symbols.scopes.size (made u) := rfl
  have hmade : Behind ids base own others (made o) (made t) := h.push ⟨name, []⟩
  have hsize (u : Tables) : u.symbols.scopes.size < (made u).symbols.scopes.size := by
    simp [made, Symbols.push]
  -- The write may be a second one; that there is a scope to enter is needed only past it.
  have hput : Alike (fun o' t' => Behind ids base own others o' t' ∧
        o.symbols.scopes.size < o'.symbols.scopes.size)
      (Pass.put node (.scope o.symbols.scopes.size)) (made o)
      (Pass.put node (.scope t.symbols.scopes.size)) (made t) := by
    have hlimit : ∀ id, Fact.scope o.symbols.scopes.size = .scope id →
        id < (made o).symbols.scopes.size := by
      rintro id hid
      cases hid
      exact hsize o
    obtain ⟨hresult, htally⟩ := hmade.tally.put hnode hlimit
    have hfact : (Fact.scope o.symbols.scopes.size).shift base = .scope t.symbols.scopes.size :=
      congrArg Fact.scope h.size.symm
    rw [hfact] at hresult htally
    have hown := Pass.symbols_after_put node (.scope o.symbols.scopes.size) (made o)
    have hothers := Pass.symbols_after_put node (.scope t.symbols.scopes.size) (made t)
    refine ⟨hresult, ⟨⟨?_, ?_⟩, ?_⟩, ?_⟩
    · rw [hown, hothers]
      exact hmade.symbols
    · rw [hown]
      exact htally
    · rw [hown, hothers]
      exact hmade.size
    · rw [hown]
      exact hsize o
  refine .congr (hrun o) (hrun t) (hput.bind (fun _ o' t' h' => ?_) And.left)
  obtain ⟨hbehind, hid⟩ := h'
  have hid' := hbehind.symbols.lt_size hid
  rw [← h.size] at hid'
  refine .within hid hid' Behind.leave (hbody ?_)
  rw [h.size]
  exact ⟨hbehind.toBeside.activate hid, hbehind.size⟩

theorem registerFunctions_alike (h : Behind ids base own others o t) {fs : List Function}
    (hfs : ∀ f ∈ fs, f.id ∈ ids) :
    Alike (Behind ids base own others) (registerFunctions fs) o (registerFunctions fs) t := by
  induction fs generalizing o t with
  | nil => exact .of_ok (a := ()) rfl rfl h
  | cons f rest ih =>
      rw [List.forall_mem_cons] at hfs
      obtain ⟨hf, hrest⟩ := hfs
      have hfunction : Alike (Behind ids base own others) (registerFunction f) o
          (registerFunction f) t := by
        refine (registerName_alike h f.name _).bind (fun _ _ _ h' => ?_) id
        exact opening_alike h' hf fun h'' => registerNames_alike h'' f.decls
      rw [registerFunctions]
      exact hfunction.bind (fun _ _ _ h' => ih h' hrest) id

theorem registerProgram_alike (h : Behind ids base own others o t) {p : Program}
    (hids : p.ids ⊆ ids) :
    Alike (Behind ids base own others) (registerProgram p) o (registerProgram p) t := by
  refine opening_alike h (hids List.mem_cons_self) fun h' => registerFunctions_alike h' ?_
  exact fun f hf => hids (Program.id_mem_ids hf)

/-- Any tables with no scope active stand behind the empty ones, as to nodes that they know
nothing of. -/
theorem behind_empty (hstack : t.symbols.stack = [])
    (hfresh : ∀ node ∈ ids, t.annotations.get? node = none) :
    Behind ids t.symbols.scopes.size [] t.diagnostics.toList {} t := by
  refine ⟨⟨⟨hstack, by simp, by simp⟩, ⟨fun node _ id hid => ?_, fun node hnode => ?_, ?_⟩⟩, rfl⟩
  · simp [Annotations.scope?, Annotations.get?_empty node] at hid
  · rw [hfresh node hnode, Annotations.get?_empty node, Option.map_none]
  · exact ⟨[], rfl, (List.append_nil _).symm⟩

theorem analysis_alike {c : Config} {p : Program} (hstack : t.symbols.stack = [])
    (hfresh : ∀ node ∈ p.ids, t.annotations.get? node = none) :
    Alike (Beside p.ids t.symbols.scopes.size [] t.diagnostics.toList) (analysis c p) {}
      (analysis c p) t := by
  have hsubset := List.Subset.refl p.ids
  refine (registerProgram_alike (behind_empty hstack hfresh) hsubset).bind
    (fun _ _ _ h' => ?_) Behind.toBeside
  exact checkProgram_alike h'.toBeside c hsubset

end

end Asl
