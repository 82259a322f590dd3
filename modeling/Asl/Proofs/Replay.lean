import Asl.Pass
import Asl.Proofs.Reading
import Mathlib.Data.List.Nodup

/-!
# Replaying a reading

A reading is put into effect one event at a time. The facts must be new: the first that
is known already, from the tables or from earlier in the reading, is the fault at which
the replay ends. A replay to the end adds the facts and the complaints and leaves the
symbols alone.
-/

namespace Asl

section Repeats

variable {α β : Type} [DecidableEq α] [DecidableEq β]

/-- The first element that has been seen, before the list or earlier in it. -/
def firstRepeat (seen : α → Bool) : List α → Option α
  | [] => none
  | x :: rest => if seen x then some x else firstRepeat (fun y => decide (y = x) || seen y) rest

/-- The first element that equals an earlier one. -/
def FirstRepeat (xs : List α) (x : α) : Prop :=
  ∃ before after, xs = before ++ x :: after ∧ before.Nodup ∧ x ∈ before

theorem firstRepeat_eq_none_iff {seen : α → Bool} {xs : List α} :
    firstRepeat seen xs = none ↔ xs.Nodup ∧ ∀ x ∈ xs, seen x = false := by
  induction xs generalizing seen with
  | nil => simp [firstRepeat]
  | cons x rest ih =>
      cases hx : seen x with
      | true => simp [firstRepeat, hx]
      | false =>
          simp only [firstRepeat, hx, Bool.false_eq_true, ↓reduceIte, ih, List.nodup_cons,
            Bool.or_eq_false_iff, decide_eq_false_iff_not, List.forall_mem_cons, true_and]
          constructor
          · rintro ⟨hnodup, hseen⟩
            exact ⟨⟨fun hmem => (hseen x hmem).1 rfl, hnodup⟩, fun y hy => (hseen y hy).2⟩
          · rintro ⟨⟨hmem, hnodup⟩, hseen⟩
            exact ⟨hnodup, fun y hy => ⟨fun hyx => hmem (hyx ▸ hy), hseen y hy⟩⟩

theorem firstRepeat_eq_some_iff {seen : α → Bool} {xs : List α} {x : α} :
    firstRepeat seen xs = some x ↔
      ∃ before after, xs = before ++ x :: after ∧ before.Nodup ∧
        (∀ y ∈ before, seen y = false) ∧ (x ∈ before ∨ seen x = true) := by
  induction xs generalizing seen with
  | nil => simp [firstRepeat]
  | cons z rest ih =>
      cases hz : seen z with
      | true =>
          simp only [firstRepeat, hz, ↓reduceIte, Option.some.injEq]
          constructor
          · rintro rfl
            exact ⟨[], rest, rfl, .nil, by simp, .inr hz⟩
          · rintro ⟨before, after, hsplit, -, hfresh, -⟩
            cases before with
            | nil => exact (List.cons.inj hsplit).1
            | cons y before =>
                obtain ⟨rfl, -⟩ := List.cons.inj hsplit
                simp [hfresh z (by simp)] at hz
      | false =>
          simp only [firstRepeat, hz, Bool.false_eq_true, ↓reduceIte, ih, Bool.or_eq_false_iff,
            decide_eq_false_iff_not, Bool.or_eq_true, decide_eq_true_eq]
          constructor
          · rintro ⟨before, after, rfl, hnodup, hfresh, hx⟩
            refine ⟨z :: before, after, rfl, ?_, ?_, ?_⟩
            · exact List.nodup_cons.mpr ⟨fun hmem => (hfresh z hmem).1 rfl, hnodup⟩
            · simpa [hz] using fun y hy => (hfresh y hy).2
            · rcases hx with hx | rfl | hx
              · exact .inl (List.mem_cons_of_mem z hx)
              · exact .inl List.mem_cons_self
              · exact .inr hx
          · rintro ⟨before, after, hsplit, hnodup, hfresh, hx⟩
            cases before with
            | nil =>
                obtain ⟨rfl, -⟩ := List.cons.inj hsplit
                simp [hz] at hx
            | cons y before =>
                obtain ⟨rfl, hrest⟩ := List.cons.inj hsplit
                obtain ⟨hmem, hnodup⟩ := List.nodup_cons.mp hnodup
                refine ⟨before, after, hrest, hnodup, fun y hy => ⟨?_, hfresh y (by simp [hy])⟩, ?_⟩
                · exact fun hyz => hmem (hyz ▸ hy)
                · rcases hx with hx | hx
                  · exact (List.mem_cons.mp hx).elim (fun h => .inr (.inl h)) .inl
                  · exact .inr (.inr hx)

theorem firstRepeat_eq_some_iff_firstRepeat {xs : List α} {x : α} :
    firstRepeat (fun _ => false) xs = some x ↔ FirstRepeat xs x := by
  simp [firstRepeat_eq_some_iff, FirstRepeat]

theorem exists_firstRepeat_iff {xs : List α} : (∃ x, FirstRepeat xs x) ↔ ¬xs.Nodup := by
  have hnodup : xs.Nodup ↔ firstRepeat (fun _ => false) xs = none := by
    simp [firstRepeat_eq_none_iff]
  simp only [hnodup, ← firstRepeat_eq_some_iff_firstRepeat, Option.ne_none_iff_exists']

theorem firstRepeat_append (seen : α → Bool) (xs ys : List α) :
    firstRepeat seen (xs ++ ys) =
      (firstRepeat seen xs).or (firstRepeat (fun y => decide (y ∈ xs) || seen y) ys) := by
  induction xs generalizing seen with
  | nil => simp [firstRepeat]
  | cons x rest ih =>
      cases hx : seen x with
      | true => simp [firstRepeat, hx]
      | false =>
          have hseen : (fun y => decide (y ∈ x :: rest) || seen y) =
              fun y => decide (y ∈ rest) || (decide (y = x) || seen y) := by
            funext y
            by_cases hy : y = x <;> simp [hy]
          simp only [List.cons_append, firstRepeat, hx, Bool.false_eq_true, ↓reduceIte, ih, hseen]

/-- Marking all elements alike makes and hides no repeat. -/
theorem firstRepeat_map {mark : α → β} (hmark : mark.Injective) (seen : β → Bool)
    (xs : List α) :
    firstRepeat seen (xs.map mark) = (firstRepeat (seen ∘ mark) xs).map mark := by
  induction xs generalizing seen with
  | nil => rfl
  | cons x rest ih =>
      cases hx : seen (mark x) with
      | true => simp [firstRepeat, hx]
      | false =>
          have hseen : (fun y => decide (y = mark x) || seen y) ∘ mark =
              fun y => decide (y = x) || (seen ∘ mark) y := by
            funext y
            simp [hmark.eq_iff]
          simp [firstRepeat, hx, ih, hseen]

end Repeats

/-- A fact about a node, without what it says. -/
abbrev Key := NodeId × Field

def Fact.key (node : NodeId) (fact : Fact) : Key := (node, fact.field)

namespace Annotations

def Holds (a : Annotations) (node : NodeId) : Fact → Prop
  | .scope id => a.scope? node = some id
  | .type type => a.type? node = some type
  | .lvalue lvalue => a.lvalue? node = some lvalue

def knows (a : Annotations) (key : Key) : Bool := ((a.get? key.1).getD {}).has key.2

theorem knows_iff_holds {a : Annotations} {node : NodeId} {field : Field} :
    a.knows (node, field) = true ↔ ∃ fact : Fact, fact.field = field ∧ a.Holds node fact := by
  unfold knows
  constructor
  · intro h
    cases hget : a.get? node with
    | none => cases field <;> simp [hget, Annotation.has] at h
    | some known =>
        cases field <;>
          simp only [hget, Option.getD_some, Annotation.has, Option.isSome_iff_exists] at h
        · obtain ⟨id, hid⟩ := h
          exact ⟨.scope id, rfl, by simp [Holds, scope?, hget, hid]⟩
        · obtain ⟨type, htype⟩ := h
          exact ⟨.type type, rfl, by simp [Holds, type?, hget, htype]⟩
        · obtain ⟨lvalue, hlvalue⟩ := h
          exact ⟨.lvalue lvalue, rfl, by simp [Holds, lvalue?, hget, hlvalue]⟩
  · rintro ⟨fact, rfl, hfact⟩
    cases hget : a.get? node with
    | none => cases fact <;> simp [Holds, scope?, type?, lvalue?, hget] at hfact
    | some known =>
        cases fact <;> simp_all [Holds, scope?, type?, lvalue?, Annotation.has, Fact.field]

/-- No record says nothing. -/
def NoBlank (a : Annotations) : Prop :=
  ∀ node, (a.get? node).isSome → ∃ field, a.knows (node, field) = true

theorem put_of_knows {a : Annotations} {node : NodeId} {fact : Fact}
    (h : a.knows (fact.key node) = true) : a.put node fact = .error (.rewritten node fact.field) :=
  put_eq_error h

/-- A new fact is added to those that hold. -/
theorem put_of_not_knows {a : Annotations} {node : NodeId} {fact : Fact}
    (h : a.knows (fact.key node) = false) :
    ∃ b, a.put node fact = .ok b ∧
      ∀ other found, b.Holds other found ↔ a.Holds other found ∨ node = other ∧ fact = found := by
  obtain ⟨b, hput⟩ : ∃ b, a.put node fact = .ok b := ⟨_, put_eq_ok h⟩
  refine ⟨b, hput, fun other found => ?_⟩
  have hget := get?_of_put hput other
  by_cases hnode : node = other
  · subst hnode
    rw [if_pos rfl] at hget
    simp only [knows, Fact.key] at h
    cases hold : a.get? node <;> cases fact <;> cases found <;>
      simp_all [Holds, scope?, type?, lvalue?, Annotation.has, Annotation.learn, Fact.field]
  · rw [if_neg hnode] at hget
    cases found <;> simp [Holds, scope?, type?, lvalue?, hget, hnode]

theorem knows_of_put {a b : Annotations} {node : NodeId} {fact : Fact}
    (h : a.put node fact = .ok b) (key : Key) :
    b.knows key = (decide (key = fact.key node) || a.knows key) := by
  have hget := get?_of_put h key.1
  obtain ⟨other, field⟩ := key
  by_cases hnode : node = other
  · subst hnode
    rw [if_pos rfl] at hget
    cases fact <;> cases field <;>
      simp [knows, hget, Annotation.has, Annotation.learn, Fact.key, Fact.field]
  · rw [if_neg hnode] at hget
    simp [knows, hget, Fact.key, Ne.symm hnode]

theorem NoBlank.put {a b : Annotations} {node : NodeId} {fact : Fact} (ha : a.NoBlank)
    (h : a.put node fact = .ok b) : b.NoBlank := by
  intro other hother
  by_cases hnode : node = other
  · subst hnode
    exact ⟨fact.field, by simp [knows_of_put h, Fact.key]⟩
  · rw [get?_of_put h other, if_neg hnode] at hother
    obtain ⟨field, hfield⟩ := ha other hother
    exact ⟨field, by simp [knows_of_put h, hfield]⟩

end Annotations

def Tables.withSymbols (t : Tables) (symbols : Symbols) : Tables := { t with symbols }

@[simp] theorem Tables.symbols_withSymbols (t : Tables) (s : Symbols) :
    (t.withSymbols s).symbols = s := rfl

@[simp] theorem Tables.withSymbols_withSymbols (t : Tables) (s s' : Symbols) :
    (t.withSymbols s).withSymbols s' = t.withSymbols s' := rfl

def Event.run : Event → Pass Unit
  | write node fact => Pass.put node fact
  | report d => Pass.report [d]

namespace Reading

def replay : Reading → Pass Unit
  | [] => return
  | e :: es => do
      e.run
      replay es

def keys (es : Reading) : List Key := es.facts.map fun (node, fact) => fact.key node

@[simp] theorem keys_write (node : NodeId) (fact : Fact) (es : Reading) :
    keys (.write node fact :: es) = fact.key node :: keys es := rfl

@[simp] theorem keys_append (es fs : Reading) : keys (es ++ fs) = keys es ++ keys fs := by
  simp [keys]

@[simp] theorem keys_reports (ds : List Diagnostic) : keys (reports ds) = [] := by
  simp [keys]

theorem mem_keys_iff {es : Reading} {node : NodeId} {field : Field} :
    (node, field) ∈ es.keys ↔ ∃ fact : Fact, fact.field = field ∧ (node, fact) ∈ es.facts := by
  rw [keys, List.mem_map]
  constructor
  · rintro ⟨⟨other, fact⟩, hmem, hkey⟩
    obtain ⟨rfl, rfl⟩ := Prod.mk.inj hkey
    exact ⟨fact, rfl, hmem⟩
  · rintro ⟨fact, rfl, hmem⟩
    exact ⟨(node, fact), hmem, rfl⟩

theorem replay_append (es fs : Reading) :
    replay (es ++ fs) = (do replay es; replay fs) := by
  induction es with
  | nil => rfl
  | cons e es ih => simp only [List.cons_append, replay, ih, bind_assoc]

theorem replay_append_eq_ok {es fs : Reading} {t u : Tables}
    (h : replay (es ++ fs) t = .ok () u) :
    ∃ v, replay es t = .ok () v ∧ replay fs v = .ok () u := by
  rw [replay_append] at h
  simp only [bind, EStateM.bind] at h
  cases hes : replay es t with
  | ok _ v => exact ⟨v, rfl, by simpa [hes] using h⟩
  | error fault v =>
      rw [hes] at h
      cases h

theorem replay_report (d : Diagnostic) (es : Reading) (t : Tables) :
    replay (.report d :: es) t = replay es (t.report [d]) := rfl

theorem replay_write_of_ok {t : Tables} {node : NodeId} {fact : Fact} {b : Annotations}
    (h : t.annotations.put node fact = .ok b) (es : Reading) :
    replay (.write node fact :: es) t = replay es { t with annotations := b } := by
  simp [replay, Event.run, Pass.put, bind, EStateM.bind, h]

theorem replay_write_of_error {t : Tables} {node : NodeId} {fact : Fact} {fault : Fault}
    (h : t.annotations.put node fact = .error fault) (es : Reading) :
    replay (.write node fact :: es) t = .error fault t := by
  simp [replay, Event.run, Pass.put, bind, EStateM.bind, h]

theorem replay_reports (ds : List Diagnostic) (t : Tables) :
    replay (reports ds) t = .ok () (t.report ds) := by
  induction ds generalizing t with
  | nil => simp [reports, replay, Tables.report, Diagnostics.append, pure, EStateM.pure]
  | cons d ds ih =>
      have hreport : (t.report [d]).report ds = t.report (d :: ds) := by
        simp [Tables.report, Diagnostics.append]
      exact (ih (t.report [d])).trans (congrArg _ hreport)

/-- A replay ends at the first fact that is not new, or else comes to its end. -/
theorem replay_cases (es : Reading) (t : Tables) :
    (firstRepeat t.annotations.knows es.keys = none ∧ ∃ u, replay es t = .ok () u) ∨
      ∃ key, firstRepeat t.annotations.knows es.keys = some key ∧
        ∃ u, replay es t = .error (.rewritten key.1 key.2) u := by
  induction es generalizing t with
  | nil => exact .inl ⟨rfl, t, rfl⟩
  | cons e es ih =>
      cases e with
      | report d => exact ih (t.report [d])
      | write node fact =>
          cases hknown : t.annotations.knows (fact.key node) with
          | true =>
              have hput := Annotations.put_of_knows hknown
              refine .inr ⟨fact.key node, ?_, t, replay_write_of_error hput es⟩
              simp [firstRepeat, hknown]
          | false =>
              obtain ⟨b, hput, -⟩ := Annotations.put_of_not_knows hknown
              have hknows : b.knows = fun key =>
                  decide (key = fact.key node) || t.annotations.knows key :=
                funext (Annotations.knows_of_put hput)
              have hrest := ih { t with annotations := b }
              simp only [hknows] at hrest
              simpa [firstRepeat, hknown, replay_write_of_ok hput] using hrest

/-- A fault is met at a fact that is known, after a replay of all that comes before it. -/
theorem exists_split_of_replay_eq_error {es : Reading} {t u : Tables} {fault : Fault}
    (h : replay es t = .error fault u) :
    ∃ before node fact after, es = before ++ .write node fact :: after ∧
      replay before t = .ok () u ∧ u.annotations.knows (fact.key node) = true ∧
        fault = .rewritten node fact.field := by
  induction es generalizing t with
  | nil => cases h
  | cons e es ih =>
      cases e with
      | report d =>
          obtain ⟨before, node, fact, after, rfl, hbefore, hknown⟩ := ih (replay_report d es t ▸ h)
          exact ⟨.report d :: before, node, fact, after, rfl, hbefore, hknown⟩
      | write node fact =>
          cases hknown : t.annotations.knows (fact.key node) with
          | true =>
              rw [replay_write_of_error (Annotations.put_of_knows hknown)] at h
              cases h
              exact ⟨[], node, fact, es, rfl, rfl, hknown, rfl⟩
          | false =>
              obtain ⟨b, hput, -⟩ := Annotations.put_of_not_knows hknown
              rw [replay_write_of_ok hput] at h
              obtain ⟨before, other, found, after, rfl, hbefore, hother⟩ := ih h
              refine ⟨.write node fact :: before, other, found, after, rfl, ?_, hother⟩
              exact (replay_write_of_ok hput before).trans hbefore

/-- What a replay that comes to its end has done to the tables. -/
structure Done (es : Reading) (t u : Tables) : Prop where
  symbols : u.symbols = t.symbols
  holds : ∀ node fact, u.annotations.Holds node fact ↔
    t.annotations.Holds node fact ∨ (node, fact) ∈ es.facts
  found : u.diagnostics.toList = t.diagnostics.toList ++ es.found
  noBlank : t.annotations.NoBlank → u.annotations.NoBlank

theorem done_of_replay {es : Reading} {t u : Tables} (h : replay es t = .ok () u) :
    Done es t u := by
  induction es generalizing t with
  | nil =>
      obtain rfl : t = u := by simpa [replay, pure, EStateM.pure] using h
      exact ⟨rfl, by simp, by simp, id⟩
  | cons e es ih =>
      cases e with
      | report d =>
          obtain ⟨hsymbols, hholds, hfound, hblank⟩ := ih (replay_report d es t ▸ h)
          exact ⟨hsymbols, hholds, by simpa [Tables.report] using hfound, hblank⟩
      | write node fact =>
          cases hknown : t.annotations.knows (fact.key node) with
          | true =>
              rw [replay_write_of_error (Annotations.put_of_knows hknown)] at h
              cases h
          | false =>
              obtain ⟨b, hput, hb⟩ := Annotations.put_of_not_knows hknown
              obtain ⟨hsymbols, hholds, hfound, hblank⟩ := ih (replay_write_of_ok hput es ▸ h)
              refine ⟨hsymbols, fun other found => ?_, hfound, fun ht => hblank (ht.put hput)⟩
              rw [hholds, hb, facts_write, List.mem_cons, Prod.mk.injEq]
              grind

/-- A replay to the end has made its own keys known. -/
theorem Done.knows_iff {es : Reading} {t u : Tables} (h : Done es t u) (key : Key) :
    u.annotations.knows key = true ↔ t.annotations.knows key = true ∨ key ∈ es.keys := by
  obtain ⟨node, field⟩ := key
  simp only [Annotations.knows_iff_holds, mem_keys_iff, h.holds, and_or_left, exists_or]

theorem replay_withSymbols (es : Reading) (t : Tables) (s : Symbols) :
    replay es (t.withSymbols s) =
      match replay es t with
      | .ok a u => .ok a (u.withSymbols s)
      | .error fault u => .error fault (u.withSymbols s) := by
  induction es generalizing t with
  | nil => rfl
  | cons e es ih =>
      cases e with
      | report d => exact ih (t.report [d])
      | write node fact =>
          cases hput : t.annotations.put node fact with
          | error fault =>
              have hput' : (t.withSymbols s).annotations.put node fact = .error fault := hput
              rw [replay_write_of_error hput, replay_write_of_error hput']
          | ok b =>
              have hput' : (t.withSymbols s).annotations.put node fact = .ok b := hput
              rw [replay_write_of_ok hput, replay_write_of_ok hput']
              exact ih { t with annotations := b }

end Reading

end Asl
