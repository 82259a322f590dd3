import Asl.Proofs.Keeps
import Asl.Proofs.Replay
import Mathlib.Data.Finset.Card
import Mathlib.Data.List.Induction

/-!
# The first write of a fact stands

Writes of facts are told here as a log of calls. Whatever the calls are and in whatever order they
come, the annotations hold what the first call for a node and a field has put there, and the record
of a node exists once there has been a call for it. A call is refused if and only if an earlier one
has written, and then leaves the tables as they are. The same is true of a write that opens a record
before it looks whether it may set the field, since a record that it opens has no field to refuse.
-/

namespace Asl

namespace Annotation

/-- What a record says in a field. -/
def fact? (r : Annotation) : Field → Option Fact
  | .scope => r.scope.map .scope
  | .type => r.type.map .type
  | .lvalue => r.lvalue.map .lvalue

@[simp]
theorem fact?_empty (field : Field) : ({} : Annotation).fact? field = none := by
  cases field <;> rfl

theorem has_eq_isSome (r : Annotation) (field : Field) : r.has field = (r.fact? field).isSome := by
  cases field <;> simp [has, fact?]

theorem fact?_learn (r : Annotation) (fact : Fact) (field : Field) :
    (r.learn fact).fact? field = if fact.field = field then some fact else r.fact? field := by
  cases fact <;> cases field <;> rfl

theorem learn_ne_empty (r : Annotation) (fact : Fact) : r.learn fact ≠ {} := by
  intro h
  have hfact := r.fact?_learn fact fact.field
  simp [h] at hfact

end Annotation

namespace Annotations

/-- What is known in a field of a node. -/
def fact? (a : Annotations) (node : NodeId) : Field → Option Fact
  | .scope => (a.scope? node).map .scope
  | .type => (a.type? node).map .type
  | .lvalue => (a.lvalue? node).map .lvalue

theorem fact?_eq_bind (a : Annotations) (node : NodeId) (field : Field) :
    a.fact? node field = (a.get? node).bind (·.fact? field) := by
  cases field <;> simp [fact?, scope?, type?, lvalue?, Annotation.fact?, Option.map_bind]

theorem knows_eq_isSome (a : Annotations) (node : NodeId) (field : Field) :
    a.knows (node, field) = (a.fact? node field).isSome := by
  rw [knows, fact?_eq_bind, Annotation.has_eq_isSome]
  cases a.get? node <;> simp

/-- One fact more is known, of a node that is new or not. -/
structure Learns (a b : Annotations) (node : NodeId) (fact : Fact) : Prop where
  get : ∀ other, b.get? other =
    if node = other then some (((a.get? node).getD {}).learn fact) else a.get? other
  size : b.size = if (a.get? node).isSome then a.size else a.size + 1

theorem Learns.fact?_eq {a b : Annotations} {node : NodeId} {fact : Fact}
    (h : a.Learns b node fact) (other : NodeId) (field : Field) :
    b.fact? other field =
      if (node, fact.field) = (other, field) then some fact else a.fact? other field := by
  rw [fact?_eq_bind, fact?_eq_bind, h.get]
  by_cases hother : node = other
  · subst hother
    rw [if_pos rfl, Option.bind_some, Annotation.fact?_learn]
    cases a.get? node <;> simp
  · simp [hother]

theorem contains_eq_isSome (a : Annotations) (node : NodeId) :
    a.records.contains node = (a.get? node).isSome := by
  simp [get?]

theorem learns_of_put {a b : Annotations} {node : NodeId} {fact : Fact}
    (h : a.put node fact = .ok b) : a.Learns b node fact := by
  refine ⟨get?_of_put h, ?_⟩
  cases hknown : ((a.get? node).getD {}).has fact.field with
  | true => simp [put_eq_error hknown] at h
  | false =>
      rw [put_eq_ok hknown, Except.ok.injEq] at h
      rw [← h, ← contains_eq_isSome]
      exact Std.TreeMap.size_insert

/-- The record of a node is opened, without a fact in it, where there is none. -/
def opened (a : Annotations) (node : NodeId) : Annotations := ⟨a.records.insertIfNew node {}⟩

/-- A fact is set in the record of a node that has one. -/
def amended (a : Annotations) (node : NodeId) (fact : Fact) : Annotations :=
  ⟨a.records.modify node (·.learn fact)⟩

theorem opened_eq_self {a : Annotations} {node : NodeId} (h : (a.get? node).isSome) :
    a.opened node = a := by
  have hcontains : a.records.contains node := (a.contains_eq_isSome node).trans h
  -- look-ups do not tell trees apart, so the tree itself is opened to see that it stays the same
  obtain ⟨⟨⟨tree, hwf⟩⟩⟩ := a
  have htree : tree.contains node = true := hcontains
  simp only [opened, Std.TreeMap.insertIfNew, Std.DTreeMap.insertIfNew,
    Std.DTreeMap.Internal.Impl.insertIfNew, htree, ↓reduceIte]

theorem get?_opened (a : Annotations) (node other : NodeId) :
    (a.opened node).get? other =
      if node = other then some ((a.get? node).getD {}) else a.get? other := by
  simp only [opened, get?, Std.TreeMap.getElem?_insertIfNew, Nat.compare_eq_eq]
  by_cases hother : node = other
  · subst hother
    by_cases hnode : node ∈ a.records <;> simp [hnode]
  · simp [hother]

theorem learns_amended_opened (a : Annotations) (node : NodeId) (fact : Fact) :
    a.Learns ((a.opened node).amended node fact) node fact := by
  constructor
  · intro other
    have hopened := a.get?_opened node
    simp only [get?] at hopened
    simp only [amended, get?, Std.TreeMap.getElem?_modify, Nat.compare_eq_eq, hopened, if_true]
    by_cases hother : node = other <;> simp [hother]
  · rw [← contains_eq_isSome]
    simp only [amended, size, Std.TreeMap.size_modify, opened, Std.TreeMap.size_insertIfNew,
      Std.TreeMap.contains_iff_mem]

end Annotations

/-- A call that is to write a fact about a node. -/
structure Writing where
  node : NodeId
  fact : Fact

def Writing.key (w : Writing) : Key := w.fact.key w.node

/-- The fact in the first call for a node and a field. -/
def first? (log : List Writing) (key : Key) : Option Fact :=
  (log.find? fun w => w.key = key).map Writing.fact

/-- The annotations are what a log of calls leaves of empty ones. -/
structure Annotations.Records (a : Annotations) (log : List Writing) : Prop where
  first : ∀ node field, a.fact? node field = first? log (node, field)
  known : ∀ node, (a.get? node).isSome ↔ node ∈ log.map Writing.node
  filled : ∀ node record, a.get? node = some record → record ≠ {}
  size : a.size = (log.map Writing.node).toFinset.card

theorem first?_concat (log : List Writing) (w : Writing) (key : Key) :
    first? (log ++ [w]) key = (first? log key).or (if w.key = key then some w.fact else none) := by
  rw [first?, first?, List.find?_append, Option.map_or, List.find?_singleton]
  by_cases hw : w.key = key <;> simp [hw]

theorem isSome_first?_iff {log : List Writing} {key : Key} :
    (first? log key).isSome ↔ key ∈ log.map Writing.key := by
  simp [first?]

namespace Annotations.Records

variable {a b : Annotations} {log : List Writing} {w : Writing}

theorem empty : Records {} [] where
  first node field := by cases field <;> rfl
  known node := by simp [get?]
  filled node record h := by simp [get?] at h
  size := rfl

theorem knows_iff (h : a.Records log) {key : Key} :
    a.knows key = true ↔ key ∈ log.map Writing.key := by
  obtain ⟨node, field⟩ := key
  rw [knows_eq_isSome, h.first, isSome_first?_iff]

theorem learns (h : a.Records log) (hnew : a.knows w.key = false) (hb : a.Learns b w.node w.fact) :
    b.Records (log ++ [w]) := by
  constructor
  · intro node field
    have hfact : b.fact? node field =
        if w.key = (node, field) then some w.fact else a.fact? node field := hb.fact?_eq node field
    rw [hfact, first?_concat, ← h.first]
    by_cases hkey : w.key = (node, field)
    · have hnone : a.fact? node field = none := by
        rwa [hkey, knows_eq_isSome, Option.isSome_eq_false_iff, Option.isNone_iff_eq_none] at hnew
      rw [if_pos hkey, if_pos hkey, hnone, Option.none_or]
    · rw [if_neg hkey, if_neg hkey, Option.or_none]
  · intro node
    rw [hb.get, List.map_append, List.mem_append, ← h.known]
    by_cases hnode : w.node = node
    · simp [hnode]
    · simp [hnode, Ne.symm hnode]
  · intro node record hrecord
    rw [hb.get] at hrecord
    by_cases hnode : w.node = node
    · rw [if_pos hnode, Option.some.injEq] at hrecord
      exact hrecord ▸ Annotation.learn_ne_empty _ _
    · rw [if_neg hnode] at hrecord
      exact h.filled node record hrecord
  · have hnodes : ((log ++ [w]).map Writing.node).toFinset =
        insert w.node (log.map Writing.node).toFinset := by
      ext node
      simp
    rw [hb.size, hnodes, Finset.card_insert_eq_ite, h.size]
    simp only [h.known, List.mem_toFinset]

/-- A call that comes second changes nothing. -/
theorem again (h : a.Records log) (hknown : a.knows w.key = true) : a.Records (log ++ [w]) := by
  have hmem : w.key ∈ log.map Writing.key := h.knows_iff.1 hknown
  have hnode : w.node ∈ log.map Writing.node := by
    obtain ⟨v, hv, hkey⟩ := List.mem_map.1 hmem
    exact List.mem_map.2 ⟨v, hv, congrArg Prod.fst hkey⟩
  have hnodes : ((log ++ [w]).map Writing.node).toFinset = (log.map Writing.node).toFinset := by
    ext node
    simp only [List.map_append, List.mem_toFinset, List.mem_append, List.map_cons, List.map_nil,
      List.mem_singleton]
    exact or_iff_left_of_imp fun h => h ▸ hnode
  refine ⟨fun node field => ?_, fun node => ?_, h.filled, by rw [hnodes, h.size]⟩
  · rw [h.first, first?_concat]
    by_cases hkey : w.key = (node, field)
    · obtain ⟨fact, hfact⟩ := Option.isSome_iff_exists.1 (isSome_first?_iff.2 (hkey ▸ hmem))
      rw [hfact, Option.some_or]
    · rw [if_neg hkey, Option.or_none]
  · rw [h.known, ← List.mem_toFinset, ← hnodes, List.mem_toFinset]

end Annotations.Records

namespace Pass

/-- A fact is put into a record that is there by then, unless its field is set. -/
def putInPlace (node : NodeId) (fact : Fact) : Pass Unit := fun t =>
  if (t.annotations.opened node).knows (fact.key node) then
    .error (.rewritten node fact.field) { t with annotations := t.annotations.opened node }
  else .ok () { t with annotations := (t.annotations.opened node).amended node fact }

/-- A pass that sets what is not known, and is refused what is. -/
structure WritesOnce (put : NodeId → Fact → Pass Unit) : Prop where
  known : ∀ {node fact t}, t.annotations.knows (fact.key node) = true →
    put node fact t = .error (.rewritten node fact.field) t
  new : ∀ {node fact t}, t.annotations.knows (fact.key node) = false →
    ∃ u, put node fact t = .ok () u ∧ t.annotations.Learns u.annotations node fact

theorem put_writesOnce : WritesOnce put where
  known h := by rw [put, Annotations.put_of_knows h]
  new h := by
    obtain ⟨b, hput, -⟩ := Annotations.put_of_not_knows h
    exact ⟨_, by rw [put, hput], Annotations.learns_of_put hput⟩

theorem putInPlace_writesOnce : WritesOnce putInPlace where
  known {node fact t} h := by
    have hnode : (t.annotations.get? node).isSome := by
      rw [Fact.key, Annotations.knows_eq_isSome, Annotations.fact?_eq_bind] at h
      exact Option.isSome_of_isSome_bind h
    rw [putInPlace, Annotations.opened_eq_self hnode, if_pos h]
  new {node fact t} h := by
    have hopened : (t.annotations.opened node).knows (fact.key node) = false := by
      simpa [Annotations.knows, Annotations.get?_opened, Fact.key] using h
    refine ⟨{ t with annotations := (t.annotations.opened node).amended node fact }, ?_, ?_⟩
    · rw [putInPlace, hopened]
      rfl
    · exact Annotations.learns_amended_opened t.annotations node fact

/-- The tables after the calls of a log, each made on what the one before has left. -/
def afterAll (put : NodeId → Fact → Pass Unit) (log : List Writing) : Tables :=
  log.foldl (fun t w => (put w.node w.fact).after t) {}

/-- A call of the log for a node and a field has written, on what the calls before it left. -/
def Wrote (put : NodeId → Fact → Pass Unit) (log : List Writing) (key : Key) : Prop :=
  ∃ earlier w later, log = earlier ++ w :: later ∧ w.key = key ∧
    ∃ u, put w.node w.fact (afterAll put earlier) = .ok () u

section

variable {put : NodeId → Fact → Pass Unit} (hput : WritesOnce put)

theorem afterAll_concat (put : NodeId → Fact → Pass Unit) (log : List Writing) (w : Writing) :
    afterAll put (log ++ [w]) = (put w.node w.fact).after (afterAll put log) := by
  simp [afterAll]

include hput

/-- Each call keeps the annotations in step with the log, whether it writes or is refused. -/
theorem records_afterAll (log : List Writing) : (afterAll put log).annotations.Records log := by
  induction log using List.reverseRecOn with
  | nil => exact .empty
  | append_singleton log w ih =>
      rw [afterAll_concat]
      cases hknown : (afterAll put log).annotations.knows w.key with
      | true =>
          rw [after_of_error (hput.known hknown)]
          exact ih.again hknown
      | false =>
          obtain ⟨u, hu, hlearns⟩ := hput.new hknown
          rw [after_of_ok hu]
          exact ih.learns hknown hlearns

/-- What is known has been written by a call. -/
theorem wrote_iff (log : List Writing) (key : Key) :
    Wrote put log key ↔ (afterAll put log).annotations.knows key = true := by
  rw [(records_afterAll hput log).knows_iff]
  constructor
  · rintro ⟨earlier, w, later, rfl, rfl, -⟩
    simp
  · intro hmem
    induction log using List.reverseRecOn with
    | nil => simp at hmem
    | append_singleton log w ih =>
        cases hknown : (afterAll put log).annotations.knows key with
        | true =>
            obtain ⟨earlier, v, later, hlog, hwrote⟩ :=
              ih ((records_afterAll hput log).knows_iff.1 hknown)
            exact ⟨earlier, v, later ++ [w], by simp [hlog], hwrote⟩
        | false =>
            have hold : key ∉ log.map Writing.key := fun hold => by
              simp [(records_afterAll hput log).knows_iff.2 hold] at hknown
            obtain rfl : key = w.key := by simpa [hold] using hmem
            obtain ⟨u, hu, -⟩ := hput.new hknown
            exact ⟨log, w, [], rfl, rfl, u, hu⟩

end

end Pass

/-- Each call of a log is refused if an earlier one has written, and then leaves the tables as they
were, and else it is accepted. At the end the first calls stand. -/
structure FirstWritesStand (put : NodeId → Fact → Pass Unit) (log : List Writing) : Prop where
  refused : ∀ earlier w later, log = earlier ++ w :: later →
    (put w.node w.fact (Pass.afterAll put earlier) =
        .error (.rewritten w.node w.fact.field) (Pass.afterAll put earlier) ↔
      Pass.Wrote put earlier w.key)
  accepted : ∀ earlier w later, log = earlier ++ w :: later →
    ((∃ u, put w.node w.fact (Pass.afterAll put earlier) = .ok () u) ↔
      ¬Pass.Wrote put earlier w.key)
  stand : (Pass.afterAll put log).annotations.Records log

theorem Pass.WritesOnce.firstWritesStand {put : NodeId → Fact → Pass Unit}
    (hput : WritesOnce put) (log : List Writing) : FirstWritesStand put log := by
  have hcall (earlier : List Writing) (w : Writing) :
      (Wrote put earlier w.key ∧ put w.node w.fact (afterAll put earlier) =
        .error (.rewritten w.node w.fact.field) (afterAll put earlier)) ∨
      (¬Wrote put earlier w.key ∧ ∃ u, put w.node w.fact (afterAll put earlier) = .ok () u) := by
    rw [wrote_iff hput]
    cases hknown : (afterAll put earlier).annotations.knows w.key with
    | true => exact .inl ⟨rfl, hput.known hknown⟩
    | false =>
        obtain ⟨u, hu, -⟩ := hput.new hknown
        exact .inr ⟨Bool.false_ne_true, u, hu⟩
  refine ⟨fun earlier w _ _ => ?_, fun earlier w _ _ => ?_, records_afterAll hput log⟩
  · obtain ⟨hwrote, herror⟩ | ⟨hwrote, u, hok⟩ := hcall earlier w
    · exact iff_of_true herror hwrote
    · exact iff_of_false (by simp [hok]) hwrote
  · obtain ⟨hwrote, herror⟩ | ⟨hwrote, u, hok⟩ := hcall earlier w
    · exact iff_of_false (by simp [herror]) (not_not_intro hwrote)
    · exact iff_of_true ⟨u, hok⟩ hwrote

/-- Facts that are put one after the other into empty annotations, in the way of the passes or
in place. -/
theorem first_writes_stand (log : List Writing) :
    FirstWritesStand Pass.put log ∧ FirstWritesStand Pass.putInPlace log :=
  ⟨Pass.put_writesOnce.firstWritesStand log, Pass.putInPlace_writesOnce.firstWritesStand log⟩

end Asl
