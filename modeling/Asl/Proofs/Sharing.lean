import Asl.Proofs.Lockstep
import Asl.Proofs.Outcome

/-!
# Sharing tables

Programs without a common node can be run on one set of tables, and their passes can take
turns in any order in which each program is registered before it is checked. What the
turns of one program show is what they show when it is alone on empty tables. For before
its registration the tables hold nothing about it; from then on they stand beside the
tables of the lone run, and what the other programs do in between does not change that.
-/

namespace Asl

open Pass (Alike Keeps)
open Tables (Beside Extends Overlooks)

/-- The scopes that there were, the stack and the records of the nodes are as before. -/
structure Tables.Spares (ids : List NodeId) (t u : Tables) : Prop
    extends Extends t.symbols.scopes.size t u where
  records : ∀ node ∈ ids, u.annotations.get? node = t.annotations.get? node

open Tables (Spares)

def Tables.SameRecords (nodes : NodeId → Prop) (t u : Tables) : Prop :=
  ∀ node, ¬nodes node → u.annotations.get? node = t.annotations.get? node

open Tables (SameRecords)

theorem sameRecords_overlooks (nodes : NodeId → Prop) : Overlooks nodes (SameRecords nodes) where
  refl _ _ _ := rfl
  trans h h' node hnode := (h' node hnode).trans (h node hnode)
  put node hnode fact t other hother := by
    cases hput : t.annotations.put node fact with
    | error fault => simp [Pass.after, Pass.put, hput]
    | ok annotations =>
        have hne : node ≠ other := by
          rintro rfl
          exact hother hnode
        simp [Pass.after, Pass.put, hput, Annotations.get?_of_put hput, hne]
  report _ _ _ _ := rfl
  symbols _ _ _ _ := rfl

/-- Complaints are added to those that there are. -/
def Tables.Adds (t u : Tables) : Prop := t.diagnostics.toList <+: u.diagnostics.toList

theorem adds_overlooks : Overlooks anyNode Tables.Adds where
  refl _ := List.prefix_rfl
  trans h h' := h.trans h'
  put node _ fact t := by
    cases hput : t.annotations.put node fact <;> simp [Pass.after, Pass.put, hput, Tables.Adds]
  report found t := by
    have hafter : (Pass.report found).after t = t.report found := rfl
    simp [Tables.Adds, hafter, Tables.report]
  symbols _ _ := List.prefix_rfl

section

variable {ids : List NodeId} {p : Program}

theorem registerProgram_spares (h : ids.Disjoint p.ids) (t : Tables) :
    Spares ids t ((registerProgram p).after t) := by
  refine ⟨registerProgram_extends p t, fun node hnode => ?_⟩
  refine registerProgram_keeps (sameRecords_overlooks (· ∈ p.ids)) p ?_ t node (h hnode)
  exact p.scopeIds_sublist_ids.subset

theorem checkProgram_spares (h : ids.Disjoint p.ids) (c : Config) (t : Tables) :
    Spares ids t ((checkProgram c p).after t) := by
  obtain ⟨hstack, hscopes⟩ := checkProgram_sameScopes c p t
  refine ⟨⟨hstack, Nat.le_of_eq (by rw [hscopes]), fun _ _ => by rw [hscopes]⟩, ?_⟩
  intro node hnode
  refine checkProgram_keeps (sameRecords_overlooks (· ∈ p.ids)) c p ?_ t node (h hnode)
  exact p.partIds_sublist_ids.subset

end

/-- Beside each other as to all complaints from here on. -/
abbrev Tables.BesideNow (ids : List NodeId) (base : ScopeId) (o t : Tables) : Prop :=
  Beside ids base o.diagnostics.toList t.diagnostics.toList o t

open Tables (BesideNow)

section

variable {ids : List NodeId} {base : ScopeId} {own others : List Diagnostic} {o t u : Tables}

theorem Tables.Beside.now (h : Beside ids base own others o t) : BesideNow ids base o t :=
  ⟨h.symbols, ⟨h.tally.given, h.tally.records, [], by simp, by simp⟩⟩

theorem Tables.BesideNow.spares (h : BesideNow ids base o t) (ht : Spares ids t u) :
    BesideNow ids base o u := by
  obtain ⟨⟨hstack, -, hold⟩, hrecords⟩ := ht
  refine ⟨⟨hstack.trans h.symbols.stack, h.symbols.active, fun id hid => ?_⟩, ?_⟩
  · rw [hold _ (h.symbols.lt_size hid)]
    exact h.symbols.scopes id hid
  · refine ⟨h.tally.given, fun node hnode => ?_, [], by simp, by simp⟩
    rw [hrecords node hnode]
    exact h.tally.records node hnode

end

/-- The tables hold nothing about the nodes, and no scope is active. -/
structure Tables.Fresh (ids : List NodeId) (t : Tables) : Prop where
  stack : t.symbols.stack = []
  records : ∀ node ∈ ids, t.annotations.get? node = none

open Tables (Fresh)

theorem Tables.Fresh.spares {ids : List NodeId} {t u : Tables} (h : Fresh ids t)
    (ht : Spares ids t u) : Fresh ids u := by
  refine ⟨ht.stack.trans h.stack, fun node hnode => ?_⟩
  rw [ht.records node hnode]
  exact h.records node hnode

namespace Session

/-- A program to be run, and where it is to start. -/
structure Job where
  program : Program
  config : Config := {}

def Job.ids (j : Job) : List NodeId := j.program.ids

inductive Turn where
  | register
  | check

def Job.step (j : Job) : Turn → Step
  | .register => .register j.program
  | .check => .check j.config j.program

/-- What a step shows: its answer and the complaints that it adds. -/
structure Effect where
  answer : Option Answer
  found : List Diagnostic
deriving DecidableEq

/-- A nest of steps has no answer of its own. -/
def Outcome.answer? : Outcome → Option Answer
  | single answer _ => some answer
  | nested _ _ => none

def Step.effect (s : Step) (t : Tables) : Effect where
  answer := (s.run t).answer?
  found := (s.run t).tables.diagnostics.toList.drop t.diagnostics.size

section

variable {ids : List NodeId} {base : ScopeId} {o t : Tables}

theorem answer?_ofPass (pass : Pass α) (answer : α → Answer) (t : Tables) :
    (Outcome.ofPass pass answer t).answer? =
      some (match pass.result t with
        | .ok a => answer a
        | .error fault => .fault fault) := by
  cases hrun : pass t <;> simp [Outcome.ofPass, Outcome.answer?, Pass.result, hrun]

/-- A step that runs a pass shows the same on both sides if the pass does. -/
theorem effect_alike {s : Step} {pass : Pass α} {answer : α → Answer}
    (hs : ∀ t, s.run t = .ofPass pass answer t)
    (h : Alike (Beside ids base o.diagnostics.toList t.diagnostics.toList) pass o pass t) :
    s.effect t = s.effect o ∧ BesideNow ids base (s.run o).tables (s.run t).tables := by
  obtain ⟨hresult, htables⟩ := h
  obtain ⟨new, ho, ht⟩ := htables.tally.found
  constructor
  · simp only [Step.effect, hs, answer?_ofPass, hresult, tables_ofPass, ho, ht,
      Diagnostics.size_eq_length, List.drop_left]
  · rw [hs, hs, tables_ofPass, tables_ofPass]
    exact htables.now

namespace Job

variable (j : Job)

/-- Registration finds the tables as good as empty. -/
theorem register_alone (h : Fresh j.ids t) :
    (j.step .register).effect t = (j.step .register).effect {} ∧
      BesideNow j.ids t.symbols.scopes.size ((j.step .register).run {}).tables
        ((j.step .register).run t).tables := by
  obtain ⟨hstack, hrecords⟩ := h
  obtain ⟨hresult, htables⟩ := registerProgram_alike (p := j.program)
    (behind_empty hstack hrecords) (List.Subset.refl _)
  exact effect_alike (fun _ => rfl) ⟨hresult, htables.toBeside⟩

theorem check_alone (h : BesideNow j.ids base o t) :
    (j.step .check).effect t = (j.step .check).effect o ∧
      BesideNow j.ids base ((j.step .check).run o).tables ((j.step .check).run t).tables :=
  effect_alike (fun _ => rfl) (checkProgram_alike h j.config (List.Subset.refl _))

theorem step_spares (turn : Turn) (h : ids.Disjoint j.ids) (t : Tables) :
    Spares ids t ((j.step turn).run t).tables := by
  cases turn with
  | register =>
      rw [step, Step.run, tables_ofPass]
      exact registerProgram_spares h t
  | check =>
      rw [step, Step.run, tables_ofPass]
      exact checkProgram_spares h j.config t

theorem found_step (turn : Turn) (t : Tables) :
    ((j.step turn).run t).tables.diagnostics.toList =
      t.diagnostics.toList ++ ((j.step turn).effect t).found := by
  have hadds : t.diagnostics.toList <+: ((j.step turn).run t).tables.diagnostics.toList := by
    cases turn with
    | register =>
        rw [step, Step.run, tables_ofPass]
        exact registerProgram_keeps adds_overlooks j.program (fun _ _ => trivial) t
    | check =>
        rw [step, Step.run, tables_ofPass]
        exact checkProgram_keeps adds_overlooks j.config j.program (fun _ _ => trivial) t
  obtain ⟨new, hnew⟩ := hadds
  simp only [Step.effect, ← hnew, Diagnostics.size_eq_length, List.drop_left]

end Job

end

/-! ## Taking turns -/

section

variable {ι : Type} (job : ι → Job)

/-- Whose turn it is each time, and which. -/
abbrev Schedule (ι : Type) := List (ι × Turn)

/-- The tables after the turns of a schedule. -/
def played (schedule : Schedule ι) (t : Tables) : Tables :=
  (runSteps false (schedule.map fun (i, turn) => (job i).step turn) t).2

@[simp] theorem played_nil (t : Tables) : played job [] t = t := by
  simp [played, runSteps]

@[simp] theorem played_cons (i : ι) (turn : Turn) (rest : Schedule ι) (t : Tables) :
    played job ((i, turn) :: rest) t =
      played job rest (((job i).step turn).run t).tables := by
  simp [played, runSteps_cons]

/-- What the turns show, each from the tables as it finds them. -/
def effects : Schedule ι → Tables → List (ι × Effect)
  | [], _ => []
  | (i, turn) :: rest, t =>
      (i, ((job i).step turn).effect t) :: effects rest (((job i).step turn).run t).tables

/-- All complaints are shown by some turn. -/
theorem found_played (schedule : Schedule ι) (t : Tables) :
    (played job schedule t).diagnostics.toList =
      t.diagnostics.toList ++ (effects job schedule t).flatMap fun (_, e) => e.found := by
  induction schedule generalizing t with
  | nil => simp [effects]
  | cons head rest ih =>
      obtain ⟨i, turn⟩ := head
      simp [effects, ih, (job i).found_step]

/-- A lone program takes its turns as in an analysis, unless it cannot be registered. -/
theorem played_alone (i : ι) (t : Tables)
    (h : (registerProgram (job i).program).result t = .ok ()) :
    played job [(i, .register), (i, .check)] t =
      (analysis (job i).config (job i).program).after t := by
  obtain ⟨u, hu⟩ : ∃ u, registerProgram (job i).program t = .ok () u :=
    ⟨_, Pass.eq_ok_of_result h⟩
  have hanalysis : (analysis (job i).config (job i).program).after t =
      (checkProgram (job i).config (job i).program).after u :=
    Pass.after_of_eq (Pass.bind_of_ok hu)
  simp only [played_cons, played_nil, Job.step, Step.run, tables_ofPass, Pass.after_of_ok hu,
    hanalysis]

variable [DecidableEq ι]

/-- The entries of one of them, in their order. -/
def ofOne (i : ι) (xs : List (ι × α)) : List (ι × α) := xs.filter fun x => x.1 = i

@[simp] theorem ofOne_nil (i : ι) : ofOne i ([] : List (ι × α)) = [] := rfl

@[simp] theorem ofOne_cons_self (i : ι) (a : α) (xs : List (ι × α)) :
    ofOne i ((i, a) :: xs) = (i, a) :: ofOne i xs := by
  simp [ofOne]

theorem ofOne_cons_of_ne {i j : ι} (h : j ≠ i) (a : α) (xs : List (ι × α)) :
    ofOne i ((j, a) :: xs) = ofOne i xs := by
  simp [ofOne, h]

/-- Whoever is checked is registered before, and that is all. -/
theorem ofOne_eq_of_check {i : ι} {schedule : Schedule ι}
    (hturns : (ofOne i schedule).map Prod.snd <+: [.register, .check])
    (hcheck : (i, .check) ∈ schedule) :
    ofOne i schedule = [(i, .register), (i, .check)] := by
  have hmine : ∀ turn ∈ ofOne i schedule, turn.1 = i := fun turn hturn =>
    of_decide_eq_true (List.mem_filter.mp hturn).2
  have hmem : (i, .check) ∈ ofOne i schedule :=
    List.mem_filter.mpr ⟨hcheck, decide_eq_true rfl⟩
  rcases hown : ofOne i schedule with _ | ⟨⟨j, first⟩, _ | ⟨⟨k, second⟩, rest⟩⟩
  all_goals rw [hown] at hturns hmine hmem
  · cases hmem
  · obtain ⟨rfl, -⟩ := List.cons_prefix_cons.mp hturns
    simp at hmem
  · simp only [List.map_cons, List.cons_prefix_cons, List.prefix_nil, List.map_eq_nil_iff] at hturns
    obtain ⟨rfl, rfl, rfl⟩ := hturns
    simp only [List.forall_mem_cons] at hmine
    obtain ⟨rfl, rfl, -⟩ := hmine
    rfl

/-- The number of scopes that one of them finds when its first turn comes. -/
def scopesFound (i : ι) (schedule : Schedule ι) (t : Tables) : ScopeId :=
  (played job (schedule.takeWhile fun turn => turn.1 ≠ i) t).symbols.scopes.size

/-- Seen by one of them, the turns are as if it were alone on the other tables. -/
structure AsAlone (i : ι) (base : ScopeId) (schedule : Schedule ι) (o t : Tables) : Prop where
  effects : ofOne i (effects job schedule t) = effects job (ofOne i schedule) o
  tables : BesideNow (job i).ids base (played job (ofOne i schedule) o) (played job schedule t)

variable {job} {i : ι} {base : ScopeId} {schedule : Schedule ι} {o t : Tables}

theorem AsAlone.own {turn : Turn} (heffect : ((job i).step turn).effect t =
      ((job i).step turn).effect o)
    (h : AsAlone job i base schedule (((job i).step turn).run o).tables
      (((job i).step turn).run t).tables) :
    AsAlone job i base ((i, turn) :: schedule) o t := by
  obtain ⟨heffects, htables⟩ := h
  constructor
  · simp [Session.effects, heffect, heffects]
  · simpa using htables

theorem AsAlone.other {j : ι} (hj : j ≠ i) {turn : Turn}
    (h : AsAlone job i base schedule o (((job j).step turn).run t).tables) :
    AsAlone job i base ((j, turn) :: schedule) o t := by
  obtain ⟨heffects, htables⟩ := h
  constructor
  · simpa [Session.effects, ofOne_cons_of_ne hj] using heffects
  · simpa [ofOne_cons_of_ne hj] using htables

section

variable (hdisjoint : ∀ i j, i ≠ j → (job i).ids.Disjoint (job j).ids)

include hdisjoint

/-- Once it is registered, only its checking is to come. -/
theorem asAlone_of_beside (h : BesideNow (job i).ids base o t)
    (hturns : ∀ turn ∈ ofOne i schedule, turn.2 = .check) :
    AsAlone job i base schedule o t := by
  -- A turn of its own moves both runs on, a turn of another only the tables that are shared.
  induction schedule generalizing o t with
  | nil => exact ⟨by simp [effects], by simpa using h⟩
  | cons head rest ih =>
      obtain ⟨j, turn⟩ := head
      by_cases hj : j = i
      · subst hj
        rw [ofOne_cons_self, List.forall_mem_cons] at hturns
        obtain ⟨rfl, hrest⟩ := hturns
        obtain ⟨heffect, hnext⟩ := (job j).check_alone h
        exact .own heffect (ih hnext hrest)
      · rw [ofOne_cons_of_ne hj] at hturns
        have hspares := (job j).step_spares turn (hdisjoint i j (Ne.symm hj)) t
        exact .other hj (ih (h.spares hspares) hturns)

theorem asAlone_of_fresh (h : Fresh (job i).ids t)
    (hturns : (ofOne i schedule).map Prod.snd <+: [.register, .check]) :
    AsAlone job i (scopesFound job i schedule t) schedule {} t := by
  induction schedule generalizing t with
  | nil =>
      refine ⟨by simp [effects], ?_⟩
      simpa [scopesFound] using (behind_empty h.stack h.records).toBeside.now
  | cons head rest ih =>
      obtain ⟨j, turn⟩ := head
      by_cases hj : j = i
      · subst hj
        rw [ofOne_cons_self, List.map_cons, List.cons_prefix_cons] at hturns
        obtain ⟨rfl, hrest⟩ := hturns
        obtain ⟨heffect, hnext⟩ := (job j).register_alone h
        have hbase : scopesFound job j ((j, .register) :: rest) t = t.symbols.scopes.size := by
          simp [scopesFound]
        rw [hbase]
        refine .own heffect (asAlone_of_beside hdisjoint hnext fun turn hturn => ?_)
        have hmem := hrest.subset (List.mem_map_of_mem hturn)
        exact List.mem_singleton.mp hmem
      · rw [ofOne_cons_of_ne hj] at hturns
        have hspares := (job j).step_spares turn (hdisjoint i j (Ne.symm hj)) t
        have hbase : scopesFound job i ((j, turn) :: rest) t =
            scopesFound job i rest (((job j).step turn).run t).tables := by
          simp [scopesFound, hj]
        rw [hbase]
        exact .other hj (ih (h.spares hspares) hturns)

end

end

end Session

open Session (Job Schedule ofOne effects played scopesFound)

/-- A program is analysed on used tables as on empty ones, provided that they hold nothing
about its nodes and that no scope is active; only its scopes have higher numbers. So
programs that take turns on the same tables each get what they get alone, which for one
that can be registered and is checked is what its analysis gives. -/
theorem used_tables_behave_like_empty_ones :
    (∀ (p : Program) (c : Config) (t : Tables), t.symbols.stack = [] →
        (∀ node ∈ p.ids, t.annotations.get? node = none) →
        let used := (analysis c p).after t
        let alone := (analysis c p).after {}
        (analysis c p).result t = (analysis c p).result {} ∧
          used.diagnostics.toList = t.diagnostics.toList ++ alone.diagnostics.toList ∧
          (∀ node ∈ p.ids, used.annotations.get? node =
            (alone.annotations.get? node).map (·.shift t.symbols.scopes.size)) ∧
          ∀ id < alone.symbols.scopes.size,
            used.symbols.scopes[t.symbols.scopes.size + id]? = alone.symbols.scopes[id]?) ∧
      ∀ {ι : Type} [DecidableEq ι] (job : ι → Job) (schedule : Schedule ι) (t : Tables),
        t.symbols.stack = [] →
        (∀ i, ∀ node ∈ (job i).ids, t.annotations.get? node = none) →
        (∀ i j, i ≠ j → (job i).ids.Disjoint (job j).ids) →
        (∀ i, (ofOne i schedule).map Prod.snd <+: [.register, .check]) →
        (played job schedule t).diagnostics.toList =
            t.diagnostics.toList ++ (effects job schedule t).flatMap (fun (_, e) => e.found) ∧
          ∀ i,
            let used := played job schedule t
            let alone := played job (ofOne i schedule) {}
            let base := scopesFound job i schedule t
            ofOne i (effects job schedule t) = effects job (ofOne i schedule) {} ∧
              (∀ node ∈ (job i).ids, used.annotations.get? node =
                (alone.annotations.get? node).map (·.shift base)) ∧
              (∀ id < alone.symbols.scopes.size,
                used.symbols.scopes[base + id]? = alone.symbols.scopes[id]?) ∧
              ((i, .check) ∈ schedule → (registerProgram (job i).program).result {} = .ok () →
                alone = (analysis (job i).config (job i).program).after {}) := by
  refine ⟨fun p c t hstack hfresh => ?_, fun job schedule t hstack hfresh hdisjoint hturns => ?_⟩
  · obtain ⟨hresult, hsymbols, htally⟩ := analysis_alike (c := c) hstack hfresh
    obtain ⟨new, halone, hused⟩ := htally.found
    rw [List.nil_append] at halone
    exact ⟨hresult.symm, halone ▸ hused, htally.records, hsymbols.scopes⟩
  · refine ⟨Session.found_played job schedule t, fun i => ?_⟩
    obtain ⟨heffects, hsymbols, htally⟩ :=
      Session.asAlone_of_fresh hdisjoint ⟨hstack, hfresh i⟩ (hturns i)
    refine ⟨heffects, htally.records, hsymbols.scopes, fun hcheck hregister => ?_⟩
    have hboth := Session.ofOne_eq_of_check (hturns i) hcheck
    simp only [hboth]
    exact Session.played_alone job i {} hregister

/-- The other program is registered and checked between the two passes over `halving`, on
tables where `half` is a variable of an old scope. -/
theorem halving_shares_tables :
    let t : Tables := {
      symbols := { scopes := #[⟨"old", [("half", ⟨.int, .variable⟩)]⟩], signature := some .int }
      annotations := ⟨(∅ : Std.TreeMap NodeId Annotation).insert 1000 { lvalue := some true }⟩
      diagnostics := ⟨#[⟨.undeclared "old", halving.loc⟩]⟩ }
    let other : Program := ⟨⟨500, halving.loc⟩, []⟩
    let job : Bool → Job := fun second => if second then ⟨other, ⟨"go"⟩⟩ else ⟨halving, {}⟩
    let schedule : Schedule Bool :=
      [(false, .register), (true, .register), (true, .check), (false, .check)]
    (analysis {} halving).result t = (analysis {} halving).result {} ∧
      ofOne false (effects job schedule t) =
        effects job [(false, .register), (false, .check)] {} := by
  intro t other job schedule
  have hids : ∀ node ∈ halving.ids, node < 500 := by decide
  have hknown (node : NodeId) (hnode : node ≤ 500) : t.annotations.get? node = none := by
    have hne : 1000 ≠ node := Nat.ne_of_gt (Nat.lt_of_le_of_lt hnode (by decide))
    simp [t, Annotations.get?, hne]
  have hfresh : ∀ node ∈ halving.ids, t.annotations.get? node = none := by
    intro node hnode
    exact hknown node (Nat.le_of_lt (hids node hnode))
  have hfreshes : ∀ i, ∀ node ∈ (job i).ids, t.annotations.get? node = none := by
    rintro (_ | _) node hnode
    · exact hfresh node hnode
    · obtain rfl : node = 500 := List.mem_singleton.mp hnode
      exact hknown 500 (Nat.le_refl _)
  have hapart : halving.ids.Disjoint other.ids := by
    intro node hnode hother
    have hlt := hids node hnode
    rw [List.mem_singleton.mp hother] at hlt
    exact absurd hlt (Nat.lt_irrefl _)
  have hdisjoint : ∀ i j, i ≠ j → (job i).ids.Disjoint (job j).ids := by
    rintro (_ | _) (_ | _) hne
    · exact absurd rfl hne
    · exact hapart
    · exact fun _ hother hnode => hapart hnode hother
    · exact absurd rfl hne
  have hturns : ∀ i, (ofOne i schedule).map Prod.snd <+: [.register, .check] := by
    rintro (_ | _) <;> exact List.prefix_rfl
  obtain ⟨hsingle, hshared⟩ := used_tables_behave_like_empty_ones
  obtain ⟨-, heffects⟩ := hshared job schedule t rfl hfreshes hdisjoint hturns
  exact ⟨(hsingle halving {} t rfl hfresh).1, (heffects false).1⟩

end Asl
