import Asl.Proofs.Run
import Asl.Syntax.Builder

/-!
# The outcome of a run

The facts of a whole reading are the scopes of the program and of its functions and then
two for each part that is visited. They are new as long as no node comes twice, so a run
on fresh tables ends at the first node that repeats, or else leaves exactly these facts
and the complaints of the reading.
-/

namespace Asl

theorem Function.facts_reading (p : Program) (f : Function) :
    (f.reading p).facts = (reachedBlock (p.callable f) f.body).flatMap (Part.facts (p.env f)) := by
  rw [reading, facts_blockReading, p.takes_env]

namespace Program

theorem facts_bodiesReading (p : Program) (c : Config) :
    (p.bodiesReading c).facts =
      p.functions.flatMap fun f =>
        (reachedBlock (p.callable f) f.body).flatMap (Part.facts (p.env f)) := by
  have hfunctions (fs : List Function) :
      Reading.facts (fs.flatMap (Function.reading p)) = fs.flatMap fun f =>
        (reachedBlock (p.callable f) f.body).flatMap (Part.facts (p.env f)) := by
    induction fs with
    | nil => rfl
    | cons f rest ih => simp [Function.facts_reading, ih]
  simp [bodiesReading, hfunctions]

theorem found_bodiesReading (p : Program) (c : Config) :
    (p.bodiesReading c).found =
      (p.functions.flatMap fun f => (f.reading p).found) ++ p.entryReports c := by
  have hfunctions (fs : List Function) :
      Reading.found (fs.flatMap (Function.reading p)) =
        fs.flatMap fun f => (f.reading p).found := by
    induction fs with
    | nil => rfl
    | cons f rest ih => simp [ih]
  simp [bodiesReading, hfunctions]

theorem found_reading (p : Program) (c : Config) (base : ScopeId) :
    (p.reading c base).found =
      p.redeclared ++ (p.functions.flatMap fun f => (f.reading p).found) ++ p.entryReports c := by
  simp [reading, registering, found_functionsRegistering, found_bodiesReading, redeclared]

/-- What a visit makes known of a node. -/
def visitKeys (id : NodeId) : List Key := [(id, .type), (id, .lvalue)]

theorem field_of_mem_registering {p : Program} {next : ScopeId} {node : NodeId} {fact : Fact}
    (h : (node, fact) ∈ (p.registering next).facts) : fact.field = .scope := by
  rw [registering, Reading.facts_write, facts_functionsRegistering, List.mem_cons] at h
  rcases h with heq | hmem
  · obtain ⟨-, rfl⟩ := Prod.mk.inj heq
    rfl
  · obtain ⟨⟨g, scope⟩, -, heq⟩ := List.mem_map.mp hmem
    obtain ⟨-, rfl⟩ := Prod.mk.inj heq
    rfl

theorem keys_registering (p : Program) (base : ScopeId) :
    (p.registering base).keys = p.scopeIds.map fun id => (id, .scope) := by
  have hfunctions (names : List String) (next : ScopeId) (fs : List Function) :
      (functionsRegistering names next fs).keys = fs.map fun f => (f.id, .scope) := by
    induction fs generalizing names next with
    | nil => rfl
    | cons f rest ih => simp [functionsRegistering, ih, Fact.key, Fact.field]
  have hprogram : (p.registering base).keys =
      (p.id, .scope) :: (functionsRegistering [] (base + 1) p.functions).keys := rfl
  rw [hprogram, hfunctions]
  simp [scopeIds, Function.comp_def]

theorem keys_bodiesReading (p : Program) (c : Config) :
    (p.bodiesReading c).keys = p.visitedIds.flatMap visitKeys := by
  simp [Reading.keys, facts_bodiesReading, visitedIds, visited, List.map_flatMap,
    List.flatMap_map, List.flatMap_assoc, Part.facts, Fact.key, Fact.field, visitKeys]

theorem keys_reading (p : Program) (c : Config) (base : ScopeId) :
    (p.reading c base).keys =
      p.scopeIds.map (fun id => (id, .scope)) ++ p.visitedIds.flatMap visitKeys := by
  rw [reading, Reading.keys_append, p.keys_registering, p.keys_bodiesReading]

end Program

theorem firstRepeat_visitKeys (seen : Key → Bool)
    (hseen : ∀ id, seen (id, .lvalue) = seen (id, .type)) (ids : List NodeId) :
    firstRepeat seen (ids.flatMap Program.visitKeys) =
      (firstRepeat (fun id => seen (id, .type)) ids).map fun id => (id, .type) := by
  induction ids generalizing seen with
  | nil => rfl
  | cons id rest ih =>
      cases hid : seen (id, .type) with
      | true => simp [Program.visitKeys, firstRepeat, hid]
      | false =>
          -- After a visit both keys of the node are known, which keeps `hseen` for the rest.
          let later : Key → Bool := fun key =>
            decide (key = (id, .lvalue)) || (decide (key = (id, .type)) || seen key)
          have hlater (other : NodeId) : later (other, .lvalue) = later (other, .type) := by
            simp [later, hseen, Bool.or_comm, Bool.or_left_comm]
          have hrest := ih later hlater
          have hsame : (fun other => later (other, .type)) =
              fun other => decide (other = id) || seen (other, .type) := by
            funext other
            simp [later]
          rw [hsame] at hrest
          simpa [Program.visitKeys, firstRepeat, hid, hseen, later] using hrest

/-- A node that opens two scopes stops the run before any body is looked at. -/
theorem firstRepeat_keys_reading (p : Program) (c : Config) (base : ScopeId) :
    firstRepeat (fun _ => false) (p.reading c base).keys =
      ((firstRepeat (fun _ => false) p.scopeIds).map fun id => (id, .scope)).or
        ((firstRepeat (fun _ => false) p.visitedIds).map fun id => (id, .type)) := by
  have hinjective : (fun id : NodeId => ((id, .scope) : Key)).Injective := by
    intro id other h
    exact congrArg Prod.fst h
  rw [p.keys_reading, firstRepeat_append, firstRepeat_map hinjective, firstRepeat_visitKeys]
  · simp [Function.comp_def]
  · simp

namespace Annotations

theorem knows_empty : ({} : Annotations).knows = fun _ => false := by
  funext key
  have hget := get?_empty key.1
  cases hfield : key.2 <;> simp [knows, hget, hfield, Annotation.has]

theorem noBlank_empty : ({} : Annotations).NoBlank := by
  intro node hnode
  simp [get?_empty node] at hnode

theorem not_holds_empty (node : NodeId) (fact : Fact) : ¬({} : Annotations).Holds node fact := by
  have hget := get?_empty node
  cases fact <;> simp [Holds, scope?, type?, lvalue?, hget]

end Annotations

/-- What a run that meets no fault leaves in the tables. -/
structure Program.Outcome (p : Program) (c : Config) (t : Tables) : Prop where
  holds : ∀ node fact, t.annotations.Holds node fact ↔ (node, fact) ∈ (p.reading c 0).facts
  found : t.diagnostics.toList = (p.reading c 0).found
  noBlank : t.annotations.NoBlank

theorem analyse_cases (p : Program) (c : Config) :
    (∃ key, firstRepeat (fun _ => false) (p.reading c 0).keys = some key ∧
        analyse p c = .error (.rewritten key.1 key.2)) ∨
      firstRepeat (fun _ => false) (p.reading c 0).keys = none ∧
        ∃ t, analyse p c = .ok t ∧ p.Outcome c t := by
  have hruns : Pass.Replays {} (analysis c p) _ (p.reading c 0) p.symbols :=
    analysis_replays c p rfl
  -- Nothing is known beforehand, so a key can only be met again within the reading.
  have hends := hruns.ends
  rw [Annotations.knows_empty] at hends
  obtain ⟨hnone, u, hu, hrun⟩ | ⟨key, hkey, u, hrun⟩ := hends
  · have hdone := Reading.done_of_replay hu
    refine .inr ⟨hnone, u.withSymbols p.symbols, by rw [analyse, hrun], fun node fact => ?_, ?_,
      hdone.noBlank Annotations.noBlank_empty⟩
    · exact (hdone.holds node fact).trans (or_iff_right (Annotations.not_holds_empty node fact))
    · exact hdone.found.trans (List.nil_append _)
  · exact .inl ⟨key, hkey, by rw [analyse, hrun]⟩

theorem outcome_of_analyse {p : Program} {c : Config} {t : Tables} (h : analyse p c = .ok t) :
    p.Outcome c t := by
  obtain ⟨key, -, hfault⟩ | ⟨-, u, hu, houtcome⟩ := analyse_cases p c
  · rw [h] at hfault
    cases hfault
  · rw [h] at hu
    cases hu
    exact houtcome

/-- The nodes about which something is known, and what. -/
structure Annotations.Covers (a : Annotations) (scopes visits : List NodeId) : Prop where
  scope : ∀ node, (a.scope? node).isSome = true ↔ node ∈ scopes
  type : ∀ node, (a.type? node).isSome = true ↔ node ∈ visits
  lvalue : ∀ node, (a.lvalue? node).isSome = true ↔ node ∈ visits
  record : ∀ node, (a.get? node).isSome = true ↔ node ∈ scopes ∨ node ∈ visits

namespace Annotations

variable {a : Annotations} {node : NodeId}

theorem knows_scope : a.knows (node, .scope) = (a.scope? node).isSome := by
  cases h : a.get? node <;> simp [knows, scope?, Annotation.has, h]

theorem knows_type : a.knows (node, .type) = (a.type? node).isSome := by
  cases h : a.get? node <;> simp [knows, type?, Annotation.has, h]

theorem knows_lvalue : a.knows (node, .lvalue) = (a.lvalue? node).isSome := by
  cases h : a.get? node <;> simp [knows, lvalue?, Annotation.has, h]

theorem isSome_get?_of_knows {field : Field} (h : a.knows (node, field) = true) :
    (a.get? node).isSome = true := by
  cases hget : a.get? node with
  | none => cases field <;> simp [knows, hget, Annotation.has] at h
  | some known => rfl

theorem covers_of_knows {scopes visits : List NodeId}
    (h : ∀ key, a.knows key = true ↔
      key ∈ scopes.map (fun id => (id, Field.scope)) ++ visits.flatMap Program.visitKeys)
    (hblank : a.NoBlank) : a.Covers scopes visits := by
  have hscope (node : NodeId) : a.knows (node, .scope) = true ↔ node ∈ scopes := by
    simp [h, Program.visitKeys]
  have htype (node : NodeId) : a.knows (node, .type) = true ↔ node ∈ visits := by
    simp [h, Program.visitKeys]
  have hlvalue (node : NodeId) : a.knows (node, .lvalue) = true ↔ node ∈ visits := by
    simp [h, Program.visitKeys]
  refine ⟨fun node => ?_, fun node => ?_, fun node => ?_, fun node => ⟨fun hget => ?_, ?_⟩⟩
  · rw [← knows_scope, hscope]
  · rw [← knows_type, htype]
  · rw [← knows_lvalue, hlvalue]
  · obtain ⟨field, hfield⟩ := hblank node hget
    cases field with
    | scope => exact .inl ((hscope node).mp hfield)
    | type => exact .inr ((htype node).mp hfield)
    | lvalue => exact .inr ((hlvalue node).mp hfield)
  · rintro (hmem | hmem)
    · exact isSome_get?_of_knows ((hscope node).mpr hmem)
    · exact isSome_get?_of_knows ((htype node).mpr hmem)

end Annotations

namespace Program.Outcome

variable {p : Program} {c : Config} {t : Tables}

theorem knows_iff (h : p.Outcome c t) (key : Key) :
    t.annotations.knows key = true ↔ key ∈ (p.reading c 0).keys := by
  obtain ⟨node, field⟩ := key
  simp only [Annotations.knows_iff_holds, Reading.mem_keys_iff, h.holds]

/-- Registration says no more of a node than the scope that it opens. -/
theorem holds_iff_of_ne_scope (h : p.Outcome c t) {node : NodeId} {fact : Fact}
    (hfact : fact.field ≠ .scope) :
    t.annotations.Holds node fact ↔ (node, fact) ∈ (p.bodiesReading c).facts := by
  rw [h.holds, reading, Reading.facts_append, List.mem_append]
  exact or_iff_right fun hmem => hfact (field_of_mem_registering hmem)

theorem covers (h : p.Outcome c t) : t.annotations.Covers p.scopeIds p.visitedIds := by
  refine Annotations.covers_of_knows (fun key => ?_) h.noBlank
  rw [h.knows_iff, p.keys_reading]

end Program.Outcome

theorem analyse_eq_error_of_firstRepeat {p : Program} {c : Config} {key : Key}
    (h : firstRepeat (fun _ => false) (p.reading c 0).keys = some key) :
    analyse p c = .error (.rewritten key.1 key.2) := by
  obtain ⟨other, hother, hrun⟩ | ⟨hnone, -⟩ := analyse_cases p c
  · rw [h] at hother
    cases hother
    exact hrun
  · rw [h] at hnone
    cases hnone

theorem exists_analyse_eq_ok {p : Program} {c : Config}
    (h : firstRepeat (fun _ => false) (p.reading c 0).keys = none) : ∃ t, analyse p c = .ok t := by
  obtain ⟨key, hkey, -⟩ | ⟨-, t, hrun, -⟩ := analyse_cases p c
  · rw [h] at hkey
    cases hkey
  · exact ⟨t, hrun⟩

theorem analyse_eq_error_iff (p : Program) (c : Config) (fault : Fault) :
    analyse p c = .error fault ↔
      (∃ id, FirstRepeat p.scopeIds id ∧ fault = .rewritten id .scope) ∨
        p.scopeIds.Nodup ∧ ∃ id, FirstRepeat p.visitedIds id ∧ fault = .rewritten id .type := by
  have hscopes : p.scopeIds.Nodup ↔ firstRepeat (fun _ => false) p.scopeIds = none := by
    simp [firstRepeat_eq_none_iff]
  simp only [hscopes, ← firstRepeat_eq_some_iff_firstRepeat]
  have hkeys := firstRepeat_keys_reading p c 0
  cases hscope : firstRepeat (fun _ => false) p.scopeIds with
  | some id =>
      have hrun := analyse_eq_error_of_firstRepeat (hkeys.trans (by rw [hscope]; rfl))
      simp [hrun, eq_comm]
  | none =>
      cases hvisit : firstRepeat (fun _ => false) p.visitedIds with
      | some id =>
          have hrun := analyse_eq_error_of_firstRepeat (hkeys.trans (by rw [hscope, hvisit]; rfl))
          simp [hrun, eq_comm]
      | none =>
          obtain ⟨t, hrun⟩ := exists_analyse_eq_ok (hkeys.trans (by rw [hscope, hvisit]; rfl))
          simp [hrun]

/-- A program whose start stores half of a number. -/
def halving : Program :=
  let build : Build Program := do
    let x ← Build.param "x" (.basic .float)
    let quotient ← Build.binary (.arith .div) (← Build.var "x") (← Build.lit (.int 2))
    let half ← Build.function "half" [x] (some (.basic .float)) [] [← Build.ret (some quotient)]
    let y ← Build.vars ["y"] (.basic .float)
    let value ← Build.call "half" [← Build.lit (.int 3)]
    let store ← Build.assign (← Build.target "y" none) value
    let start ← Build.function "main" [] none [y] [store]
    Build.program [half, start]
  (build.run {}).1

theorem halving_accepted : ∃ t, analyse halving {} = .ok t ∧ t.isOk = true := by
  have hrun : (analyse halving {}).toOption.any Tables.isOk = true := by decide +kernel
  cases h : analyse halving {} with
  | error fault =>
      rw [h] at hrun
      cases hrun
  | ok t =>
      rw [h] at hrun
      exact ⟨t, rfl, hrun⟩

/-- A fault is a node that comes twice, and there is no other. A run without one has
annotated all that it visits. -/
theorem analyse_faults_exactly_on_repeats (p : Program) (c : Config) :
    ((∃ fault, analyse p c = .error fault) ↔ ¬p.scopeIds.Nodup ∨ ¬p.visitedIds.Nodup) ∧
      (∀ fault, analyse p c = .error fault ↔
        (∃ id, FirstRepeat p.scopeIds id ∧ fault = .rewritten id .scope) ∨
          p.scopeIds.Nodup ∧ ∃ id, FirstRepeat p.visitedIds id ∧ fault = .rewritten id .type) ∧
      ∀ t, analyse p c = .ok t → t.annotations.Covers p.scopeIds p.visitedIds := by
  refine ⟨?_, analyse_eq_error_iff p c, fun t h => (outcome_of_analyse h).covers⟩
  constructor
  · rintro ⟨fault, hfault⟩
    obtain ⟨id, hid, -⟩ | ⟨-, id, hid, -⟩ := (analyse_eq_error_iff p c fault).mp hfault
    · exact .inl (exists_firstRepeat_iff.mp ⟨id, hid⟩)
    · exact .inr (exists_firstRepeat_iff.mp ⟨id, hid⟩)
  · intro h
    by_cases hscopes : p.scopeIds.Nodup
    · obtain ⟨id, hid⟩ := exists_firstRepeat_iff.mpr (h.resolve_left (not_not_intro hscopes))
      exact ⟨_, (analyse_eq_error_iff p c _).mpr (.inr ⟨hscopes, id, hid, rfl⟩)⟩
    · obtain ⟨id, hid⟩ := exists_firstRepeat_iff.mpr hscopes
      exact ⟨_, (analyse_eq_error_iff p c _).mpr (.inl ⟨id, hid, rfl⟩)⟩

theorem halving_covers_visits :
    ∃ t, analyse halving {} = .ok t ∧ t.annotations.Covers halving.scopeIds halving.visitedIds := by
  obtain ⟨t, ht, -⟩ := halving_accepted
  exact ⟨t, ht, (analyse_faults_exactly_on_repeats halving {}).2.2 t ht⟩

namespace Program

theorem visitedIds_sublist (p : Program) : p.visitedIds.Sublist p.partIds := by
  have hparts (fs : List Function) :
      (fs.flatMap fun f => reachedBlock (p.callable f) f.body).Sublist
        (fs.flatMap Function.parts) := by
    induction fs with
    | nil => exact .slnil
    | cons f rest ih => exact (reachedBlock_sublist (p.callable f) f.body).append ih
  exact (hparts p.functions).map Part.id

theorem exists_outcome {p : Program} (c : Config) (hscopes : p.scopeIds.Nodup)
    (hparts : p.partIds.Nodup) : ∃ t, analyse p c = .ok t ∧ p.Outcome c t := by
  have hvisits := p.visitedIds_sublist.nodup hparts
  have hnone : firstRepeat (fun _ => false) (p.reading c 0).keys = none := by
    rw [firstRepeat_keys_reading, Option.or_eq_none_iff]
    simp [firstRepeat_eq_none_iff, hscopes, hvisits]
  obtain ⟨t, ht⟩ := exists_analyse_eq_ok hnone
  exact ⟨t, ht, outcome_of_analyse ht⟩

theorem Outcome.visited {p : Program} {c : Config} {t : Tables} (h : p.Outcome c t)
    {f : Function} (hf : f ∈ p.functions) {part : Part}
    (hpart : part ∈ reachedBlock (p.callable f) f.body) :
    t.annotations.type? part.id = some (part.type (p.env f)) ∧
      t.annotations.lvalue? part.id = some (part.lvalue (p.env f)) := by
  have hfacts (fact : NodeId × Fact) (hfact : fact ∈ part.facts (p.env f)) :
      fact ∈ (p.reading c 0).facts := by
    rw [reading, Reading.facts_append, facts_bodiesReading]
    refine List.mem_append_right _ (List.mem_flatMap.mpr ⟨f, hf, ?_⟩)
    exact List.mem_flatMap.mpr ⟨part, hpart, hfact⟩
  constructor
  · exact (h.holds part.id (.type _)).mpr (hfacts _ (by simp [Part.facts]))
  · exact (h.holds part.id (.lvalue _)).mpr (hfacts _ (by simp [Part.facts]))

end Program

/-- As long as no node comes twice, a run finds what is declared again, then what the
reading of each body finds, then what is wrong with the entry point, and it annotates
each part that it visits as the reading does. -/
theorem analyse_refines_reading (p : Program) (c : Config) (hscopes : p.scopeIds.Nodup)
    (hparts : p.partIds.Nodup) :
    ∃ t, analyse p c = .ok t ∧
      t.diagnostics.toList =
        p.redeclared ++ (p.functions.flatMap fun f => (f.reading p).found) ++ p.entryReports c ∧
      ∀ f ∈ p.functions, ∀ part ∈ reachedBlock (p.callable f) f.body,
        t.annotations.type? part.id = some (part.type (p.env f)) ∧
          t.annotations.lvalue? part.id = some (part.lvalue (p.env f)) := by
  obtain ⟨t, ht, houtcome⟩ := Program.exists_outcome c hscopes hparts
  refine ⟨t, ht, houtcome.found.trans (p.found_reading c 0), fun f hf part hpart => ?_⟩
  exact houtcome.visited hf hpart

theorem halving_has_no_start :
    ∃ t, analyse halving ⟨"start"⟩ = .ok t ∧
      t.diagnostics.toList = [⟨.entryPoint "start", halving.loc⟩] := by
  obtain ⟨t, ht, hfound, -⟩ :=
    analyse_refines_reading halving ⟨"start"⟩ (by decide) (by decide)
  exact ⟨t, ht, hfound.trans (by decide +kernel)⟩

end Asl
