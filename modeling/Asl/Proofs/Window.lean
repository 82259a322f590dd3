import Asl.Proofs.Context
import Mathlib.Data.List.Forall2

/-!
# A context is a window of its source

A context is laid out once more as if lines could only be taken by their index, which counts from
zero and may be out of bounds, and as if numbers had a bound. The tests are made on the numbers
beforehand, and they are enough: no index is out of bounds, and the only sum that can pass the bound
is the one for the blanks before the mark. In the finished text the rows are then the line before,
the line in question, the mark and the line after, each line behind its own number and as it stands
in the text that was cut into lines. Of a diagnostic only its line and its column tell in this.
-/

namespace Asl

/-- A line feed ends a line, and a carriage return before it is not part of the line. What follows
the last line feed is a line if there is anything. -/
inductive CutInto : List Char → List (List Char) → Prop where
  | nothing : CutInto [] []
  | unended {line : List Char} : line ≠ [] → '\n' ∉ line → CutInto line [line]
  | feed {line text : List Char} {lines : List (List Char)} : '\n' ∉ line →
      line.getLast? ≠ some '\r' → CutInto text lines →
        CutInto (line ++ '\n' :: text) (line :: lines)
  | returnFeed {line text : List Char} {lines : List (List Char)} : '\n' ∉ line →
      CutInto text lines → CutInto (line ++ '\r' :: '\n' :: text) (line :: lines)

theorem sourceLines_cons {c : Char} {text line : List Char} {lines : List (List Char)}
    (hc : c ≠ '\n') (hbreak : c ≠ '\r' ∨ text.head? ≠ some '\n')
    (h : sourceLines text = line :: lines) : sourceLines (c :: text) = (c :: line) :: lines := by
  rw [sourceLines, h]
  · exact hc
  · rintro rest rfl rfl
    simp at hbreak

/-- Characters that hold no line feed go to the front of the first line. -/
theorem sourceLines_append {line text first : List Char} {lines : List (List Char)}
    (hline : '\n' ∉ line) (hbreak : line.getLast? ≠ some '\r' ∨ text.head? ≠ some '\n')
    (h : sourceLines text = first :: lines) :
    sourceLines (line ++ text) = (line ++ first) :: lines := by
  induction line with
  | nil => exact h
  | cons c line ih =>
      obtain ⟨hc, hline⟩ := not_or.1 (mt List.mem_cons.2 hline)
      cases line with
      | nil => exact sourceLines_cons (Ne.symm hc) (by simpa using hbreak) h
      | cons d line =>
          have hd : d ≠ '\n' := fun hd => hline (hd ▸ List.mem_cons_self)
          have hrest := ih hline (by simpa using hbreak)
          exact sourceLines_cons (Ne.symm hc) (.inr (by simpa using hd)) hrest

theorem CutInto.sourceLines_eq {text : List Char} {lines : List (List Char)}
    (h : CutInto text lines) : sourceLines text = lines := by
  induction h with
  | nothing => rfl
  | @unended line hne hline =>
      -- the last character makes the line that all others are then put in front of
      obtain ⟨front, c, rfl⟩ := (List.eq_nil_or_concat' line).resolve_left hne
      simp only [List.mem_append, List.mem_singleton, not_or] at hline
      obtain ⟨hfront, hc⟩ := hline
      have hlast : sourceLines [c] = [[c]] := by
        rw [sourceLines]
        · rfl
        · exact Ne.symm hc
        · simp
      exact sourceLines_append hfront (.inr (by simpa using Ne.symm hc)) hlast
  | @feed line text lines hline hlast _ ih =>
      have hbreak : sourceLines ('\n' :: text) = [] :: lines := by rw [sourceLines, ih]
      simpa using sourceLines_append hline (.inl hlast) hbreak
  | @returnFeed line text lines hline _ ih =>
      have hbreak : sourceLines ('\r' :: '\n' :: text) = [] :: lines := by rw [sourceLines, ih]
      simpa using sourceLines_append hline (.inr (by simp)) hbreak

theorem CutInto.cons {c : Char} {text line : List Char} {lines : List (List Char)}
    (hc : c ≠ '\n') (hbreak : ∀ rest, c = '\r' → text ≠ '\n' :: rest)
    (h : CutInto text (line :: lines)) : CutInto (c :: text) ((c :: line) :: lines) := by
  have hcons {line : List Char} (hline : '\n' ∉ line) : '\n' ∉ c :: line := by
    simpa [hline] using Ne.symm hc
  cases h with
  | unended hne hline => exact .unended (by simp) (hcons hline)
  | @feed _ text _ hline hlast htext =>
      refine @CutInto.feed (c :: line) text _ (hcons hline) ?_ htext
      cases line with
      | nil => simpa using fun hreturn => hbreak text hreturn rfl
      | cons d line => simpa using hlast
  | @returnFeed _ text _ hline htext =>
      exact @CutInto.returnFeed (c :: line) text _ (hcons hline) htext

theorem cutInto_sourceLines (text : List Char) : CutInto text (sourceLines text) := by
  fun_induction sourceLines text with
  | case1 => exact .nothing
  | case2 rest ih => exact @CutInto.feed [] rest _ (by simp) (by simp) ih
  | case3 rest ih => exact @CutInto.returnFeed [] rest _ (by simp) ih
  | case4 c rest hfeed hreturn hlines ih =>
      rw [hlines] at ih
      cases ih
      exact .unended (by simp) (by simpa using Ne.symm hfeed)
  | case5 c rest hfeed hreturn line lines hlines ih =>
      rw [hlines] at ih
      exact ih.cons hfeed fun rest => hreturn rest

theorem cutInto_iff {text : List Char} {lines : List (List Char)} :
    CutInto text lines ↔ sourceLines text = lines :=
  ⟨CutInto.sourceLines_eq, fun h => h ▸ cutInto_sourceLines text⟩

theorem Source.toList_lines (text : String) :
    (ofText text).lines.toList.map String.toList = sourceLines text.toList := by
  simp [ofText]

/-- What may stop a layout short. -/
inductive Breakdown where
  | outOfBounds (index : Nat)
  | outOfRange
deriving DecidableEq

theorem Breakdown.bind_ok {α β : Type} (a : α) (f : α → Except Breakdown β) :
    (.ok a >>= f) = f a := rfl

theorem Breakdown.bind_error {α β : Type} (e : Breakdown) (f : α → Except Breakdown β) :
    (.error e >>= f) = .error e := rfl

open Breakdown (bind_ok bind_error)

/-- A line by its index from zero. -/
def Source.lineAt (s : Source) (i : Nat) : Except Breakdown String :=
  match s.lines[i]? with
  | some line => .ok line
  | none => .error (.outOfBounds i)

/-- A sum that must not pass the bound. -/
def boundedAdd (limit m n : Nat) : Except Breakdown Nat :=
  if m + n ≤ limit then .ok (m + n) else .error .outOfRange

/-- A difference that must not fall below zero. -/
def boundedSub (m n : Nat) : Except Breakdown Nat :=
  if n ≤ m then .ok (m - n) else .error .outOfRange

theorem boundedAdd_eq {limit m n : Nat} (h : m + n ≤ limit) :
    boundedAdd limit m n = .ok (m + n) := if_pos h

theorem boundedAdd_eq_error {limit m n : Nat} (h : limit < m + n) :
    boundedAdd limit m n = .error .outOfRange := if_neg (Nat.not_le.2 h)

theorem boundedSub_eq {m n : Nat} (h : n ≤ m) : boundedSub m n = .ok (m - n) := if_pos h

namespace Source

variable {s : Source} {i : Nat}

theorem lineAt_eq {line : String} (h : s.line? (i + 1) = some line) : s.lineAt i = .ok line := by
  have hline : s.lines[i]? = some line := h
  simp only [lineAt, hline]

/-- The line before the one at an index, where there is one. -/
def lineAbove (s : Source) (width i : Nat) : Except Breakdown (List Line) :=
  if 0 < i then do
    let text ← s.lineAt (← boundedSub i 1)
    return [numberedLine .gutter width i text]
  else return []

/-- The line after the one at an index, where there is one. -/
def lineBelow (limit : Nat) (s : Source) (width i : Nat) : Except Breakdown (List Line) := do
  let next ← boundedAdd limit i 1
  if next < s.lines.size then
    let number ← boundedAdd limit i 2
    let text ← s.lineAt next
    return [numberedLine .gutter width number text]
  else return []

theorem lineAbove_eq (hi : i < s.lines.size) (width : Nat) :
    s.lineAbove width i = .ok ((s.line? i).toList.map (numberedLine .gutter width i)) := by
  cases i with
  | zero => rfl
  | succ i =>
      obtain ⟨line, hline⟩ : ∃ line, s.line? (i + 1) = some line :=
        exists_line_iff.2 ⟨i.succ_pos, Nat.le_of_lt hi⟩
      have hsub : boundedSub (i + 1) 1 = .ok i := boundedSub_eq i.succ_pos
      rw [lineAbove, if_pos i.succ_pos, hsub, bind_ok, lineAt_eq hline, bind_ok, hline]
      rfl

theorem lineBelow_eq {limit : Nat} (hi : i < s.lines.size) (hsize : s.lines.size ≤ limit)
    (width : Nat) :
    s.lineBelow limit width i =
      .ok ((s.line? (i + 2)).toList.map (numberedLine .gutter width (i + 2))) := by
  rw [lineBelow, boundedAdd_eq (Nat.le_trans hi hsize), bind_ok]
  by_cases hnext : i + 1 < s.lines.size
  · obtain ⟨line, hline⟩ : ∃ line, s.line? (i + 2) = some line :=
      exists_line_iff.2 ⟨Nat.succ_pos _, hnext⟩
    rw [if_pos hnext, boundedAdd_eq (Nat.le_trans hnext hsize), bind_ok, lineAt_eq hline, bind_ok,
      hline]
    rfl
  · have hnone : s.line? (i + 2) = none := line?_eq_none_iff.2 (.inr (by omega))
    rw [if_neg hnext, hnone]
    rfl

end Source

/-- The number of blanks before the mark. -/
def Location.indent (loc : Location) : Nat := (toString loc.line).length + 2 + (loc.column - 1)

/-- The mark behind its blanks, the number of which is a sum. -/
def boundedCaretLine (limit width column : Nat) : Except Breakdown Line := do
  let indent ← boundedAdd limit (← boundedAdd limit width 2) (column - 1)
  return [⟨none, blanks indent⟩, ⟨some .alarm, "^"⟩]

theorem boundedCaretLine_eq (limit width column : Nat) :
    boundedCaretLine limit width column =
      if limit < width + 2 + (column - 1) then .error .outOfRange
      else .ok (caretLine width column) := by
  rw [boundedCaretLine]
  by_cases hwidth : limit < width + 2
  · have hindent : limit < width + 2 + (column - 1) := by omega
    rw [boundedAdd_eq_error hwidth, bind_error, if_pos hindent]
  · rw [boundedAdd_eq (Nat.not_lt.1 hwidth), bind_ok]
    by_cases hindent : limit < width + 2 + (column - 1)
    · rw [boundedAdd_eq_error hindent, bind_error, if_pos hindent]
    · rw [boundedAdd_eq (Nat.not_lt.1 hindent), bind_ok, if_neg hindent]
      rfl

/-- The lines of a context, each taken by its index behind a test on the number of the line. -/
def contextByIndex (limit : Nat) (source : Source) (loc : Location) :
    Except Breakdown (List Line) :=
  if loc.line = 0 ∨ source.lines.size < loc.line then return []
  else do
    let index ← boundedSub loc.line 1
    let above ← source.lineAbove (toString loc.line).length index
    let text ← source.lineAt index
    let mark ← boundedCaretLine limit (toString loc.line).length loc.column
    let below ← source.lineBelow limit (toString loc.line).length index
    return above ++ [numberedLine .emphasis (toString loc.line).length loc.line text] ++ [mark] ++
      below

theorem contextByIndex_of_absent {limit : Nat} {source : Source} {loc : Location}
    (h : loc.line = 0 ∨ source.lines.size < loc.line) :
    contextByIndex limit source loc = .ok (contextLines source loc) := by
  rw [contextByIndex, if_pos h, contextLines, Source.line?_eq_none_iff.2 h]
  rfl

/-- Where there is a line, only the number of blanks before the mark may be too large. -/
theorem contextByIndex_of_present {limit : Nat} {source : Source} {loc : Location}
    (hsize : source.lines.size ≤ limit) (h : ¬(loc.line = 0 ∨ source.lines.size < loc.line)) :
    contextByIndex limit source loc =
      if limit < loc.indent then .error .outOfRange else .ok (contextLines source loc) := by
  obtain ⟨index, hindex⟩ : ∃ index, loc.line = index + 1 :=
    Nat.exists_eq_succ_of_ne_zero fun hzero => h (.inl hzero)
  have hlt : index < source.lines.size := by omega
  obtain ⟨text, htext⟩ : ∃ text, source.line? (index + 1) = some text :=
    Source.exists_line_iff.2 ⟨index.succ_pos, hlt⟩
  have hsub : boundedSub (index + 1) 1 = .ok index := boundedSub_eq index.succ_pos
  rw [contextByIndex, if_neg h, contextLines, Location.indent, hindex, hsub, bind_ok,
    Source.lineAbove_eq hlt, bind_ok, Source.lineAt_eq htext, bind_ok, boundedCaretLine_eq, htext]
  split
  · rw [bind_error]
  · rw [bind_ok, Source.lineBelow_eq hlt hsize, bind_ok]
    rfl

theorem contextByIndex_eq {limit : Nat} {source : Source} (hsize : source.lines.size ≤ limit)
    (loc : Location) :
    contextByIndex limit source loc =
      if (1 ≤ loc.line ∧ loc.line ≤ source.lines.size) ∧ limit < loc.indent then .error .outOfRange
      else .ok (contextLines source loc) := by
  by_cases habsent : loc.line = 0 ∨ source.lines.size < loc.line
  · rw [contextByIndex_of_absent habsent, if_neg (by omega)]
  · have hpresent : 1 ≤ loc.line ∧ loc.line ≤ source.lines.size := by omega
    simp only [contextByIndex_of_present hsize habsent, hpresent, and_self, true_and]

/-- The texts of diagnostics one after the other, with every context laid out by index. -/
def renderByIndex (limit : Nat) (write : Span → String) (source : Source) :
    List Diagnostic → Except Breakdown String
  | [] => return ""
  | d :: ds => do
      let context ← contextByIndex limit source d.loc
      let rest ← renderByIndex limit write source ds
      return writeLines write (d.header ++ context) ++ rest

theorem renderByIndex_eq {limit : Nat} {source : Source} (hsize : source.lines.size ≤ limit)
    (write : Span → String) {ds : List Diagnostic} (hindent : ∀ d ∈ ds, d.loc.indent ≤ limit) :
    renderByIndex limit write source ds =
      .ok (String.join (ds.map (Diagnostic.render write (some source)))) := by
  induction ds with
  | nil => rfl
  | cons d ds ih =>
      obtain ⟨hd, hds⟩ := List.forall_mem_cons.1 hindent
      have hcontext : contextByIndex limit source d.loc = .ok (contextLines source d.loc) := by
        rw [contextByIndex_eq hsize, if_neg fun hlt => Nat.not_lt.2 hd hlt.2]
      rw [renderByIndex, hcontext, bind_ok, ih hds, bind_ok, List.map_cons, String.join_cons]
      rfl

/-- A row of the context at a location is a line of the source behind its number, set flush right in
the width of the number of the location, or the mark behind blanks. -/
inductive RowOf (source : Source) (loc : Location) : Option Nat → List Char → Prop where
  | line {n : Nat} {line : String} : source.line? n = some line →
      RowOf source loc (some n)
        (List.replicate ((toString loc.line).length - (toString n).length + 2) ' ' ++
          (toString n).toList ++ ' ' :: line.toList)
  | mark : RowOf source loc none (List.replicate loc.indent ' ' ++ ['^'])

/-- The numbers of the lines around one of them, with the mark below it. -/
def linesAround (size n : Nat) : List (Option Nat) :=
  (if 1 < n then [some (n - 1)] else []) ++ [some n, none] ++
    if n < size then [some (n + 1)] else []

theorem rowOf_numbered {source : Source} {loc : Location} {n : Nat} {line : String}
    (h : source.line? n = some line) :
    RowOf source loc (some n) (numbered (toString loc.line).length n line) := by
  have hrow : numbered (toString loc.line).length n line =
      List.replicate ((toString loc.line).length - (toString n).length + 2) ' ' ++
        (toString n).toList ++ ' ' :: line.toList := by
    rw [numbered, gutter, toList_flushRight, Nat.add_comm, List.replicate_add]
    simp
  rw [hrow]
  exact .line h

namespace Diagnostic

theorem rowOf_neighbour {source : Source} {loc : Location} {n : Nat} {shown : Prop}
    [Decidable shown] (h : shown ↔ 0 < n ∧ n ≤ source.lines.size) :
    List.Forall₂ (RowOf source loc) (if shown then [some n] else [])
      (neighbour source (toString loc.line).length n) := by
  by_cases hshown : shown
  · obtain ⟨line, hline⟩ : ∃ line, source.line? n = some line :=
      Source.exists_line_iff.2 (h.1 hshown)
    rw [if_pos hshown, neighbour, hline]
    exact .cons (rowOf_numbered hline) .nil
  · have habsent : n = 0 ∨ source.lines.size < n := by
      rw [h] at hshown
      omega
    rw [if_neg hshown, neighbour, Source.line?_eq_none_iff.2 habsent]
    exact .nil

theorem context_of_absent {text : String} {d : Diagnostic}
    (h : d.loc.line = 0 ∨ (Source.ofText text).lines.size < d.loc.line) :
    d.context (Source.ofText text) = [] := by
  have hlines : contextLines (Source.ofText text) d.loc = [] := by
    rw [contextLines, Source.line?_eq_none_iff.2 h]
  rw [context, render_some, hlines, String.toList_append, ← String.length_toList, List.drop_left]
  rfl

theorem context_of_present {text : String} {d : Diagnostic}
    (h : ¬(d.loc.line = 0 ∨ (Source.ofText text).lines.size < d.loc.line)) :
    List.Forall₂ (RowOf (Source.ofText text) d.loc)
      (linesAround (Source.ofText text).lines.size d.loc.line)
      (d.context (Source.ofText text)) := by
  obtain ⟨line, hline⟩ : ∃ line, (Source.ofText text).line? d.loc.line = some line :=
    Source.exists_line_iff.2 (by omega)
  rw [context_eq hline rfl, linesAround]
  refine List.rel_append (List.rel_append ?_ ?_) ?_
  · exact rowOf_neighbour (by omega)
  · exact .cons (rowOf_numbered hline) (.cons .mark .nil)
  · exact rowOf_neighbour (by omega)

theorem context_eq_nil_iff {text : String} {d : Diagnostic} :
    d.context (Source.ofText text) = [] ↔
      d.loc.line = 0 ∨ (Source.ofText text).lines.size < d.loc.line := by
  refine ⟨fun hnil => ?_, context_of_absent⟩
  by_contra habsent
  have hlength := (context_of_present habsent).length_eq
  simp [hnil, linesAround] at hlength

end Diagnostic

/-- What a source adds to the text of a diagnostic at a line and a column. -/
def contextText (write : Span → String) (source : Source) (line column : Nat) : String :=
  writeLines write (contextLines source ⟨line, column, none⟩)

theorem render_eq_join (write : Span → String) (source : Source) (ds : Diagnostics) :
    ds.render write (some source) =
      String.join (ds.toList.map fun d =>
        d.render write none ++ contextText write source d.loc.line d.loc.column) := by
  have htext (d : Diagnostic) : d.render write (some source) =
      d.render write none ++ contextText write source d.loc.line d.loc.column :=
    d.render_some write source
  rw [Diagnostics.render, funext htext]

end Asl
