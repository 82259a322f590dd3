import Asl.Proofs.Context

/-!
# Columns in a context

In a context every source line stands behind its number, and the mark stands under the line in
question. All numbers are set in the width of the number of that line. The number of the line before
is no wider, so the two lines begin at one position. The number of the line after is wider at a
power of ten, and then that line begins one position later. The blanks before the mark make up for
the width of the number and the two blanks in front of it, but not for the blank behind it, so the
mark is one position short of its column.
-/

namespace Asl

namespace Diagnostic

/-- The row of the context in which line `n` of the source is shown. The mark has the row under the
line in question. -/
def row (d : Diagnostic) (n : Nat) : Nat :=
  if n < d.loc.line then 0
  else if n = d.loc.line then min 1 (d.loc.line - 1)
  else min 1 (d.loc.line - 1) + 2

/-- Line `n` of the source stands in its row behind `p` characters. -/
def Shows (source : Source) (d : Diagnostic) (n p : Nat) : Prop :=
  ∃ line before, source.line? n = some line ∧ before.length = p ∧
    (d.context source)[d.row n]? = some (before ++ line.toList)

/-- The character in the column of the diagnostic stands in its row behind `p` characters. -/
def ColumnAt (source : Source) (d : Diagnostic) (p : Nat) : Prop :=
  ∃ line start, source.line? d.loc.line = some line ∧ 1 ≤ d.loc.column ∧
    d.loc.column ≤ line.length ∧ d.Shows source d.loc.line start ∧
      p = start + (d.loc.column - 1)

/-- The mark stands alone in its row behind `p` blanks. -/
def MarkAt (source : Source) (d : Diagnostic) (p : Nat) : Prop :=
  (d.context source)[d.row d.loc.line + 1]? = some (markAt p)

theorem Shows.unique {source : Source} {d : Diagnostic} {n p q : Nat} (hp : d.Shows source n p)
    (hq : d.Shows source n q) : p = q := by
  obtain ⟨line, before, hline, rfl, hrow⟩ := hp
  obtain ⟨line', before', hline', rfl, hrow'⟩ := hq
  obtain rfl : line = line' := Option.some.inj (hline.symm.trans hline')
  have hsame : before ++ line.toList = before' ++ line.toList :=
    Option.some.inj (hrow.symm.trans hrow')
  rw [List.append_cancel_right hsame]

theorem MarkAt.unique {source : Source} {d : Diagnostic} {p q : Nat} (hp : d.MarkAt source p)
    (hq : d.MarkAt source q) : p = q := by
  have hsame : markAt p = markAt q := Option.some.inj (hp.symm.trans hq)
  simpa [markAt] using congrArg List.length hsame

theorem shows_of_row {source : Source} {d : Diagnostic} {width n : Nat} {line : String}
    (hline : source.line? n = some line)
    (hrow : (d.context source)[d.row n]? = some (numbered width n line)) :
    d.Shows source n (max width (toString n).length + 3) :=
  ⟨line, gutter width n, hline, length_gutter width n, hrow⟩

section Rows

variable {text line : String} {d : Diagnostic}
  (hline : (Source.ofText text).line? d.loc.line = some line)

include hline

theorem exists_line_above (habove : 1 < d.loc.line) :
    ∃ shown, (Source.ofText text).line? (d.loc.line - 1) = some shown := by
  obtain ⟨-, hsize⟩ := Source.exists_line_iff.1 ⟨line, hline⟩
  exact Source.exists_line_iff.2 ⟨by omega, by omega⟩

theorem length_neighbour_above (width : Nat) :
    (neighbour (Source.ofText text) width (d.loc.line - 1)).length = min 1 (d.loc.line - 1) := by
  by_cases habove : 1 < d.loc.line
  · obtain ⟨shown, hshown⟩ := exists_line_above hline habove
    simp only [neighbour, hshown, Option.toList_some, List.map_cons, List.map_nil,
      List.length_singleton]
    omega
  · have hzero : d.loc.line - 1 = 0 := by omega
    simp [neighbour, hzero, Source.line?]

/-- The rows from the one of the line in question on. -/
theorem context_drop_eq {width : Nat} (hwidth : (toString d.loc.line).length = width) :
    (d.context (Source.ofText text)).drop (d.row d.loc.line) =
      numbered width d.loc.line line :: markAt (width + 2 + (d.loc.column - 1)) ::
        neighbour (Source.ofText text) width (d.loc.line + 1) := by
  have hrow : d.row d.loc.line =
      (neighbour (Source.ofText text) width (d.loc.line - 1)).length := by
    simp [row, length_neighbour_above hline]
  rw [context_eq hline hwidth, hrow, List.append_assoc, List.drop_left]
  rfl

theorem shows_line {width : Nat} (hwidth : (toString d.loc.line).length = width) :
    d.Shows (Source.ofText text) d.loc.line (width + 3) := by
  have hrow : (d.context (Source.ofText text))[d.row d.loc.line]? =
      some (numbered width d.loc.line line) := by
    rw [← List.head?_drop, context_drop_eq hline hwidth, List.head?_cons]
  have hshows := shows_of_row hline hrow
  rwa [hwidth, Nat.max_self] at hshows

theorem markAt_line {width : Nat} (hwidth : (toString d.loc.line).length = width) :
    d.MarkAt (Source.ofText text) (width + 2 + (d.loc.column - 1)) := by
  rw [MarkAt, ← List.getElem?_drop, context_drop_eq hline hwidth]
  rfl

theorem shows_above {width : Nat} (hwidth : (toString d.loc.line).length = width)
    (habove : 1 < d.loc.line) :
    d.Shows (Source.ofText text) (d.loc.line - 1) (width + 3) := by
  obtain ⟨shown, hshown⟩ := exists_line_above hline habove
  have hrow : (d.context (Source.ofText text))[d.row (d.loc.line - 1)]? =
      some (numbered width (d.loc.line - 1) shown) := by
    have hfirst : d.row (d.loc.line - 1) = 0 := if_pos (by omega)
    rw [hfirst, context_eq hline hwidth, neighbour, hshown]
    rfl
  have hnarrow : (toString (d.loc.line - 1)).length ≤ width :=
    hwidth ▸ length_toString_mono (Nat.sub_le _ 1)
  have hshows := shows_of_row hshown hrow
  rwa [Nat.max_eq_left hnarrow] at hshows

theorem shows_below {width : Nat} (hwidth : (toString d.loc.line).length = width)
    (hbelow : d.loc.line < (Source.ofText text).lines.size) :
    d.Shows (Source.ofText text) (d.loc.line + 1) ((toString (d.loc.line + 1)).length + 3) := by
  obtain ⟨shown, hshown⟩ : ∃ shown, (Source.ofText text).line? (d.loc.line + 1) = some shown :=
    Source.exists_line_iff.2 ⟨by omega, by omega⟩
  have hrow : (d.context (Source.ofText text))[d.row (d.loc.line + 1)]? =
      some (numbered width (d.loc.line + 1) shown) := by
    have hlast : d.row (d.loc.line + 1) = d.row d.loc.line + 2 := by simp [row]
    rw [hlast, ← List.getElem?_drop, context_drop_eq hline hwidth, neighbour, hshown]
    rfl
  have hwide : width ≤ (toString (d.loc.line + 1)).length :=
    hwidth ▸ length_toString_mono (Nat.le_succ _)
  have hshows := shows_of_row hshown hrow
  rwa [Nat.max_eq_right hwide] at hshows

end Rows

end Diagnostic

/-- The mark is one position short of the character in its column. -/
theorem mark_stands_one_short {text line : String} {d : Diagnostic}
    (hline : (Source.ofText text).line? d.loc.line = some line)
    (hfirst : 1 ≤ d.loc.column) (hlast : d.loc.column ≤ line.length) :
    ∃ p, d.ColumnAt (Source.ofText text) (p + 1) ∧ d.MarkAt (Source.ofText text) p := by
  refine ⟨_, ⟨line, _, hline, hfirst, hlast, Diagnostic.shows_line hline rfl, ?_⟩,
    Diagnostic.markAt_line hline rfl⟩
  omega

/-- The name at the end of an assignment is reported, and the mark is under the blank before it. -/
theorem mark_stands_before_a_name :
    let text := "func main()\n  x := y;\nendfunc"
    let d : Diagnostic := ⟨.undeclared "y", ⟨2, 8, none⟩⟩
    (Source.ofText text).line? d.loc.line = some "  x := y;" ∧ 1 ≤ d.loc.column ∧
      d.loc.column ≤ "  x := y;".length ∧
        ∃ p, d.ColumnAt (Source.ofText text) (p + 1) ∧ d.MarkAt (Source.ofText text) p := by
  intro text d
  have hline : (Source.ofText text).line? d.loc.line = some "  x := y;" := by decide +kernel
  exact ⟨hline, by decide, by decide, mark_stands_one_short hline (by decide) (by decide)⟩

/-- The name in column eight stands behind eleven characters and the mark behind ten. -/
theorem mark_may_miss_its_column :
    ¬∀ (text line : String) (d : Diagnostic),
      (Source.ofText text).line? d.loc.line = some line → 1 ≤ d.loc.column →
        d.loc.column ≤ line.length →
          ∃ p, d.ColumnAt (Source.ofText text) p ∧ d.MarkAt (Source.ofText text) p := by
  intro h
  let text := "func main()\n  x := y;\nendfunc"
  let d : Diagnostic := ⟨.undeclared "y", ⟨2, 8, none⟩⟩
  have hline : (Source.ofText text).line? d.loc.line = some "  x := y;" := by decide +kernel
  obtain ⟨p, ⟨line, start, -, -, -, hshows, hp⟩, hmark⟩ := h text _ d hline (by decide) (by decide)
  have hstart : start = 4 := hshows.unique (Diagnostic.shows_line hline (by decide +kernel))
  have hmarked : p = 10 := hmark.unique (Diagnostic.markAt_line hline (by decide +kernel))
  have hcolumn : d.loc.column = 8 := rfl
  omega

/-- A context begins its lines together unless the number of the last is a power of ten, and then
that line alone begins one position later. -/
theorem powers_of_ten_begin_later {text : String} {d : Diagnostic} (hfirst : 1 ≤ d.loc.line)
    (hlast : d.loc.line ≤ (Source.ofText text).lines.size) :
    ∃ p, d.Shows (Source.ofText text) d.loc.line p ∧
      (1 < d.loc.line → d.Shows (Source.ofText text) (d.loc.line - 1) p) ∧
        (d.loc.line < (Source.ofText text).lines.size →
          (∀ k, d.loc.line + 1 ≠ 10 ^ k) ∧ d.Shows (Source.ofText text) (d.loc.line + 1) p ∨
            (∃ k, d.loc.line + 1 = 10 ^ k) ∧
              d.Shows (Source.ofText text) (d.loc.line + 1) (p + 1)) := by
  obtain ⟨line, hline⟩ : ∃ line, (Source.ofText text).line? d.loc.line = some line :=
    Source.exists_line_iff.2 ⟨hfirst, hlast⟩
  refine ⟨_, Diagnostic.shows_line hline rfl, Diagnostic.shows_above hline rfl, fun hbelow => ?_⟩
  have hshows := Diagnostic.shows_below hline rfl hbelow
  obtain ⟨hwidth, hpower⟩ | ⟨hwidth, hpower⟩ := length_toString_succ hfirst
  · rw [hwidth] at hshows
    exact .inl ⟨hpower, hshows⟩
  · rw [hwidth, Nat.add_right_comm] at hshows
    exact .inr ⟨hpower, hshows⟩

/-- The ninth line of ten: the eighth begins with it, the tenth does not. -/
theorem tenth_line_begins_later :
    let text := "\n\n\n\n\n\n\n\nx := y;\nendfunc"
    let d : Diagnostic := ⟨.undeclared "y", ⟨9, 6, none⟩⟩
    1 ≤ d.loc.line ∧ d.loc.line ≤ (Source.ofText text).lines.size ∧
      ∃ p, d.Shows (Source.ofText text) 9 p ∧ d.Shows (Source.ofText text) 8 p ∧
        d.Shows (Source.ofText text) 10 (p + 1) := by
  intro text d
  have hlast : d.loc.line ≤ (Source.ofText text).lines.size := by decide +kernel
  obtain ⟨p, hline, habove, hbelow⟩ := powers_of_ten_begin_later (by decide) hlast
  obtain ⟨hpower, -⟩ | ⟨-, hlater⟩ := hbelow (by decide +kernel)
  · exact absurd rfl (hpower 1)
  · exact ⟨by decide, hlast, p, hline, habove (by decide), hlater⟩

/-- The text of the ninth line stands behind four characters, that of the tenth behind five. -/
theorem lines_may_begin_apart :
    ¬∀ (text : String) (d : Diagnostic),
      1 ≤ d.loc.line → d.loc.line ≤ (Source.ofText text).lines.size →
        ∃ p, d.Shows (Source.ofText text) d.loc.line p ∧
          (1 < d.loc.line → d.Shows (Source.ofText text) (d.loc.line - 1) p) ∧
            (d.loc.line < (Source.ofText text).lines.size →
              d.Shows (Source.ofText text) (d.loc.line + 1) p) := by
  intro h
  let text := "\n\n\n\n\n\n\n\nx := y;\nendfunc"
  let d : Diagnostic := ⟨.undeclared "y", ⟨9, 6, none⟩⟩
  have hline : (Source.ofText text).line? d.loc.line = some "x := y;" := by decide +kernel
  have hbelow : d.loc.line < (Source.ofText text).lines.size := by decide +kernel
  obtain ⟨p, hninth, -, htenth⟩ := h text d (by decide) (Nat.le_of_lt hbelow)
  have hnine : p = 4 := hninth.unique (Diagnostic.shows_line hline (by decide +kernel))
  have hten : p = (toString (d.loc.line + 1)).length + 3 :=
    (htenth hbelow).unique (Diagnostic.shows_below hline rfl hbelow)
  have hwidth : (toString (d.loc.line + 1)).length = 2 := by decide +kernel
  omega

end Asl
