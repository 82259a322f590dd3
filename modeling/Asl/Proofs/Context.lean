import Asl.Diagnostic.Rendering
import Asl.Proofs.Numeral

/-!
# The context of a diagnostic, read off its text

A diagnostic that is written without colour goes on with source lines where a source is at hand.
Here these lines are taken from the finished text: what a source adds to the text is cut at the
line feeds. The lines of a source hold none, so this gives back the lines as they were laid out, the
line before the one in question, that line, the mark, and the line after. The header is kept out of
this, since a name or a file name in it may hold line feeds of its own.
-/

namespace Asl

/-- The lines of a text in which a line feed ends each line. -/
def endedLines (text : List Char) : List (List Char) := (text.splitOn '\n').dropLast

theorem endedLines_append {line : List Char} (h : '\n' ∉ line) (rest : List Char) :
    endedLines (line ++ '\n' :: rest) = line :: endedLines rest := by
  rw [endedLines, List.splitOn_append_cons_self_of_not_mem h,
    List.dropLast_cons_of_ne_nil (List.splitOn_ne_nil _ _)]
  rfl

/-- A line of a layout as it is written without colour. -/
def plainText (line : Line) : List Char := (String.join (line.map Span.plain)).toList

theorem toList_writeLines_cons (line : Line) (lines : List Line) :
    (writeLines Span.plain (line :: lines)).toList =
      plainText line ++ '\n' :: (writeLines Span.plain lines).toList := by
  simp [writeLines, plainText]

theorem endedLines_writeLines {lines : List Line} (h : ∀ line ∈ lines, '\n' ∉ plainText line) :
    endedLines (writeLines Span.plain lines).toList = lines.map plainText := by
  induction lines with
  | nil => rfl
  | cons line lines ih =>
      have hline : '\n' ∉ plainText line := h line List.mem_cons_self
      have hlines : ∀ line ∈ lines, '\n' ∉ plainText line := fun line hmem =>
        h line (List.mem_cons_of_mem _ hmem)
      rw [toList_writeLines_cons, endedLines_append hline, ih hlines, List.map_cons]

theorem linefeed_notMem_sourceLines {text line : List Char} (h : line ∈ sourceLines text) :
    '\n' ∉ line := by
  fun_induction sourceLines text generalizing line with
  | case1 => simp at h
  | case2 rest ih =>
      obtain rfl | hrest := List.mem_cons.1 h
      · simp
      · exact ih hrest
  | case3 rest ih =>
      obtain rfl | hrest := List.mem_cons.1 h
      · simp
      · exact ih hrest
  | case4 c rest hfeed _ _ _ =>
      obtain rfl := List.mem_singleton.1 h
      simpa using fun hc : '\n' = c => hfeed hc.symm
  | case5 c rest hfeed _ first lines hlines ih =>
      obtain rfl | hmem := List.mem_cons.1 h
      · have hfirst : '\n' ∉ first := ih (by simp [hlines])
        simpa [hfirst] using fun hc : '\n' = c => hfeed hc.symm
      · exact ih (by simp [hlines, hmem])

namespace Source

theorem linefeed_notMem {text line : String} {n : Nat}
    (h : (ofText text).line? n = some line) : '\n' ∉ line.toList := by
  cases n with
  | zero => simp [line?] at h
  | succ n =>
      have hmem : line ∈ (sourceLines text.toList).map String.ofList := by
        simp only [line?, ofText, List.getElem?_toArray] at h
        exact List.mem_of_getElem? h
      obtain ⟨chars, hchars, rfl⟩ := List.mem_map.1 hmem
      rw [String.toList_ofList]
      exact linefeed_notMem_sourceLines hchars

theorem exists_line_iff {s : Source} {n : Nat} :
    (∃ line, s.line? n = some line) ↔ 0 < n ∧ n ≤ s.lines.size := by
  rw [← Option.ne_none_iff_exists', ne_eq, line?_eq_none_iff]
  omega

end Source

/-- What stands before a source line: two blanks, its number, and one more blank. -/
def gutter (width n : Nat) : List Char :=
  [' ', ' '] ++ (flushRight width n).toList ++ [' ']

/-- A source line behind its number. -/
def numbered (width n : Nat) (line : String) : List Char := gutter width n ++ line.toList

/-- The mark behind so many blanks. -/
def markAt (p : Nat) : List Char := List.replicate p ' ' ++ ['^']

theorem plainText_numberedLine (style : Style) (width n : Nat) (line : String) :
    plainText (numberedLine style width n line) = numbered width n line := by
  simp [plainText, numberedLine, numbered, gutter, Span.plain]

theorem plainText_caretLine (width column : Nat) :
    plainText (caretLine width column) = markAt (width + 2 + (column - 1)) := by
  simp [plainText, caretLine, markAt, blanks, Span.plain]

theorem toList_flushRight (width n : Nat) :
    (flushRight width n).toList =
      List.replicate (width - (toString n).length) ' ' ++ (toString n).toList := by
  simp only [flushRight, blanks, String.toList_append, String.toList_ofList]

theorem length_gutter (width n : Nat) :
    (gutter width n).length = max width (toString n).length + 3 := by
  rw [gutter, toList_flushRight]
  simp only [List.length_append, List.length_replicate, List.length_cons, List.length_nil,
    String.length_toList]
  omega

theorem linefeed_notMem_numbered {line : String} (h : '\n' ∉ line.toList) (width n : Nat) :
    '\n' ∉ numbered width n line := by
  have hnumber : '\n' ∉ (toString n).toList := notMem_toString rfl n
  rw [numbered, gutter, toList_flushRight]
  simp only [List.mem_append, List.mem_replicate, List.mem_cons, List.not_mem_nil, not_or]
  simp only [hnumber, h]
  simp

theorem linefeed_notMem_markAt (p : Nat) : '\n' ∉ markAt p := by
  simp [markAt]

namespace Diagnostic

/-- The lines that a source adds to the text of a diagnostic. -/
def context (source : Source) (d : Diagnostic) : List (List Char) :=
  endedLines ((d.render Span.plain (some source)).toList.drop (d.render Span.plain none).length)

theorem render_some (write : Span → String) (source : Source) (d : Diagnostic) :
    d.render write (some source) =
      d.render write none ++ writeLines write (contextLines source d.loc) := by
  simp [render, layout, writeLines_append]

/-- A source line as it is shown among others, or nothing where the source has no such line. -/
def neighbour (source : Source) (width n : Nat) : List (List Char) :=
  (source.line? n).toList.map (numbered width n)

theorem map_plainText_contextLines {source : Source} {loc : Location} {line : String}
    (hline : source.line? loc.line = some line) {width : Nat}
    (hwidth : (toString loc.line).length = width) :
    (contextLines source loc).map plainText =
      neighbour source width (loc.line - 1) ++
        [numbered width loc.line line, markAt (width + 2 + (loc.column - 1))] ++
          neighbour source width (loc.line + 1) := by
  simp only [contextLines, hline, hwidth, List.map_append, List.map_map, List.map_cons,
    Function.comp_def, plainText_numberedLine, plainText_caretLine, neighbour, List.append_assoc,
    List.cons_append, List.nil_append]

theorem linefeed_notMem_neighbour {text : String} {width n : Nat} {line : List Char}
    (h : line ∈ neighbour (Source.ofText text) width n) : '\n' ∉ line := by
  obtain ⟨shown, hshown, rfl⟩ := List.mem_map.1 h
  have hline : (Source.ofText text).line? n = some shown := Option.mem_toList.1 hshown
  exact linefeed_notMem_numbered (Source.linefeed_notMem hline) width n

/-- The line before, the line in question, the mark, and the line after. -/
theorem context_eq {text line : String} {d : Diagnostic}
    (hline : (Source.ofText text).line? d.loc.line = some line) {width : Nat}
    (hwidth : (toString d.loc.line).length = width) :
    d.context (Source.ofText text) =
      neighbour (Source.ofText text) width (d.loc.line - 1) ++
        [numbered width d.loc.line line, markAt (width + 2 + (d.loc.column - 1))] ++
          neighbour (Source.ofText text) width (d.loc.line + 1) := by
  have hlines := map_plainText_contextLines hline hwidth
  have hfeeds : ∀ shown ∈ contextLines (Source.ofText text) d.loc, '\n' ∉ plainText shown := by
    intro shown hshown
    have hmem : plainText shown ∈ (contextLines (Source.ofText text) d.loc).map plainText :=
      List.mem_map_of_mem hshown
    simp only [hlines, List.mem_append, List.mem_cons, List.not_mem_nil, or_false] at hmem
    obtain (habove | hnumbered | hmark) | hbelow := hmem
    · exact linefeed_notMem_neighbour habove
    · rw [hnumbered]
      exact linefeed_notMem_numbered (Source.linefeed_notMem hline) _ _
    · rw [hmark]
      exact linefeed_notMem_markAt _
    · exact linefeed_notMem_neighbour hbelow
  rw [context, render_some, String.toList_append, ← String.length_toList, List.drop_left,
    endedLines_writeLines hfeeds, hlines]

end Diagnostic

end Asl
