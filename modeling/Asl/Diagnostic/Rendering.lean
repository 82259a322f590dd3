import Asl.Diagnostic.Basic

/-!
# Rendering diagnostics

A diagnostic is laid out as lines of spans, and colour is a way of writing spans. Where
the source text is at hand and reaches the line in question, that line follows with a
mark below its column, between the lines before and after it. All line numbers are set
in the width of the number in question.
-/

namespace Asl

/-- A line feed ends a line, and one carriage return before it belongs to the break.
What follows the last line feed is a line only if it is not empty. -/
def sourceLines : List Char → List (List Char)
  | [] => []
  | '\n' :: rest => [] :: sourceLines rest
  | '\r' :: '\n' :: rest => [] :: sourceLines rest
  | c :: rest =>
      match sourceLines rest with
      | [] => [[c]]
      | line :: lines => (c :: line) :: lines

/-- A text cut into lines, which are counted from one. -/
structure Source where
  lines : Array String

namespace Source

def ofText (text : String) : Source :=
  ⟨((sourceLines text.toList).map String.ofList).toArray⟩

def line? (s : Source) : Nat → Option String
  | 0 => none
  | n + 1 => s.lines[n]?

theorem line?_eq_none_iff {s : Source} {n : Nat} :
    s.line? n = none ↔ n = 0 ∨ s.lines.size < n := by
  cases n with
  | zero => simp [line?]
  | succ n =>
      simp only [line?, Array.getElem?_eq_none_iff]
      omega

end Source

inductive Style where
  | alarm
  | emphasis
  | gutter
deriving DecidableEq

/-- The parameters that select a style on a terminal. -/
def Style.code : Style → String
  | alarm => "1;31"
  | emphasis => "1;34"
  | gutter => "34"

/-- A text between the sequence that selects a style on a terminal and the one that resets it. -/
def Style.wrap (style : Style) (text : String) : String :=
  "\x1b[" ++ style.code ++ "m" ++ text ++ "\x1b[0m"

structure Span where
  style : Option Style
  text : String
deriving DecidableEq

namespace Span

def plain (s : Span) : String := s.text

/-- A span with its text painted if it has a style. -/
def painted (paint : Style → String → String) (s : Span) : String :=
  s.style.elim s.text (paint · s.text)

def coloured : Span → String := painted Style.wrap

end Span

abbrev Line := List Span

/-- The lines of a layout, each ended by a line feed. -/
def writeLines (write : Span → String) (lines : List Line) : String :=
  String.join (lines.map fun line => String.join (line.map write) ++ "\n")

theorem writeLines_append (write : Span → String) (above below : List Line) :
    writeLines write (above ++ below) = writeLines write above ++ writeLines write below := by
  simp [writeLines, String.join_append]

def blanks (n : Nat) : String := String.ofList (List.replicate n ' ')

/-- A number set flush right; one that is too wide keeps all its digits. -/
def flushRight (width n : Nat) : String :=
  let digits := toString n
  blanks (width - digits.length) ++ digits

/-- A source line behind its number. -/
def numberedLine (style : Style) (width n : Nat) (text : String) : Line :=
  [⟨none, "  "⟩, ⟨some style, flushRight width n⟩, ⟨none, " " ++ text⟩]

def caretLine (width column : Nat) : Line :=
  [⟨none, blanks (width + 2 + (column - 1))⟩, ⟨some .alarm, "^"⟩]

def contextLines (source : Source) (loc : Location) : List Line :=
  match source.line? loc.line with
  | none => []
  | some text =>
      let width := (toString loc.line).length
      let neighbour n := (source.line? n).toList.map (numberedLine .gutter width n)
      neighbour (loc.line - 1) ++ [numberedLine .emphasis width loc.line text] ++
        [caretLine width loc.column] ++ neighbour (loc.line + 1)

namespace Diagnostic

def header (d : Diagnostic) : List Line :=
  [[⟨some .alarm, d.name⟩, ⟨none, ": " ++ d.message⟩],
    [⟨none, "  "⟩, ⟨some .emphasis, "-->"⟩, ⟨none, " " ++ d.loc.text⟩]]

def layout (source : Option Source) (d : Diagnostic) : List Line :=
  d.header ++ source.elim [] (contextLines · d.loc)

def render (write : Span → String) (source : Option Source) (d : Diagnostic) : String :=
  writeLines write (d.layout source)

end Diagnostic

def Diagnostics.render (write : Span → String) (source : Option Source) (ds : Diagnostics) :
    String :=
  String.join (ds.toList.map (Diagnostic.render write source))

end Asl
