import Asl.Diagnostic.Rendering
import Asl.Proofs.Messages

/-!
# Colour changes nothing but colour

On a terminal a style is selected and reset by control sequences, and a span in colour is its text
between two of them. A reader that drops every control sequence from the finished text, without
knowing where spans begin and end, is left with the text as it is written without colour, provided
that no control character comes in from outside, with a name, a file name or a source line. The
spans are padded before they are coloured, so all lines are as wide as without colour.
-/

namespace Asl

/-- The character that begins a control sequence. -/
abbrev escape : Char := '\x1b'

mutual
/-- A text without its control sequences, each from an escape and a bracket to the next `m`. -/
def shown : List Char → List Char
  | [] => []
  | '\x1b' :: '[' :: text => afterParameters text
  | c :: text => c :: shown text
/-- The same from within the parameters of a control sequence. -/
def afterParameters : List Char → List Char
  | [] => []
  | 'm' :: text => shown text
  | _ :: text => afterParameters text
end

theorem afterParameters_append {parameters : List Char} (h : 'm' ∉ parameters) (rest : List Char) :
    afterParameters (parameters ++ 'm' :: rest) = shown rest := by
  induction parameters with
  | nil => rfl
  | cons c parameters ih =>
      obtain ⟨hc, hparameters⟩ := not_or.1 (mt List.mem_cons.2 h)
      rw [List.cons_append, afterParameters, ih hparameters]
      exact Ne.symm hc

/-- Whatever text comes after `s`, dropping the control sequences leaves `t` of it. -/
def Leaves (s t : String) : Prop :=
  ∀ rest, shown (s.toList ++ rest) = t.toList ++ shown rest

/-- No control sequence begins in the text. -/
def Unescaped (text : String) : Prop := escape ∉ text.toList

instance (text : String) : Decidable (Unescaped text) := inferInstanceAs (Decidable (_ ∉ _))

theorem unescaped_append {s t : String} : Unescaped (s ++ t) ↔ Unescaped s ∧ Unescaped t := by
  simp [Unescaped]

theorem unescaped_toString (n : Nat) : Unescaped (toString n) := notMem_toString rfl n

namespace Leaves

theorem shown_eq {s t : String} (h : Leaves s t) : shown s.toList = t.toList := by
  simpa [shown] using h []

theorem append {s s' t t' : String} (h : Leaves s t) (h' : Leaves s' t') :
    Leaves (s ++ s') (t ++ t') := by
  intro rest
  rw [String.toList_append, String.toList_append, List.append_assoc, List.append_assoc, h, h']

theorem of_unescaped {text : String} (h : Unescaped text) : Leaves text text := by
  intro rest
  -- the induction is on characters, and no character but the escape is read together with the next
  unfold Unescaped at h
  generalize text.toList = chars at h ⊢
  induction chars with
  | nil => rfl
  | cons c chars ih =>
      obtain ⟨hc, hchars⟩ := not_or.1 (mt List.mem_cons.2 h)
      rw [List.cons_append, shown, ih hchars]
      · rfl
      · rintro text rfl
        exact absurd rfl hc

theorem join_map {α : Type} {f g : α → String} {xs : List α} (h : ∀ x ∈ xs, Leaves (f x) (g x)) :
    Leaves (String.join (xs.map f)) (String.join (xs.map g)) := by
  induction xs with
  | nil => exact fun _ => rfl
  | cons x xs ih =>
      obtain ⟨hx, hxs⟩ := List.forall_mem_cons.1 h
      rw [List.map_cons, List.map_cons, String.join_cons, String.join_cons]
      exact hx.append (ih hxs)

/-- A control sequence by itself. -/
theorem sequence {parameters : String} (h : 'm' ∉ parameters.toList) :
    Leaves ("\x1b[" ++ parameters ++ "m") "" := by
  intro rest
  have hchars : ("\x1b[" ++ parameters ++ "m").toList ++ rest =
      '\x1b' :: '[' :: (parameters.toList ++ 'm' :: rest) := by simp
  rw [hchars, shown, afterParameters_append h]
  rfl

end Leaves

/-- A styled text is put between a sequence that selects a style and one that resets it. Of a text
that holds control characters of its own nothing is said. -/
def Wraps (paint : Style → String → String) : Prop :=
  ∀ style text, Unescaped text → ∃ parameters : String, 'm' ∉ parameters.toList ∧
    paint style text = "\x1b[" ++ parameters ++ "m" ++ text ++ "\x1b[0m"

theorem Style.wraps_wrap : Wraps wrap := fun style _ _ =>
  ⟨style.code, by cases style <;> decide, rfl⟩

namespace Span

theorem leaves_painted {paint : Style → String → String} (hpaint : Wraps paint) {s : Span}
    (hs : Unescaped s.text) : Leaves (s.painted paint) s.plain := by
  obtain ⟨style, text⟩ := s
  cases style with
  | none => exact .of_unescaped hs
  | some style =>
      obtain ⟨parameters, hparameters, htext⟩ := hpaint style text hs
      have hreset : Leaves "\x1b[0m" "" := @Leaves.sequence "0" (by decide)
      have hpainted := ((Leaves.sequence hparameters).append (.of_unescaped hs)).append hreset
      rw [← htext, String.empty_append, String.append_empty] at hpainted
      exact hpainted

end Span

namespace Ty

mutual
theorem unescaped_text : ∀ t : Ty, Unescaped t.text
  | .error | .void | .int | .float | .bool | .char => by decide
  | .array n t => by
      have ht := t.unescaped_text
      simp only [text, unescaped_append, unescaped_toString, ht, and_true]
      decide
  | .func ts t => by
      have hts := unescaped_textAll ts
      have ht := t.unescaped_text
      simp only [text, unescaped_append, hts, ht, and_true]
      decide
theorem unescaped_textAll : ∀ ts : List Ty, Unescaped (textAll ts)
  | [] => by decide
  | [t] => t.unescaped_text
  | t :: t' :: ts => by
      have ht := t.unescaped_text
      have hts := unescaped_textAll (t' :: ts)
      simp only [textAll, unescaped_append, hts, ht, and_true, true_and]
      decide
end

end Ty

namespace Complaint

/-- The words in a complaint that are not its own: names, instructions and operators. -/
def words : Complaint → List String
  | undeclared name | redeclared name | notCallable name | noValue name | entryPoint name => [name]
  | argumentCount name _ _ | argumentType name _ => [name]
  | conditionNotBool instruction | notPrimitive instruction => [instruction]
  | operandType operator => [operator]
  | assignment _ _ | result _ _ => []
  | targetNotAddressable | readNotAddressable | notArray | subscriptNotInt => []

theorem unescaped_name (k : Complaint) : Unescaped k.name := by
  cases k <;> (rw [name]; decide)

theorem unescaped_templates :
    ∀ f ∈ kinds.map template, Unescaped f.opening ∧ Unescaped f.closing := by
  decide +kernel

theorem unescaped_filling {k : Complaint} (h : ∀ word ∈ k.words, Unescaped word) :
    Unescaped k.filling := by
  cases k with
  | argumentCount name expected found =>
      have hname : Unescaped name := List.forall_mem_singleton.1 h
      simp only [filling, unescaped_append, unescaped_toString, hname, and_true, true_and]
      decide
  | argumentType callee position =>
      have hcallee : Unescaped callee := List.forall_mem_singleton.1 h
      simp only [filling, unescaped_append, unescaped_toString, hcallee, and_true, true_and]
      decide
  | assignment expected found | result expected found =>
      simp only [filling, unescaped_append, Ty.unescaped_text, and_true, true_and]
      decide
  | targetNotAddressable | readNotAddressable | notArray | subscriptNotInt =>
      rw [filling]
      decide
  | _ => exact List.forall_mem_singleton.1 h

theorem unescaped_message {k : Complaint} (h : ∀ word ∈ k.words, Unescaped word) :
    Unescaped k.message := by
  obtain ⟨hopening, hclosing⟩ := unescaped_templates k.template k.template_mem_templates
  rw [k.message_eq_fill, Template.fill, unescaped_append, unescaped_append]
  exact ⟨⟨hopening, unescaped_filling h⟩, hclosing⟩

end Complaint

/-- No control sequence begins in a name, in an instruction or operator, or in the file name. -/
structure Diagnostic.FreeOfEscapes (d : Diagnostic) : Prop where
  words : ∀ word ∈ d.complaint.words, Unescaped word
  file : ∀ file ∈ d.loc.file, Unescaped file

def Source.FreeOfEscapes (s : Source) : Prop := ∀ line ∈ s.lines, Unescaped line

instance (s : Source) : Decidable s.FreeOfEscapes :=
  inferInstanceAs (Decidable (∀ line ∈ s.lines, Unescaped line))

theorem Location.unescaped_text {l : Location} (h : ∀ file ∈ l.file, Unescaped file) :
    Unescaped l.text := by
  obtain ⟨line, column, file⟩ := l
  cases file with
  | none =>
      simp only [text, unescaped_append, unescaped_toString, and_true, true_and]
      decide
  | some file =>
      have hfile : Unescaped file := h file rfl
      simp only [text, unescaped_append, unescaped_toString, hfile, and_true, true_and]
      decide

theorem unescaped_blanks (n : Nat) : Unescaped (blanks n) := by
  intro hmem
  rw [blanks, String.toList_ofList] at hmem
  exact absurd (List.eq_of_mem_replicate hmem) (by decide)

theorem unescaped_flushRight (width n : Nat) : Unescaped (flushRight width n) :=
  unescaped_append.2 ⟨unescaped_blanks _, unescaped_toString n⟩

theorem Source.FreeOfEscapes.unescaped {s : Source} (hs : s.FreeOfEscapes) {n : Nat}
    {line : String} (hline : s.line? n = some line) : Unescaped line := by
  cases n with
  | zero => cases hline
  | succ n => exact hs line (Array.mem_of_getElem? hline)

/-- Only spans without control sequences stand in the line. -/
def Line.FreeOfEscapes (line : Line) : Prop := ∀ span ∈ line, Unescaped span.text

theorem Line.FreeOfEscapes.leaves {line : Line} (hline : line.FreeOfEscapes)
    {paint : Style → String → String} (hpaint : Wraps paint) :
    Leaves (String.join (line.map (Span.painted paint))) (String.join (line.map Span.plain)) :=
  .join_map fun span hspan => Span.leaves_painted hpaint (hline span hspan)

theorem freeOfEscapes_numberedLine {line : String} (hline : Unescaped line) (style : Style)
    (width n : Nat) : (numberedLine style width n line).FreeOfEscapes := by
  have htext : Unescaped (" " ++ line) := unescaped_append.2 ⟨by decide, hline⟩
  have hnumber := unescaped_flushRight width n
  simp only [numberedLine, Line.FreeOfEscapes, List.forall_mem_cons, htext, hnumber, true_and]
  exact ⟨by decide, List.forall_mem_nil _⟩

theorem freeOfEscapes_contextLines {source : Source} (hsource : source.FreeOfEscapes)
    (loc : Location) : ∀ line ∈ contextLines source loc, line.FreeOfEscapes := by
  have hneighbour (width n : Nat) :
      ∀ line ∈ (source.line? n).toList.map (numberedLine .gutter width n), line.FreeOfEscapes := by
    intro line hline
    obtain ⟨text, htext, rfl⟩ := List.mem_map.1 hline
    exact freeOfEscapes_numberedLine (hsource.unescaped (Option.mem_toList.1 htext)) _ _ _
  intro line hline
  rw [contextLines] at hline
  cases htext : source.line? loc.line with
  | none => simp [htext] at hline
  | some text =>
      simp only [htext, List.mem_append, List.mem_singleton] at hline
      obtain ((habove | rfl) | rfl) | hbelow := hline
      · exact hneighbour _ _ line habove
      · exact freeOfEscapes_numberedLine (hsource.unescaped htext) _ _ _
      · simp only [caretLine, Line.FreeOfEscapes, List.forall_mem_cons, unescaped_blanks, true_and]
        exact ⟨by decide, List.forall_mem_nil _⟩
      · exact hneighbour _ _ line hbelow

namespace Diagnostic.FreeOfEscapes

variable {d : Diagnostic}

theorem header (hd : d.FreeOfEscapes) : ∀ line ∈ d.header, line.FreeOfEscapes := by
  have hname : Unescaped d.name := d.complaint.unescaped_name
  have hmessage : Unescaped (": " ++ d.message) :=
    unescaped_append.2 ⟨by decide, Complaint.unescaped_message hd.words⟩
  have hloc : Unescaped (" " ++ d.loc.text) :=
    unescaped_append.2 ⟨by decide, Location.unescaped_text hd.file⟩
  simp only [Diagnostic.header, Line.FreeOfEscapes, List.forall_mem_cons, hname, hmessage, hloc,
    true_and]
  decide

theorem layout (hd : d.FreeOfEscapes) {source : Option Source}
    (hsource : ∀ s ∈ source, s.FreeOfEscapes) :
    ∀ line ∈ d.layout source, line.FreeOfEscapes := by
  intro line hline
  rw [Diagnostic.layout, List.mem_append] at hline
  obtain hheader | hcontext := hline
  · exact hd.header line hheader
  · cases source with
    | none => cases hcontext
    | some s => exact freeOfEscapes_contextLines (hsource s rfl) d.loc line hcontext

theorem leaves_render (hd : d.FreeOfEscapes) {source : Option Source}
    (hsource : ∀ s ∈ source, s.FreeOfEscapes) {paint : Style → String → String}
    (hpaint : Wraps paint) :
    Leaves (d.render (Span.painted paint) source) (d.render Span.plain source) := by
  rw [Diagnostic.render, Diagnostic.render, writeLines, writeLines]
  refine .join_map fun line hline => .append ?_ ?_
  · exact (hd.layout hsource line hline).leaves hpaint
  · exact .of_unescaped (by decide)

end Diagnostic.FreeOfEscapes

/-- Whichever parameters select the styles, dropping the control sequences leaves the text without
colour, of all diagnostics and of each of their lines, as long as no such sequence begins in what
comes in from outside. -/
theorem colour_leaves_plain_text {paint : Style → String → String} (hpaint : Wraps paint)
    {source : Option Source} (hsource : ∀ s ∈ source, s.FreeOfEscapes) {ds : Diagnostics}
    (hds : ∀ d ∈ ds.toList, d.FreeOfEscapes) :
    shown (ds.render (Span.painted paint) source).toList =
        (ds.render Span.plain source).toList ∧
      ∀ d ∈ ds.toList, ∀ line ∈ d.layout source,
        shown (String.join (line.map (Span.painted paint))).toList =
          (String.join (line.map Span.plain)).toList := by
  have hleaves : Leaves (ds.render (Span.painted paint) source) (ds.render Span.plain source) :=
    .join_map fun d hd => (hds d hd).leaves_render hsource hpaint
  refine ⟨hleaves.shown_eq, fun d hd line hline => ?_⟩
  exact (((hds d hd).layout hsource line hline).leaves hpaint).shown_eq

/-- A diagnostic with a file name and a source, as a terminal shows it. -/
theorem coloured_name_is_read_without_colour :
    let source := Source.ofText "func main()\n  x := y;\nendfunc"
    let ds : Diagnostics := ⟨#[⟨.undeclared "y", ⟨2, 8, some "m"⟩⟩]⟩
    Wraps Style.wrap ∧ source.FreeOfEscapes ∧ (∀ d ∈ ds.toList, d.FreeOfEscapes) ∧
      ds.render Span.coloured (some source) ≠ ds.render Span.plain (some source) ∧
      shown (ds.render Span.coloured (some source)).toList =
        (ds.render Span.plain (some source)).toList := by
  intro source ds
  have hsource : source.FreeOfEscapes := by decide +kernel
  have hds : ∀ d ∈ ds.toList, d.FreeOfEscapes := by
    intro d hd
    obtain rfl := List.mem_singleton.1 hd
    exact ⟨by decide, by decide⟩
  have hsome : ∀ s ∈ some source, s.FreeOfEscapes := fun s hs => Option.some.inj hs ▸ hsource
  obtain ⟨hshown, -⟩ := colour_leaves_plain_text Style.wraps_wrap hsome hds
  exact ⟨Style.wraps_wrap, hsource, hds, by decide +kernel, hshown⟩

end Asl
