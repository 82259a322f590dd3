import Asl.Diagnostic.Basic
import Asl.Fault
import Asl.Proofs.TypeText
import Mathlib.Data.List.Pairwise

/-!
# Messages are told by their texts

A message is a template that is filled with what it is about. Names and file names stand in it as
they are, quotes, digits and pieces of other messages included. No text fits two templates: where
the words before the filling do not tell them apart, those after it do. A filling is then read from
the side where the extent of a field is known, a number up to a character that is no digit and a
type up to its own end, and its last field is all that is left.
-/

namespace Asl

/-- The words of a message before its first field and after its last. -/
structure Template where
  opening : String
  closing : String
deriving DecidableEq

namespace Template

def fill (f : Template) (filling : String) : String := f.opening ++ filling ++ f.closing

theorem fill_empty (text : String) : (Template.mk text "").fill "" = text := by
  simp only [fill, String.append_empty]

/-- Neither opening begins with the other, or neither closing ends with the other. -/
def Apart (f g : Template) : Prop :=
  ¬(f.opening.toList <+: g.opening.toList ∨ g.opening.toList <+: f.opening.toList) ∨
    ¬(f.closing.toList <:+ g.closing.toList ∨ g.closing.toList <:+ f.closing.toList)

instance : DecidableRel Apart := fun _ _ => inferInstanceAs (Decidable (¬(_ ∨ _) ∨ ¬(_ ∨ _)))

instance : Std.Symm Apart where
  symm f g h := by simpa only [Apart, or_comm] using h

theorem opening_prefix (f : Template) (s : String) : f.opening.toList <+: (f.fill s).toList :=
  ⟨s.toList ++ f.closing.toList, by simp [fill]⟩

theorem closing_suffix (f : Template) (s : String) : f.closing.toList <:+ (f.fill s).toList :=
  ⟨f.opening.toList ++ s.toList, by simp [fill]⟩

theorem fill_ne_fill {f g : Template} (h : f.Apart g) (s t : String) :
    f.fill s ≠ g.fill t := by
  intro heq
  rcases h with hopening | hclosing
  · have hg : g.opening.toList <+: (f.fill s).toList := heq ▸ g.opening_prefix t
    exact hopening (List.prefix_or_prefix_of_prefix (f.opening_prefix s) hg)
  · have hg : g.closing.toList <:+ (f.fill s).toList := heq ▸ g.closing_suffix t
    exact hclosing (List.suffix_or_suffix_of_suffix (f.closing_suffix s) hg)

theorem fill_inj (f : Template) {s t : String} (h : f.fill s = f.fill t) : s = t := by
  rw [fill, fill, String.append_left_inj, String.append_right_inj] at h
  exact h

/-- Among templates that are all apart, a text gives its template and the filling. -/
theorem eq_of_fill_eq {templates : List Template} (hapart : templates.Pairwise Apart)
    {f g : Template} (hf : f ∈ templates) (hg : g ∈ templates) {s t : String}
    (h : f.fill s = g.fill t) : f = g ∧ s = t := by
  have hfg : f = g := by
    by_contra hne
    exact fill_ne_fill (hapart.forall hf hg hne) s t h
  subst hfg
  exact ⟨rfl, f.fill_inj h⟩

end Template

namespace Complaint

def template : Complaint → Template
  | undeclared _ => ⟨"Identifier '", "' is undeclared."⟩
  | redeclared _ => ⟨"Identifier '", "' already declared."⟩
  | notCallable _ => ⟨"Identifier '", "' is not callable."⟩
  | noValue _ => ⟨"Identifier '", "' is a procedure and does not return a value."⟩
  | argumentCount _ _ _ => ⟨"Call to '", "."⟩
  | argumentType _ _ => ⟨"Parameter #", "'."⟩
  | assignment _ _ => ⟨"Assignment with incompatible types: cannot store ", "."⟩
  | targetNotAddressable => ⟨"Left expression of assignment is not referenceable.", ""⟩
  | readNotAddressable => ⟨"Expression in 'read' is not referenceable.", ""⟩
  | conditionNotBool _ => ⟨"Instruction '", "' requires a boolean condition."⟩
  | notPrimitive _ => ⟨"Basic type required in '", "'."⟩
  | notArray => ⟨"Array access to a non array operand.", ""⟩
  | subscriptNotInt => ⟨"Array access with non integer index.", ""⟩
  | operandType _ => ⟨"Operator '", "' with incompatible types."⟩
  | result _ _ => ⟨"Return with incompatible type: expected ", "."⟩
  | entryPoint _ => ⟨"There is no '", "' function properly declared."⟩

/-- The fields and the words between them. -/
def filling : Complaint → String
  | undeclared name | redeclared name | notCallable name | noValue name | entryPoint name => name
  | argumentCount name expected found =>
      name ++ "' expects " ++ toString expected ++ " parameter(s), found " ++ toString found
  | argumentType callee position =>
      toString position ++ " with incompatible type in call to '" ++ callee
  | assignment expected found => found.text ++ " into " ++ expected.text
  | result expected found => expected.text ++ ", found " ++ found.text
  | conditionNotBool instruction | notPrimitive instruction => instruction
  | operandType operator => operator
  | targetNotAddressable | readNotAddressable | notArray | subscriptNotInt => ""

theorem message_eq_fill (k : Complaint) : k.message = k.template.fill k.filling := by
  cases k with
  | targetNotAddressable | readNotAddressable | notArray | subscriptNotInt =>
      exact (Template.fill_empty _).symm
  | argumentCount | argumentType | assignment | result =>
      unfold message template filling Template.fill
      simp only [String.append_assoc]
  | _ => rfl

/-- One complaint of each kind. -/
def kinds : List Complaint :=
  [undeclared "", redeclared "", notCallable "", noValue "", argumentCount "" 0 0,
    argumentType "" 0, assignment .error .error, targetNotAddressable, readNotAddressable,
    conditionNotBool "", notPrimitive "", notArray, subscriptNotInt, operandType "",
    result .error .error, entryPoint ""]

theorem template_mem_templates (k : Complaint) : k.template ∈ kinds.map template := by
  cases k <;> simp [kinds, template]

theorem templates_apart : (kinds.map template).Pairwise Template.Apart := by
  decide +kernel

/-- The counts are read from the right, since the name may hold anything. -/
theorem argumentCount_inj {name name' : String} {expected expected' found found' : Nat}
    (h : (argumentCount name expected found).filling =
      (argumentCount name' expected' found').filling) :
    name = name' ∧ expected = expected' ∧ found = found' := by
  have hchars (name : String) (expected found : Nat) :
      (argumentCount name expected found).filling.toList =
        ((name.toList ++ "' expects".toList) ++ ' ' :: (toString expected).toList) ++
          " parameter(s), found".toList ++ ' ' :: (toString found).toList := by
    simp [filling]
  have hlist := congrArg String.toList h
  rw [hchars, hchars] at hlist
  obtain ⟨hwords, hfound⟩ := append_toString_inj rfl hlist
  obtain ⟨hname, hexpected⟩ := append_toString_inj rfl (List.append_cancel_right hwords)
  exact ⟨String.toList_injective (List.append_cancel_right hname), hexpected, hfound⟩

/-- The position is read from the left. -/
theorem argumentType_inj {callee callee' : String} {position position' : Nat}
    (h : (argumentType callee position).filling = (argumentType callee' position').filling) :
    callee = callee' ∧ position = position' := by
  have hchars (callee : String) (position : Nat) :
      (argumentType callee position).filling.toList =
        (toString position).toList ++
          ' ' :: ("with incompatible type in call to '".toList ++ callee.toList) := by
    simp [filling]
  have hlist := congrArg String.toList h
  rw [hchars, hchars] at hlist
  obtain ⟨hposition, hcallee⟩ := toString_append_inj rfl hlist
  exact ⟨String.toList_injective (List.append_cancel_left hcallee), hposition⟩

theorem texts_inj {a b a' b' : Ty} {words : String}
    (h : a.text ++ words ++ b.text = a'.text ++ words ++ b'.text) : a = a' ∧ b = b' := by
  have hchars := congrArg String.toList h
  simp only [String.toList_append, List.append_assoc] at hchars
  obtain ⟨ha, hrest⟩ := a.text_append_inj a' hchars
  obtain ⟨hb, -⟩ := b.text_append_inj b' (u := []) (v := []) (by simpa using hrest)
  exact ⟨ha, hb⟩

theorem eq_of_filling_eq {k l : Complaint} (htemplate : k.template = l.template)
    (hfilling : k.filling = l.filling) : k = l := by
  -- Only complaints of one kind share a template, so sixteen pairs are left.
  cases k <;> cases l <;> try simp [template] at htemplate
  case argumentCount.argumentCount =>
      obtain ⟨rfl, rfl, rfl⟩ := argumentCount_inj hfilling
      rfl
  case argumentType.argumentType =>
      obtain ⟨rfl, rfl⟩ := argumentType_inj hfilling
      rfl
  case assignment.assignment =>
      obtain ⟨rfl, rfl⟩ := texts_inj hfilling
      rfl
  case result.result =>
      obtain ⟨rfl, rfl⟩ := texts_inj hfilling
      rfl
  all_goals simp_all [filling]

end Complaint

/-- Complaints with one message are of one kind and agree in all fields. -/
theorem message_determines_complaint {k l : Complaint} (h : k.message = l.message) : k = l := by
  rw [k.message_eq_fill, l.message_eq_fill] at h
  obtain ⟨htemplate, hfilling⟩ :=
    Template.eq_of_fill_eq Complaint.templates_apart k.template_mem_templates
      l.template_mem_templates h
  exact Complaint.eq_of_filling_eq htemplate hfilling

/-- A call of a function whose name goes on like the message about it. -/
theorem name_like_a_message_is_read_back :
    let tick : Function :=
      ⟨⟨0, .unknown⟩, ⟨⟨1, .unknown⟩, "tick' expects 1 parameter(s), found 7"⟩,
        [⟨⟨⟨2, .unknown⟩, "n"⟩, .basic .int⟩, ⟨⟨⟨3, .unknown⟩, "m"⟩, .basic .int⟩], none, [], []⟩
    let found : Complaint := .argumentCount tick.name.name tick.params.length 3
    let read : Complaint := .argumentCount "tick' expects 1 parameter(s), found 7" 2 3
    found.message =
        "Call to 'tick' expects 1 parameter(s), found 7' expects 2 parameter(s), found 3." ∧
      found.message = read.message ∧ found = read := by
  intro tick found read
  have hmessage : found.message = read.message := by decide +kernel
  exact ⟨by decide +kernel, hmessage, message_determines_complaint hmessage⟩

namespace Location

theorem toList_text_none (line column : Nat) :
    (Location.mk line column none).text.toList =
      (toString line).toList ++ ':' :: (toString column).toList := by
  simp [text]

theorem toList_text_some (line column : Nat) (file : String) :
    (Location.mk line column (some file)).text.toList =
      (file.toList ++ ':' :: (toString line).toList) ++ ':' :: (toString column).toList := by
  simp [text]

/-- Column and line are read from the right, and only a file name leaves another colon. -/
theorem text_inj {l m : Location} (h : l.text = m.text) : l = m := by
  obtain ⟨line, column, file⟩ := l
  obtain ⟨line', column', file'⟩ := m
  have hchars := congrArg String.toList h
  cases file with
  | none =>
      rw [toList_text_none] at hchars
      cases file' with
      | none =>
          rw [toList_text_none] at hchars
          obtain ⟨hline, rfl⟩ := append_toString_inj rfl hchars
          rw [eq_of_toList_toString_eq hline]
      | some file' =>
          rw [toList_text_some] at hchars
          obtain ⟨hline, -⟩ := append_toString_inj rfl hchars
          have hcolon : ':' ∈ (toString line).toList := by rw [hline]; simp
          exact absurd hcolon (notMem_toString rfl line)
  | some file =>
      rw [toList_text_some] at hchars
      cases file' with
      | none =>
          rw [toList_text_none] at hchars
          obtain ⟨hline, -⟩ := append_toString_inj rfl hchars
          have hcolon : ':' ∈ (toString line').toList := by rw [← hline]; simp
          exact absurd hcolon (notMem_toString rfl line')
      | some file' =>
          rw [toList_text_some] at hchars
          obtain ⟨hfront, rfl⟩ := append_toString_inj rfl hchars
          obtain ⟨hfile, rfl⟩ := append_toString_inj rfl hfront
          rw [String.toList_injective hfile]

end Location

theorem Field.text_inj {f g : Field} (h : f.text = g.text) : f = g := by
  cases f <;> cases g <;> simp_all [text]

namespace Fault

def template : Fault → Template
  | missing _ _ => ⟨"node #", " annotation"⟩
  | rewritten _ _ => ⟨"", " written twice"⟩
  | unknownScope _ => ⟨"scope ", " was never created by this symbol table"⟩
  | noActiveScope _ => ⟨"declaration of '", "' with no active scope"⟩
  | returnOutside _ => ⟨"return statement at ", " is outside of any function"⟩

def filling : Fault → String
  | missing node field => toString node ++ " has no " ++ field.text
  | rewritten node field => field.text ++ " annotation of node #" ++ toString node
  | unknownScope scope => toString scope
  | noActiveScope name => name
  | returnOutside loc => loc.text

theorem message_eq_fill (e : Fault) : e.message = e.template.fill e.filling := by
  cases e with
  | missing node field =>
      unfold message template filling Template.fill NodeId.text
      rw [← String.toList_inj]
      simp
  | rewritten node field =>
      unfold message template filling Template.fill NodeId.text
      rw [← String.toList_inj]
      simp
  | _ => rfl

/-- One fault of each kind. -/
def kinds : List Fault :=
  [missing 0 .scope, rewritten 0 .scope, unknownScope 0, noActiveScope "", returnOutside .unknown]

theorem template_mem_templates (e : Fault) : e.template ∈ kinds.map template := by
  cases e <;> simp [kinds, template]

theorem templates_apart : (kinds.map template).Pairwise Template.Apart := by
  decide +kernel

theorem missing_inj {node node' : NodeId} {field field' : Field}
    (h : (missing node field).filling = (missing node' field').filling) :
    node = node' ∧ field = field' := by
  have hchars (node : NodeId) (field : Field) :
      (missing node field).filling.toList =
        (toString node).toList ++ ' ' :: ("has no ".toList ++ field.text.toList) := by
    simp [filling]
  have hlist := congrArg String.toList h
  rw [hchars, hchars] at hlist
  obtain ⟨hnode, hfield⟩ := toString_append_inj rfl hlist
  exact ⟨hnode, Field.text_inj (String.toList_injective (List.append_cancel_left hfield))⟩

theorem rewritten_inj {node node' : NodeId} {field field' : Field}
    (h : (rewritten node field).filling = (rewritten node' field').filling) :
    node = node' ∧ field = field' := by
  have hchars (node : NodeId) (field : Field) :
      (rewritten node field).filling.toList =
        (field.text.toList ++ " annotation of node ".toList) ++ '#' :: (toString node).toList := by
    simp [filling]
  have hlist := congrArg String.toList h
  rw [hchars, hchars] at hlist
  obtain ⟨hfield, hnode⟩ := append_toString_inj rfl hlist
  exact ⟨hnode, Field.text_inj (String.toList_injective (List.append_cancel_right hfield))⟩

theorem eq_of_filling_eq {e f : Fault} (htemplate : e.template = f.template)
    (hfilling : e.filling = f.filling) : e = f := by
  cases e <;> cases f <;> try simp [template] at htemplate
  case missing.missing =>
      obtain ⟨rfl, rfl⟩ := missing_inj hfilling
      rfl
  case rewritten.rewritten =>
      obtain ⟨rfl, rfl⟩ := rewritten_inj hfilling
      rfl
  case unknownScope.unknownScope =>
      exact congrArg unknownScope (eq_of_toList_toString_eq (congrArg String.toList hfilling))
  case noActiveScope.noActiveScope => exact congrArg noActiveScope hfilling
  case returnOutside.returnOutside => exact congrArg returnOutside (Location.text_inj hfilling)

end Fault

/-- The same of faults, and of locations wherever they stand by themselves. -/
theorem message_determines_fault :
    (∀ e f : Fault, e.message = f.message → e = f) ∧
      ∀ l m : Location, l.text = m.text → l = m := by
  refine ⟨fun e f h => ?_, fun l m => Location.text_inj⟩
  rw [e.message_eq_fill, f.message_eq_fill] at h
  obtain ⟨htemplate, hfilling⟩ :=
    Template.eq_of_fill_eq Fault.templates_apart e.template_mem_templates f.template_mem_templates h
  exact Fault.eq_of_filling_eq htemplate hfilling

/-- A file whose name looks like a location, in a message and by itself. -/
theorem file_like_a_location_is_read_back :
    let file := toString 1 ++ ":" ++ toString 2
    let given : Location := ⟨3, 4, some file⟩
    let read : Location := ⟨3, 4, some "1:2"⟩
    (Fault.returnOutside given).message =
        "return statement at 1:2:3:4 is outside of any function" ∧
      (Fault.returnOutside given).message = (Fault.returnOutside read).message ∧
        Fault.returnOutside given = Fault.returnOutside read ∧
      given.text = read.text ∧ given = read := by
  intro file given read
  have hmessage : (Fault.returnOutside given).message = (Fault.returnOutside read).message := by
    decide +kernel
  have htext : given.text = read.text := by decide +kernel
  obtain ⟨hfaults, hlocations⟩ := message_determines_fault
  exact ⟨by decide +kernel, hmessage, hfaults _ _ hmessage, htext, hlocations _ _ htext⟩

end Asl
