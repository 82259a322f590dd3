import Asl.Proofs.Numeral
import Asl.Ty.Conversion

/-!
# Types are told by their texts

No two types have the same text, and the text of one never begins that of another. So wherever a
text holds the text of a type, it is clear which type that is and where its text ends. The first
character tells the form of a type, a size ends at the character that is no digit, and a parameter
is followed by a comma or by the bracket that closes the list.
-/

namespace Asl

namespace Ty

/-- The first character of the text. -/
def initial : Ty → Char
  | .error => 'e'
  | .void => 'v'
  | .int => 'i'
  | .float => 'f'
  | .bool => 'b'
  | .char => 'c'
  | .array _ _ => 'a'
  | .func _ _ => '('

theorem toList_text_array (n : Nat) (t : Ty) (u : List Char) :
    (array n t).text.toList ++ u =
      "array<".toList ++ ((toString n).toList ++ ',' :: (t.text.toList ++ '>' :: u)) := by
  simp [text]

theorem toList_text_func (ts : List Ty) (t : Ty) (u : List Char) :
    (func ts t).text.toList ++ u =
      '(' :: ((textAll ts).toList ++ ')' :: '-' :: '>' :: (t.text.toList ++ u)) := by
  simp [text]

/-- What follows a parameter in a list: the bracket, or a comma and the others. -/
def afterParam : List Ty → List Char → List Char
  | [], u => ')' :: u
  | t :: ts, u => ',' :: ((textAll (t :: ts)).toList ++ ')' :: u)

theorem toList_textAll_cons (t : Ty) (ts : List Ty) (u : List Char) :
    (textAll (t :: ts)).toList ++ ')' :: u = t.text.toList ++ afterParam ts u := by
  cases ts <;> simp [textAll, afterParam]

theorem exists_text_eq_cons (t : Ty) : ∃ rest, t.text.toList = t.initial :: rest := by
  cases t with
  | array n t =>
      have htext := toList_text_array n t []
      rw [List.append_nil] at htext
      exact ⟨_, htext⟩
  | func ts t =>
      have htext := toList_text_func ts t []
      rw [List.append_nil] at htext
      exact ⟨_, htext⟩
  | _ => exact ⟨_, rfl⟩

theorem initial_eq_of_text_append {a b : Ty} {u v : List Char}
    (h : a.text.toList ++ u = b.text.toList ++ v) : a.initial = b.initial := by
  obtain ⟨x, ha⟩ := a.exists_text_eq_cons
  obtain ⟨y, hb⟩ := b.exists_text_eq_cons
  rw [ha, hb] at h
  exact (List.cons.inj h).1

/-- A type without parts is told by the first character alone. -/
theorem eq_of_initial_eq {a b : Ty} (harray : a.isArray = false) (hfunc : a.isFunction = false)
    (h : a.initial = b.initial) : a = b := by
  cases a <;> cases b <;> simp_all [initial, isArray, isFunction]

theorem text_append_ne_bracket (t : Ty) (u v : List Char) : t.text.toList ++ u ≠ ')' :: v := by
  obtain ⟨rest, ht⟩ := t.exists_text_eq_cons
  rw [ht]
  intro h
  have hbracket : t.initial = ')' := (List.cons.inj h).1
  cases t <;> simp [initial] at hbracket

mutual
/-- A type and what follows its text are found from the two together. -/
theorem text_append_inj : ∀ (a b : Ty) {u v : List Char},
    a.text.toList ++ u = b.text.toList ++ v → a = b ∧ u = v
  | .array m a, b, u, v, h => by
      have hinitial := initial_eq_of_text_append h
      cases b with
      | array n b =>
          rw [toList_text_array, toList_text_array] at h
          obtain ⟨rfl, helement⟩ := toString_append_inj rfl (List.append_cancel_left h)
          obtain ⟨rfl, hrest⟩ := text_append_inj a b helement
          exact ⟨rfl, (List.cons.inj hrest).2⟩
      | _ => simp [initial] at hinitial
  | .func as a, b, u, v, h => by
      have hinitial := initial_eq_of_text_append h
      cases b with
      | func bs b =>
          rw [toList_text_func, toList_text_func] at h
          obtain ⟨rfl, harrow⟩ := textAll_append_inj as bs (List.cons.inj h).2
          have hresult : a.text.toList ++ u = b.text.toList ++ v :=
            (List.cons.inj (List.cons.inj harrow).2).2
          obtain ⟨rfl, hrest⟩ := text_append_inj a b hresult
          exact ⟨rfl, hrest⟩
      | _ => simp [initial] at hinitial
  | .error, b, u, v, h | .void, b, u, v, h | .int, b, u, v, h | .float, b, u, v, h
  | .bool, b, u, v, h | .char, b, u, v, h => by
      obtain rfl := eq_of_initial_eq rfl rfl (initial_eq_of_text_append h)
      exact ⟨rfl, List.append_cancel_left h⟩
/-- A list of parameters ends at the bracket. -/
theorem textAll_append_inj : ∀ (as bs : List Ty) {u v : List Char},
    (textAll as).toList ++ ')' :: u = (textAll bs).toList ++ ')' :: v → as = bs ∧ u = v
  | [], [], u, v, h => ⟨rfl, (List.cons.inj h).2⟩
  | [], b :: bs, u, v, h => by
      rw [toList_textAll_cons] at h
      exact absurd h.symm (b.text_append_ne_bracket _ u)
  | a :: as, [], u, v, h => by
      rw [toList_textAll_cons] at h
      exact absurd h (a.text_append_ne_bracket _ v)
  | a :: as, b :: bs, u, v, h => by
      rw [toList_textAll_cons, toList_textAll_cons] at h
      obtain ⟨rfl, hafter⟩ := text_append_inj a b h
      cases as with
      | nil =>
          cases bs with
          | nil => exact ⟨rfl, (List.cons.inj hafter).2⟩
          | cons b' bs => simp [afterParam] at hafter
      | cons a' as =>
          cases bs with
          | nil => simp [afterParam] at hafter
          | cons b' bs =>
              obtain ⟨hparams, hrest⟩ :=
                textAll_append_inj (a' :: as) (b' :: bs) (List.cons.inj hafter).2
              exact ⟨congrArg (a :: ·) hparams, hrest⟩
end

end Ty

/-- Types are the same if their texts are, if the text of one begins that of the other, and if both
texts begin at one place of a text. There the rest of the text is the same as well. -/
theorem text_determines_type :
    (∀ a b : Ty, a.text = b.text → a = b) ∧
      (∀ a b : Ty, a.text.toList <+: b.text.toList → a = b) ∧
        ∀ (a b : Ty) (before after after' : String),
          before ++ a.text ++ after = before ++ b.text ++ after' → a = b ∧ after = after' := by
  refine ⟨fun a b h => ?_, fun a b h => ?_, fun a b before after after' h => ?_⟩
  · have hchars : a.text.toList ++ [] = b.text.toList ++ [] := by rw [h]
    exact (a.text_append_inj b hchars).1
  · obtain ⟨rest, hrest⟩ := h
    have hchars : a.text.toList ++ rest = b.text.toList ++ [] := by rw [hrest, List.append_nil]
    exact (a.text_append_inj b hchars).1
  · rw [String.append_assoc, String.append_assoc, String.append_right_inj] at h
    have hchars : a.text.toList ++ after.toList = b.text.toList ++ after'.toList := by
      rw [← String.toList_append, h, String.toList_append]
    obtain ⟨hab, hafter⟩ := a.text_append_inj b hchars
    exact ⟨hab, String.toList_injective hafter⟩

/-- A type that takes arrays of two sizes and gives the signature of a procedure, in a message. -/
theorem nested_type_is_read_back :
    let tick : Function := ⟨⟨0, .unknown⟩, ⟨⟨1, .unknown⟩, "tick"⟩, [], none, [], []⟩
    let given : Ty := .func ([12, 1].map (Ty.array · .int)) tick.signature
    let read : Ty := .func [.array 12 .int, .array 1 .int] (.func [] .void)
    given.text = "(array<12,int>,array<1,int>)->()->void" ∧
      "expected " ++ given.text ++ (", found " ++ Ty.int.text) =
        "expected " ++ read.text ++ ", found int" ∧
      given = read ∧ ", found " ++ Ty.int.text = ", found int" := by
  intro tick given read
  have hmessage : "expected " ++ given.text ++ (", found " ++ Ty.int.text) =
      "expected " ++ read.text ++ ", found int" := by decide +kernel
  obtain ⟨-, -, hinside⟩ := text_determines_type
  exact ⟨by decide +kernel, hmessage, hinside given read _ _ _ hmessage⟩

end Asl
