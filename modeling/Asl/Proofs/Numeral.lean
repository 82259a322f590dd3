import Mathlib.Algebra.Group.Nat.Defs
import Mathlib.Data.List.Basic

/-!
# Numbers in texts

A number is written in decimal digits, without a sign and without leading zeros. Next to a character
that is no digit it can be read back, whatever else the text holds: at the front of a text it ends
at the first such character, at the end of a text it begins after the last. Its width grows with the
number, and from one number to the next it grows exactly at the powers of ten.
-/

namespace Asl

theorem notMem_toString {c : Char} (hc : c.isDigit = false) (n : Nat) :
    c ∉ (toString n).toList := by
  intro hmem
  rw [Nat.toString_eq_repr, Nat.toList_repr] at hmem
  have hdigit : c.isDigit = true := Nat.isDigit_of_mem_toDigits (by decide) (by decide) hmem
  simp [hc] at hdigit

theorem eq_of_toList_toString_eq {m n : Nat} (h : (toString m).toList = (toString n).toList) :
    m = n := by
  have hread := congrArg (Nat.ofDigitChars 10 · 0) h
  simpa [Nat.toString_eq_ofList_toDigits] using hread

/-- A text is cut at the last place of a character by what follows there. -/
theorem eq_of_append_cons {c : Char} {u v s t : List Char} (hs : c ∉ s) (ht : c ∉ t)
    (h : u ++ c :: s = v ++ c :: t) : u = v ∧ s = t := by
  obtain ⟨w, rfl, hw⟩ | ⟨w, rfl, hw⟩ := List.append_eq_append_iff.1 h
  · cases w with
    | nil => exact ⟨(List.append_nil u).symm, (List.cons.inj hw).2⟩
    | cons d w =>
        have hmem : c ∈ s := by simp [(List.cons.inj hw).2]
        exact absurd hmem hs
  · cases w with
    | nil => exact ⟨List.append_nil v, (List.cons.inj hw).2.symm⟩
    | cons d w =>
        have hmem : c ∈ t := by simp [(List.cons.inj hw).2]
        exact absurd hmem ht

/-- A number begins after the last character that is no digit. -/
theorem append_toString_inj {c : Char} (hc : c.isDigit = false) {u v : List Char} {m n : Nat}
    (h : u ++ c :: (toString m).toList = v ++ c :: (toString n).toList) : u = v ∧ m = n := by
  obtain ⟨huv, hmn⟩ := eq_of_append_cons (notMem_toString hc m) (notMem_toString hc n) h
  exact ⟨huv, eq_of_toList_toString_eq hmn⟩

/-- A number ends where a character follows that is no digit. -/
theorem toString_append_inj {m n : Nat} {c : Char} (hc : c.isDigit = false) {u v : List Char}
    (h : (toString m).toList ++ c :: u = (toString n).toList ++ c :: v) : m = n ∧ u = v := by
  have hreverse : u.reverse ++ c :: (toString m).toList.reverse =
      v.reverse ++ c :: (toString n).toList.reverse := by
    simpa only [List.reverse_append, List.reverse_cons, List.append_assoc,
      List.singleton_append] using congrArg List.reverse h
  have hnotMem (k : Nat) : c ∉ (toString k).toList.reverse := by
    rw [List.mem_reverse]
    exact notMem_toString hc k
  obtain ⟨huv, hmn⟩ := eq_of_append_cons (hnotMem m) (hnotMem n) hreverse
  exact ⟨eq_of_toList_toString_eq (List.reverse_injective hmn), List.reverse_injective huv⟩

theorem length_toString_le_iff {n k : Nat} (hk : 0 < k) :
    (toString n).length ≤ k ↔ n < 10 ^ k := by
  rw [Nat.toString_eq_repr]
  exact Nat.length_repr_le_iff hk

theorem length_toString_pos (n : Nat) : 0 < (toString n).length := by
  rw [Nat.toString_eq_repr]
  exact Nat.length_repr_pos

theorem length_toString_mono {m n : Nat} (h : m ≤ n) :
    (toString m).length ≤ (toString n).length := by
  have hfits : n < 10 ^ (toString n).length :=
    (length_toString_le_iff (length_toString_pos n)).1 (Nat.le_refl _)
  exact (length_toString_le_iff (length_toString_pos n)).2 (Nat.lt_of_le_of_lt h hfits)

/-- A power of ten is the first number of its width. -/
theorem length_toString_succ {n : Nat} (hn : 0 < n) :
    (toString (n + 1)).length = (toString n).length ∧ (∀ k, n + 1 ≠ 10 ^ k) ∨
      (toString (n + 1)).length = (toString n).length + 1 ∧ ∃ k, n + 1 = 10 ^ k := by
  obtain ⟨w, hw⟩ : ∃ w, (toString n).length = w + 1 :=
    Nat.exists_eq_add_one.2 (length_toString_pos n)
  have hbelow : n < 10 ^ (w + 1) := (length_toString_le_iff w.succ_pos).1 (Nat.le_of_eq hw)
  have habove : 10 ^ w ≤ n := by
    cases w with
    | zero => exact hn
    | succ w =>
        have hwide : ¬(toString n).length ≤ w + 1 := by omega
        rw [length_toString_le_iff w.succ_pos] at hwide
        omega
  rw [hw]
  obtain hlt | heq : n + 1 < 10 ^ (w + 1) ∨ n + 1 = 10 ^ (w + 1) := by omega
  · left
    have hle : (toString (n + 1)).length ≤ w + 1 := (length_toString_le_iff w.succ_pos).2 hlt
    have hge : (toString n).length ≤ (toString (n + 1)).length := length_toString_mono n.le_succ
    refine ⟨by omega, fun k hk => ?_⟩
    have hlow : 10 ^ w < 10 ^ k := by omega
    have hhigh : 10 ^ k < 10 ^ (w + 1) := by omega
    rw [Nat.pow_lt_pow_iff_right (by decide)] at hlow hhigh
    omega
  · right
    have hle : (toString (n + 1)).length ≤ w + 2 := by
      rw [length_toString_le_iff (w + 1).succ_pos, heq]
      exact Nat.pow_lt_pow_right (by decide) (w + 1).lt_succ_self
    have hgt : ¬(toString (n + 1)).length ≤ w + 1 := by
      rw [length_toString_le_iff w.succ_pos]
      omega
    exact ⟨by omega, w + 1, heq⟩

end Asl
