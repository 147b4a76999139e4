import Brainfuck.Text.Trim
import Mathlib.Data.List.TakeWhile

/-!
Texts cut at their ends. What is left out there may as well be missing, and what stops the cutting
stays with all that is in front of it.
-/

namespace Brainfuck.Text

section Strip

variable {α : Type} {p : α → Bool}

theorem dropEndWhile_append {back : List α} (hback : ∀ a ∈ back, p a = true) (xs : List α) :
    dropEndWhile p (xs ++ back) = dropEndWhile p xs := by
  have hreverse : ∀ a ∈ back.reverse, p a = true := fun a ha => hback a (List.mem_reverse.mp ha)
  rw [dropEndWhile, List.reverse_append, List.dropWhile_append_of_pos hreverse, dropEndWhile]

theorem dropEndWhile_of_stop {e : α} (he : p e = false) (front back : List α) :
    dropEndWhile p (front ++ e :: back) = front ++ e :: dropEndWhile p back := by
  have hstop : (e :: front.reverse).dropWhile p = e :: front.reverse :=
    List.dropWhile_cons_of_neg (Bool.eq_false_iff.mp he)
  rw [dropEndWhile, dropEndWhile, List.reverse_append, List.reverse_cons, List.append_assoc,
    List.singleton_append, List.dropWhile_append, hstop]
  split
  · next hempty => simp [List.isEmpty_iff.mp hempty]
  · simp

theorem exists_dropEndWhile (p : α → Bool) (xs : List α) :
    ∃ back, xs = dropEndWhile p xs ++ back ∧ ∀ a ∈ back, p a = true := by
  refine ⟨(xs.reverse.takeWhile p).reverse, ?_, ?_⟩
  · rw [dropEndWhile, ← List.reverse_append, List.takeWhile_append_dropWhile, List.reverse_reverse]
  · intro a ha
    exact List.all_eq_true.mp List.all_takeWhile a (List.mem_reverse.mp ha)

/-- What is left out at the ends may as well be missing there. -/
theorem stripWhile_append {front back : List α} (hfront : ∀ a ∈ front, p a = true)
    (hback : ∀ a ∈ back, p a = true) (xs : List α) :
    stripWhile p (front ++ xs ++ back) = stripWhile p xs := by
  rw [stripWhile, stripWhile, List.append_assoc, List.dropWhile_append_of_pos hfront,
    List.dropWhile_append]
  split
  · next hempty =>
      have hnone : back.dropWhile p = [] := List.dropWhile_eq_nil_iff.mpr hback
      rw [hnone, List.isEmpty_iff.mp hempty]
  · exact dropEndWhile_append hback _

theorem stripWhile_dropEndWhile (xs : List α) :
    stripWhile p (dropEndWhile p xs) = stripWhile p xs := by
  obtain ⟨back, hxs, hback⟩ := exists_dropEndWhile p xs
  have habsorb := stripWhile_append (List.forall_mem_nil _) hback (dropEndWhile p xs)
  rw [List.nil_append, ← hxs] at habsorb
  exact habsorb.symm

theorem stripWhile_of_none {xs : List α} (h : ∀ a ∈ xs, p a = false) : stripWhile p xs = xs := by
  have hkeep (ys : List α) (hys : ∀ a ∈ ys, p a = false) : ys.dropWhile p = ys := by
    cases ys with
    | nil => rfl
    | cons a ys =>
        exact List.dropWhile_cons_of_neg (Bool.eq_false_iff.mp (hys a List.mem_cons_self))
  rw [stripWhile, hkeep xs h, dropEndWhile,
    hkeep xs.reverse (fun a ha => h a (List.mem_reverse.mp ha)), List.reverse_reverse]

end Strip

/-- The shorter text is the text without the mark at its end; without a mark it is the text. -/
def Without (mark : Char) (text shorter : List Char) : Prop :=
  text = shorter ++ [mark] ∨ text.getLast? ≠ some mark ∧ shorter = text

theorem dropLastIf_concat (a : Char) (cs : List Char) : dropLastIf a (cs ++ [a]) = cs := by
  simp [dropLastIf]

theorem dropLastIf_of_ne {a : Char} {cs : List Char} (h : cs.getLast? ≠ some a) :
    dropLastIf a cs = cs := by
  simp [dropLastIf, h]

theorem without_dropLastIf (a : Char) (cs : List Char) : Without a cs (dropLastIf a cs) := by
  by_cases h : cs.getLast? = some a
  · obtain ⟨front, rfl⟩ := List.getLast?_eq_some_iff.mp h
    rw [dropLastIf_concat]
    exact .inl rfl
  · rw [dropLastIf_of_ne h]
    exact .inr ⟨h, rfl⟩

theorem dropLastIf_eq_self_iff {a : Char} {cs : List Char} :
    dropLastIf a cs = cs ↔ cs.getLast? ≠ some a := by
  constructor
  · intro h hlast
    obtain ⟨front, rfl⟩ := List.getLast?_eq_some_iff.mp hlast
    rw [dropLastIf_concat] at h
    simp at h
  · exact dropLastIf_of_ne

end Brainfuck.Text
