import Brainfuck.Text.Pieces

/-!
Pieces that run through an end mark, and the lines of a text as the case of newlines. Behind an end
mark the pieces begin anew, so a text of whole lines can be put in front of any other.
-/

namespace Brainfuck

open Text

section Pieces

variable {α : Type} {isEnd : α → Bool}

theorem pieces_nil : pieces isEnd [] = [] :=
  rfl

theorem pieces_cons (a : α) (xs : List α) :
    pieces isEnd (a :: xs) = consPiece isEnd a (pieces isEnd xs) :=
  rfl

/-- Puts more than one element in front of the pieces of what follows. -/
def joinFirst (front : List α) : List (List α) → List (List α)
  | [] => [front]
  | piece :: more => (front ++ piece) :: more

theorem joinFirst_joinFirst (front middle : List α) (ps : List (List α)) :
    joinFirst front (joinFirst middle ps) = joinFirst (front ++ middle) ps := by
  cases ps <;> simp [joinFirst]

theorem consPiece_end {a : α} (h : isEnd a = true) (ps : List (List α)) :
    consPiece isEnd a ps = [a] :: ps :=
  if_pos h

theorem consPiece_inside {a : α} (h : isEnd a = false) (ps : List (List α)) :
    consPiece isEnd a ps = joinFirst [a] ps := by
  cases ps <;> simp [consPiece, h, joinFirst]

theorem pieces_append_of_no_end {front : List α} (hne : front ≠ [])
    (hfront : ∀ a ∈ front, isEnd a = false) (xs : List α) :
    pieces isEnd (front ++ xs) = joinFirst front (pieces isEnd xs) := by
  induction front with
  | nil => exact absurd rfl hne
  | cons a front ih =>
      obtain ⟨ha, hrest⟩ := List.forall_mem_cons.mp hfront
      rw [List.cons_append, pieces_cons, consPiece_inside ha]
      cases front with
      | nil => rfl
      | cons b front =>
          rw [ih (List.cons_ne_nil b front) hrest, joinFirst_joinFirst]
          rfl

/-- Behind an end mark the pieces begin anew. -/
theorem pieces_append_of_end {e : α} (he : isEnd e = true) (xs ys : List α) :
    pieces isEnd (xs ++ e :: ys) = pieces isEnd (xs ++ [e]) ++ pieces isEnd ys := by
  induction xs with
  | nil => simp [pieces_cons, pieces_nil, consPiece_end he]
  | cons a xs ih =>
      rw [List.cons_append, List.cons_append, pieces_cons, pieces_cons, ih]
      cases ha : isEnd a with
      | true => rw [consPiece_end ha, consPiece_end ha, List.cons_append]
      | false =>
          rw [consPiece_inside ha, consPiece_inside ha]
          cases hpieces : pieces isEnd (xs ++ [e]) with
          | cons piece more => rfl
          | nil =>
              have hflatten := flatten_pieces isEnd (xs ++ [e])
              rw [hpieces] at hflatten
              simp at hflatten

/-- Only the last element of a piece may be an end mark. -/
theorem no_end_of_mem_pieces {xs piece : List α} (h : piece ∈ pieces isEnd xs) :
    ∀ a ∈ piece.dropLast, isEnd a = false := by
  induction xs generalizing piece with
  | nil => cases h
  | cons a xs ih =>
      rw [pieces_cons] at h
      cases ha : isEnd a with
      | true =>
          rw [consPiece_end ha] at h
          rcases List.mem_cons.mp h with rfl | hrest
          · simp
          · exact ih hrest
      | false =>
          rw [consPiece_inside ha] at h
          cases hpieces : pieces isEnd xs with
          | nil =>
              rw [hpieces] at h
              obtain rfl := List.mem_singleton.mp h
              simp
          | cons first more =>
              rw [hpieces] at h ih
              rcases List.mem_cons.mp h with rfl | hrest
              · cases first with
                | nil => simp
                | cons d first =>
                    have hfirst := ih List.mem_cons_self
                    rw [List.singleton_append,
                      List.dropLast_cons_of_ne_nil (List.cons_ne_nil d first)]
                    exact List.forall_mem_cons.mpr ⟨ha, hfirst⟩
              · exact ih (List.mem_cons_of_mem _ hrest)

/-- The pieces of what ends with an end mark all do. -/
theorem end_of_mem_pieces {xs piece : List α} {e : α} (hlast : xs.getLast? = some e)
    (he : isEnd e = true) (h : piece ∈ pieces isEnd xs) :
    ∃ d, piece.getLast? = some d ∧ isEnd d = true := by
  induction xs generalizing piece with
  | nil => cases h
  | cons a xs ih =>
      rw [pieces_cons] at h
      cases hxs : xs with
      | nil =>
          rw [hxs] at hlast h
          obtain rfl : a = e := by simpa using hlast
          rw [consPiece_end he] at h
          obtain rfl := List.mem_singleton.mp h
          exact ⟨a, rfl, he⟩
      | cons b rest =>
          have hrest : xs.getLast? = some e := by
            rwa [List.getLast?_cons_of_ne_nil (by simp [hxs])] at hlast
          cases ha : isEnd a with
          | true =>
              rw [consPiece_end ha] at h
              rcases List.mem_cons.mp h with rfl | hmem
              · exact ⟨a, rfl, ha⟩
              · exact ih hrest hmem
          | false =>
              rw [consPiece_inside ha] at h
              cases hpieces : pieces isEnd xs with
              | nil =>
                  have hflatten := flatten_pieces isEnd xs
                  rw [hpieces, hxs] at hflatten
                  cases hflatten
              | cons first more =>
                  rw [hpieces] at h ih
                  rcases List.mem_cons.mp h with rfl | hmem
                  · obtain ⟨d, hd, hend⟩ := ih hrest List.mem_cons_self
                    refine ⟨d, ?_, hend⟩
                    rw [List.getLast?_append, hd]
                    rfl
                  · exact ih hrest (List.mem_cons_of_mem _ hmem)

/-- Pieces that stand side by side are the pieces of what they make up, on either side. -/
theorem pieces_flatten {xs : List α} {ps qs : List (List α)} (h : pieces isEnd xs = ps ++ qs) :
    pieces isEnd ps.flatten = ps ∧ pieces isEnd qs.flatten = qs := by
  induction xs generalizing ps with
  | nil =>
      obtain ⟨rfl, rfl⟩ := List.nil_eq_append_iff.mp h
      exact ⟨rfl, rfl⟩
  | cons a xs ih =>
      cases ps with
      | nil =>
          rw [List.nil_append] at h
          exact ⟨rfl, by rw [← h, flatten_pieces]⟩
      | cons p ps =>
          rw [pieces_cons] at h
          cases ha : isEnd a with
          | true =>
              rw [consPiece_end ha] at h
              obtain ⟨rfl, hrest⟩ := List.cons.inj h
              obtain ⟨hps, hqs⟩ := ih hrest
              refine ⟨?_, hqs⟩
              rw [List.flatten_cons, List.singleton_append, pieces_cons, consPiece_end ha, hps]
          | false =>
              -- The piece that the element is put in front of belongs to the left side.
              rw [consPiece_inside ha] at h
              cases hpieces : pieces isEnd xs with
              | nil =>
                  rw [hpieces, joinFirst] at h
                  obtain ⟨rfl, hrest⟩ := List.cons.inj h
                  obtain ⟨rfl, rfl⟩ := List.nil_eq_append_iff.mp hrest
                  exact ⟨consPiece_inside ha [], rfl⟩
              | cons first more =>
                  rw [hpieces, joinFirst] at h
                  obtain ⟨rfl, rfl⟩ := List.cons.inj h
                  obtain ⟨hps, hqs⟩ := @ih (first :: ps) hpieces
                  refine ⟨?_, hqs⟩
                  rw [List.flatten_cons] at hps ⊢
                  rw [List.append_assoc, List.singleton_append, pieces_cons, hps,
                    consPiece_inside ha]
                  rfl

theorem length_joinFirst (front : List α) {ps : List (List α)} (h : ps ≠ []) :
    (joinFirst front ps).length = ps.length := by
  cases ps with
  | nil => exact absurd rfl h
  | cons piece more => rfl

theorem length_pieces {e : α} (he : isEnd e = true) (xs : List α) :
    (pieces isEnd (xs ++ [e])).length = (xs ++ [e]).countP isEnd := by
  induction xs with
  | nil => simp [pieces_cons, pieces_nil, consPiece_end he, he]
  | cons a xs ih =>
      rw [List.cons_append, pieces_cons]
      cases ha : isEnd a with
      | true => rw [consPiece_end ha, List.length_cons, ih, List.countP_cons_of_pos ha]
      | false =>
          have hsome : pieces isEnd (xs ++ [e]) ≠ [] := by
            intro hnone
            have hflatten := flatten_pieces isEnd (xs ++ [e])
            rw [hnone] at hflatten
            simp at hflatten
          rw [consPiece_inside ha, length_joinFirst _ hsome, ih,
            List.countP_cons_of_neg (Bool.eq_false_iff.mp ha)]

end Pieces

theorem lines_append {cs : List Char} (ds : List Char) (h : cs.getLast? = some '\n') :
    lines (cs ++ ds) = lines cs ++ lines ds := by
  obtain ⟨front, rfl⟩ := List.getLast?_eq_some_iff.mp h
  rw [List.append_assoc]
  exact pieces_append_of_end rfl front ds

/-- A text of whole lines may stand in front of any other. -/
theorem lines_append_of_whole {cs : List Char} (h : cs = [] ∨ cs.getLast? = some '\n')
    (ds : List Char) : lines (cs ++ ds) = lines cs ++ lines ds := by
  cases h with
  | inl hempty =>
      subst hempty
      rfl
  | inr hends => exact lines_append ds hends

theorem lines_line {front : List Char} (hfront : '\n' ∉ front) (rest : List Char) :
    lines (front ++ '\n' :: rest) = (front ++ ['\n']) :: lines rest := by
  have hinside : ∀ c ∈ front, (c == '\n') = false := by
    intro c hc
    rw [beq_eq_false_iff_ne]
    exact fun heq => hfront (heq ▸ hc)
  by_cases hempty : front = []
  · subst hempty
    rfl
  · exact pieces_append_of_no_end hempty hinside ('\n' :: rest)

theorem length_lines {cs : List Char} (h : cs.getLast? = some '\n') :
    (lines cs).length = cs.count '\n' := by
  obtain ⟨front, rfl⟩ := List.getLast?_eq_some_iff.mp h
  exact length_pieces rfl front

end Brainfuck
