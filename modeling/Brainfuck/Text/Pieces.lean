/-!
Lines that keep their end. A piece runs through the next end mark, so the pieces of a sequence
put together give the sequence back, and only the last of them may lack its mark.
-/

namespace Brainfuck.Text

variable {α : Type}

def consPiece (isEnd : α → Bool) (a : α) (rest : List (List α)) : List (List α) :=
  if isEnd a then
    [a] :: rest
  else
    match rest with
    | [] => [[a]]
    | piece :: more => (a :: piece) :: more

/-- Cuts a sequence after every end mark. -/
def pieces (isEnd : α → Bool) (xs : List α) : List (List α) :=
  xs.foldr (consPiece isEnd) []

theorem flatten_consPiece (isEnd : α → Bool) (a : α) (rest : List (List α)) :
    (consPiece isEnd a rest).flatten = a :: rest.flatten := by
  unfold consPiece
  split
  · rfl
  · cases rest <;> rfl

@[simp] theorem flatten_pieces (isEnd : α → Bool) (xs : List α) :
    (pieces isEnd xs).flatten = xs := by
  induction xs with
  | nil => rfl
  | cons a xs ih =>
      show (consPiece isEnd a (pieces isEnd xs)).flatten = a :: xs
      rw [flatten_consPiece, ih]

/-- The lines of a text, each with the newline that ends it. -/
def lines (cs : List Char) : List (List Char) :=
  pieces (· == '\n') cs

end Brainfuck.Text
