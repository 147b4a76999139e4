import Brainfuck.Machine.Table

/-!
Texts of one line. Numerals, columns and the descriptions of actions hold no newline, and a
character that would break a line is not shown as itself, so a row of the step table is one line,
whatever stands in the source.

Main statement: a step table consists of whole lines, two of them its heading and one for each row.
-/

namespace Brainfuck
namespace Text

/-- The text has no newline. -/
def OneLine (s : String) : Prop :=
  '\n' ∉ s.toList

instance (s : String) : Decidable (OneLine s) :=
  inferInstanceAs (Decidable ('\n' ∉ s.toList))

theorem OneLine.append {s t : String} (hs : OneLine s) (ht : OneLine t) : OneLine (s ++ t) := by
  rw [OneLine, String.toList_append, List.mem_append, not_or]
  exact ⟨hs, ht⟩

theorem oneLine_singleton {c : Char} (h : c ≠ '\n') : OneLine c.toString := by
  simp [OneLine, Char.toString_eq_singleton, h.symm]

theorem toList_spaces (n : Nat) : ("".pushn ' ' n).toList = List.replicate n ' ' := by
  rw [String.pushn_eq_repeat_push]
  induction n with
  | zero => rfl
  | succ n ih => rw [Nat.repeat, String.toList_push, ih, List.replicate_succ']

theorem oneLine_spaces (n : Nat) : OneLine ("".pushn ' ' n) := by
  rw [OneLine, toList_spaces, List.mem_replicate]
  rintro ⟨-, hspace⟩
  exact absurd hspace (by decide)

theorem OneLine.padRight {s : String} (h : OneLine s) (width : Nat) :
    OneLine (padRight width s) :=
  h.append (oneLine_spaces _)

theorem newline_not_mem_toDigits {b : Nat} (hb : 1 < b) (n : Nat) :
    '\n' ∉ Nat.toDigits b n := by
  induction n using Nat.strongRecOn with
  | ind n ih =>
      have hdigit (d : Nat) : '\n' ≠ d.digitChar := (Nat.digitChar_ne '\n' (by decide)).symm
      rw [Nat.toDigits_eq_if hb]
      split
      · simp [hdigit]
      · next hn =>
          have hless : n / b < n := Nat.div_lt_self (by omega) hb
          simp [ih _ hless, hdigit]

theorem oneLine_nat (n : Nat) : OneLine (toString n) := by
  rw [OneLine, Nat.toString_eq_repr, Nat.toList_repr]
  exact newline_not_mem_toDigits (by decide) n

theorem oneLine_int (n : Int) : OneLine (toString n) := by
  rw [Int.toString_eq_repr, Int.repr_eq_if]
  split
  · exact oneLine_nat _
  · exact OneLine.append (by decide) (oneLine_nat _)

theorem oneLine_hex (n : Nat) : OneLine (hex n) := by
  rw [hex, hexDigits]
  apply OneLine.append (by decide)
  rw [OneLine, String.toList_ofList]
  exact newline_not_mem_toDigits (by decide) n

theorem unlines_cons (l : String) (ls : List String) :
    unlines (l :: ls) = l ++ "\n" ++ unlines ls := by
  rw [unlines, unlines, List.map_cons, String.join_cons]

theorem unlines_append (ls ls' : List String) :
    unlines (ls ++ ls') = unlines ls ++ unlines ls' := by
  rw [unlines, unlines, unlines, List.map_append, String.join_append]

theorem count_newline_unlines {ls : List String} (h : ∀ l ∈ ls, OneLine l) :
    (unlines ls).toList.count '\n' = ls.length := by
  induction ls with
  | nil => rfl
  | cons l ls ih =>
      obtain ⟨hl, hls⟩ := List.forall_mem_cons.mp h
      rw [unlines_cons, String.toList_append, String.toList_append, List.count_append,
        List.count_append, ih hls, List.count_eq_zero_of_not_mem hl, List.length_cons]
      change 0 + 1 + ls.length = ls.length + 1
      omega

end Text

open Text

theorem Action.oneLine_description (action : Action) : OneLine action.description := by
  cases action with
  | moved head => exact .append (by decide) (oneLine_int head)
  | changed before after =>
      exact .append (.append (.append (by decide) (oneLine_nat before)) (by decide))
        (oneLine_nat after)
  | wrote codePoint => exact .append (by decide) (oneLine_hex codePoint)
  | took codePoint => exact .append (.append (by decide) (oneLine_hex codePoint)) (by decide)
  | skippedLoop close => exact .append (by decide) (oneLine_nat close)
  | enteredLoop => decide
  | jumpedBack opening => exact .append (by decide) (oneLine_nat opening)
  | ignored => decide

namespace Table

theorem printable_ne_newline (c : Char) : printable c ≠ '\n' := by
  rw [printable]
  split
  · decide
  · next hc =>
      rintro rfl
      exact hc (by decide)

/-- A row is one line, whatever character the source has there. -/
theorem exists_line (row : Row) : ∃ text, OneLine text ∧ line row = text ++ "\n" := by
  refine ⟨_, ?_, rfl⟩
  have hnumber := (oneLine_nat row.number).padRight 4
  have hip := (oneLine_nat row.ip).padRight 4
  have hhead := (oneLine_int row.head).padRight 4
  have hcell := (oneLine_nat row.cell).padRight 7
  have hchar := oneLine_singleton (printable_ne_newline row.char)
  have hbar : OneLine " | " := by decide
  have hwide : OneLine " |  " := by decide
  have hlast : OneLine "    | " := by decide
  exact hnumber.append hbar |>.append hip |>.append hbar |>.append hhead |>.append hbar
    |>.append hcell |>.append hwide |>.append hchar |>.append hlast
    |>.append row.action.oneLine_description

theorem exists_lines (rows : List Row) :
    ∃ ls, ls.length = rows.length ∧ (∀ l ∈ ls, OneLine l) ∧
      String.join (rows.map line) = unlines ls := by
  induction rows with
  | nil => exact ⟨[], rfl, by simp, rfl⟩
  | cons row rows ih =>
      obtain ⟨text, htext, hline⟩ := exists_line row
      obtain ⟨ls, hlength, hls, hjoin⟩ := ih
      refine ⟨text :: ls, by simp [hlength], List.forall_mem_cons.mpr ⟨htext, hls⟩, ?_⟩
      rw [List.map_cons, String.join_cons, hline, hjoin, unlines_cons]

theorem exists_lines_heading :
    ∃ ls, ls.length = 2 ∧ (∀ l ∈ ls, OneLine l) ∧ heading = unlines ls :=
  ⟨_, rfl, by decide, rfl⟩

/-- The table with these rows consists of whole lines, two of them its heading. -/
theorem exists_lines_table (rows : List Row) :
    ∃ ls, ls.length = 2 + rows.length ∧ (∀ l ∈ ls, OneLine l) ∧
      heading ++ String.join (rows.map line) = unlines ls := by
  obtain ⟨top, htwo, htop, hheading⟩ := exists_lines_heading
  obtain ⟨ls, hlength, hls, hjoin⟩ := exists_lines rows
  refine ⟨top ++ ls, by simp [htwo, hlength], ?_, ?_⟩
  · exact List.forall_mem_append.mpr ⟨htop, hls⟩
  · rw [hheading, hjoin, unlines_append]

end Table
end Brainfuck
