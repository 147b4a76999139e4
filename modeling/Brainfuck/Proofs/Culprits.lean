import Brainfuck.Diagnostic
import Brainfuck.Proofs.Comments
import Brainfuck.Proofs.Lines
import Brainfuck.Proofs.Safety

/-!
Errors and the characters they point at. An evaluation that fails at a place fails there for the
sake of a character: the bracket that has no partner, or the read that finds no input. A diagnostic
shows a window of the code around a place and a caret below it. The window is clipped at either end
of the code, and a control character is shown as a space, so that the caret keeps its column.

Main statement: every error of an evaluation that names a place names that of its culprit, and the
caret of its diagnostic stands under it.
-/

namespace Brainfuck

open Text

/-- The character that an error with a place is about. -/
def Error.culprit? : Error → Option Char
  | .unmatched u => some u.bracket.char
  | .inputExhausted _ => some ','
  | _ => none

section Evaluations

variable {σ : Type} {m : Machine} {control : Control} {monitor : Monitor σ} {fuel : Nat}
  {source input : String} {w : σ} {e : Error}

theorem Program.getElem?_ofString (source : String) (i : Nat) :
    (ofString source)[i]? = source.toList[i]? := by
  rw [ofString, List.getElem?_toArray]

/-- A balanced source fails at a place only for want of input. -/
theorem Machine.execute_error_of_balanced (hmonitor : monitor.FailsInTable)
    (hv : balanced source.toList = true)
    (h : (m.execute control monitor fuel source input w).result = some (.error e)) :
    (∃ ip, e = .inputExhausted ip ∧ source.toList[ip]? = some ',') ∨ e.place? = none := by
  rcases execute_error_cases hv h with hstart | ⟨u, row, hexec⟩ | ⟨n, -, t, ht, hhalts⟩
  · obtain ⟨reason, rfl⟩ := hmonitor.started _ _ hstart
    exact .inr rfl
  · obtain ⟨reason, rfl⟩ := hmonitor.executed _ _ _ hexec
    exact .inr rfl
  · cases hhalts with
    | stopped _ ho =>
        rcases Control.objection?_eq_some_iff.mp ho with ⟨-, rfl⟩ | ⟨-, limit, -, -, rfl⟩
        · exact .inr rfl
        · exact .inr rfl
    | failed hc _ hstep =>
        have hp := Program.balanced_ofString hv
        rcases step_cases_of_balanced hp (sound_after? ht).1 hc with
          ⟨u, action, hok, -⟩ | ⟨hfail, rfl⟩ | ⟨hfail, -⟩
        · rw [hok] at hstep
          cases hstep
        · rw [hfail] at hstep
          cases hstep
          rw [Program.getElem?_ofString] at hc
          exact .inl ⟨t.ip, rfl, hc⟩
        · rw [hfail] at hstep
          cases hstep
          exact .inr rfl

theorem Machine.execute_eq_unmatched_iff (hmonitor : monitor.FailsInTable) {u : Unmatched} :
    (m.execute control monitor fuel source input w).result = some (.error (.unmatched u)) ↔
      unmatched? source.toList = some u := by
  cases hv : balanced source.toList with
  | false =>
      obtain ⟨blamed, hblamed⟩ := exists_unmatched? hv
      rw [execute_of_unbalanced hv, Error.ofUnbalanced, hblamed]
      simp
  | true =>
      have hnone : unmatched? source.toList = none := (unmatchedFrom?_eq_none_iff 0 [] _).mpr hv
      rw [hnone]
      constructor
      · intro h
        rcases execute_error_of_balanced hmonitor hv h with ⟨ip, he, -⟩ | hplace
        · cases he
        · cases hplace
      · intro h
        cases h

/-- The culprit of an error stands at the place that the error names. -/
theorem Machine.getElem?_culprit (hmonitor : monitor.FailsInTable)
    (h : (m.execute control monitor fuel source input w).result = some (.error e)) {ip : Nat}
    (hip : e.place? = some ip) : ∃ c, e.culprit? = some c ∧ source.toList[ip]? = some c := by
  cases hv : balanced source.toList with
  | false =>
      obtain ⟨blamed, hblamed⟩ := exists_unmatched? hv
      rw [execute_of_unbalanced hv, Error.ofUnbalanced, hblamed] at h
      cases h
      cases hip
      exact ⟨_, rfl, getElem?_unmatched? hblamed⟩
  | true =>
      rcases execute_error_of_balanced hmonitor hv h with ⟨place, rfl, hread⟩ | hnone
      · cases hip
        exact ⟨',', rfl, hread⟩
      · rw [hnone] at hip
        cases hip

end Evaluations

namespace Diagnostic

theorem flat_ne_newline (c : Char) : flat c ≠ '\n' := by
  rw [flat]
  split
  · decide
  · next hc =>
      rintro rfl
      exact hc (by decide)

theorem window_eq_slice (code : List Char) (pos : Nat) :
    window code pos = ((code.take (min code.length (pos + 33))).drop (pos - 32)).map flat := by
  rw [window, reach, List.drop_take, Nat.min_comm]

theorem length_window_le (code : List Char) (pos : Nat) : (window code pos).length ≤ 65 := by
  rw [window_eq_slice, List.length_map, List.length_drop, List.length_take]
  omega

theorem oneLine_window (code : List Char) (pos : Nat) :
    OneLine (String.ofList (window code pos)) := by
  rw [OneLine, String.toList_ofList, window, List.mem_map]
  rintro ⟨c, -, hc⟩
  exact flat_ne_newline c hc

/-- The window may be clipped on the left, and then the position is `reach` characters into it. -/
theorem getElem?_window {code : List Char} {pos : Nat} {c : Char} (h : code[pos]? = some c) :
    (window code pos)[min pos reach]? = some (flat c) := by
  have hpos := (List.getElem?_eq_some_iff.mp h).1
  have hplace : pos - 32 + min pos 32 = pos := by omega
  have hinside : min pos 32 < min (pos + 33) code.length - (pos - 32) := by omega
  simp only [window, reach, List.getElem?_map, List.getElem?_take_of_lt hinside,
    List.getElem?_drop, hplace, h, Option.map_some]

/-- The text is three lines, the last of them spaces and a caret that stands under the character
`c` of the line above. -/
def PointsAt (text : String) (c : Char) : Prop :=
  ∃ (first second : String) (column : Nat), OneLine first ∧ OneLine second ∧
    text = unlines [first, second, String.ofList (List.replicate column ' ' ++ ['^'])] ∧
    second.toList[column]? = some c

theorem end_fits {code : List Char} (hsize : code.length ≤ wordMax) {pos : Nat}
    (hpos : pos < code.length) : pos + reach + 1 < numeralBound := by
  rw [wordMax] at hsize
  rw [reach, numeralBound]
  omega

variable {headline : String} {code : List Char} {pos : Nat} {c : Char}

/-- The lines of a diagnostic, the indent of the last two included in the columns. -/
theorem context?_eq (hsize : code.length ≤ wordMax) (hc : code[pos]? = some c) :
    context? headline code pos =
      some (unlines
        [headline ++ " at instruction " ++ toString pos,
         "  " ++ String.ofList (window code pos),
         String.ofList (List.replicate (min pos reach + 2) ' ' ++ ['^'])]) := by
  have hcaret : "  " ++ "".pushn ' ' (min pos reach) ++ "^" =
      String.ofList (List.replicate (min pos reach + 2) ' ' ++ ['^']) := by
    apply String.toList_inj.mp
    simp [toList_spaces, List.replicate_succ]
  rw [context?, if_pos (end_fits hsize (List.getElem?_eq_some_iff.mp hc).1), hcaret]
  rfl

theorem getElem?_indented_window (hc : code[pos]? = some c) :
    ("  " ++ String.ofList (window code pos)).toList[min pos reach + 2]? = some (flat c) := by
  simp [getElem?_window hc]

theorem oneLine_context (hheadline : OneLine headline) (pos : Nat) :
    OneLine (headline ++ " at instruction " ++ toString pos) :=
  (hheadline.append (by decide)).append (oneLine_nat pos)

theorem exists_pointsAt_context (hheadline : OneLine headline) (hsize : code.length ≤ wordMax)
    (hc : code[pos]? = some c) :
    ∃ text, context? headline code pos = some text ∧ PointsAt text (flat c) :=
  ⟨_, context?_eq hsize hc, _, _, _, oneLine_context hheadline pos,
    .append (by decide) (oneLine_window code pos), rfl, getElem?_indented_window hc⟩

theorem oneLine_named {name : Option String} (hname : ∀ n ∈ name, OneLine n) {message : String}
    (hmessage : OneLine message) : OneLine (named name message) := by
  cases name with
  | none => exact hmessage
  | some n => exact ((hname n rfl).append (by decide)).append hmessage

theorem oneLine_unmatchedHeadline (b : Bracket) : OneLine (unmatchedHeadline b) := by
  cases b <;> decide

theorem flat_culprit {e : Error} (h : e.culprit? = some c) : flat c = c := by
  cases e with
  | unmatched u =>
      cases h
      cases u.bracket <;> decide
  | inputExhausted ip =>
      cases h
      decide
  | _ => cases h

theorem exists_pointsAt_runError {e : Error} {ip : Nat} {name : Option String}
    (hname : ∀ n ∈ name, OneLine n) (hsize : code.length ≤ wordMax) (hip : e.place? = some ip)
    (hculprit : e.culprit? = some c) (hc : code[ip]? = some c) (timeoutMs : Nat) :
    ∃ text, runError? name code timeoutMs e = some text ∧ PointsAt text c := by
  rw [← flat_culprit hculprit]
  cases e with
  | unmatched u =>
      cases hip
      exact exists_pointsAt_context (oneLine_named hname (oneLine_unmatchedHeadline _)) hsize hc
  | inputExhausted ip =>
      cases hip
      exact exists_pointsAt_context (oneLine_named hname (by decide)) hsize hc
  | _ => cases hculprit

/-- Every error of an evaluation points at its culprit. An error that names a place is about the
bracket or the read that stands there, and the caret of its diagnostic is under that character. The
diagnostic of any position of any code, no text being longer than a signed word counts, is three
lines: the headline with the position, up to sixty-five characters of the code around it with
control characters as spaces, and the caret under the one meant. -/
theorem errors_point_at_culprits {σ : Type} (machine : Machine) (control : Control)
    (monitor : Monitor σ) (hmonitor : monitor.FailsInTable) (fuel : Nat) (source input : String)
    (watched : σ) :
    (∀ e ip,
      (machine.execute control monitor fuel source input watched).result = some (.error e) →
      e.place? = some ip →
      ∃ c, e.culprit? = some c ∧ source.toList[ip]? = some c ∧
        (source.length ≤ wordMax → ∀ name timeoutMs, (∀ n ∈ name, OneLine n) →
          ∃ text, runError? name source.toList timeoutMs e = some text ∧ PointsAt text c)) ∧
    ∀ headline code pos c, OneLine headline → code.length ≤ wordMax → code[pos]? = some c →
      ∃ first second third column,
        context? headline code pos = some (unlines [first, second, third]) ∧
        OneLine first ∧ OneLine second ∧ OneLine third ∧
        first = headline ++ " at instruction " ++ toString pos ∧
        (∃ shown, second = "  " ++ String.ofList shown ∧ shown.length ≤ 65 ∧
          shown = ((code.take (min code.length (pos + 33))).drop (pos - 32)).map
            fun c => if isControl c then ' ' else c) ∧
        third.toList = List.replicate column ' ' ++ ['^'] ∧
        second.toList[column]? = some (if isControl c then ' ' else c) := by
  refine ⟨?_, ?_⟩
  · intro e ip h hip
    obtain ⟨c, hculprit, hc⟩ := Machine.getElem?_culprit hmonitor h hip
    refine ⟨c, hculprit, hc, ?_⟩
    intro hsize name timeoutMs hname
    exact exists_pointsAt_runError hname hsize hip hculprit hc timeoutMs
  · intro headline code pos c hheadline hsize hc
    refine ⟨_, _, _, _, context?_eq hsize hc, oneLine_context hheadline pos, ?_, ?_, rfl, ?_,
      String.toList_ofList, getElem?_indented_window hc⟩
    · exact .append (by decide) (oneLine_window code pos)
    · rw [OneLine, String.toList_ofList]
      simp
    · exact ⟨_, rfl, length_window_le code pos, window_eq_slice code pos⟩

/-- A bracket behind a character of two bytes and a newline, a read under a step table, and a
newline in the middle of a window that is clipped at both ends. -/
theorem errors_point_at_culprits_clipped :
    Monitor.table.FailsInTable ∧
      (∃ text, runError? (some "bf") "é\n]".toList 2000 (.unmatched ⟨2, .closing⟩) = some text ∧
        PointsAt text ']') ∧
      (∃ text, runError? none "+[,]".toList 2000 (.inputExhausted 2) = some text ∧
        PointsAt text ',') ∧
      ∃ first second third column,
        context? "bf" (List.replicate 40 '+' ++ '\n' :: List.replicate 40 '-') 40 =
            some (unlines [first, second, third]) ∧
          third.toList = List.replicate column ' ' ++ ['^'] ∧
          second.toList[column]? = some ' ' := by
  have htable := Monitor.failsInTable_table
  have hpoints := errors_point_at_culprits .standard .free .table htable 9
  refine ⟨htable, ?_, ?_, ?_⟩
  · obtain ⟨c, hc, -, hcaret⟩ := (hpoints "é\n]" "" (.empty none)).1 _ 2 rfl rfl
    cases hc
    exact hcaret (by decide) (some "bf") 2000 (by decide)
  · obtain ⟨c, hc, -, hcaret⟩ := (hpoints "+[,]" "" (.empty none)).1 (.inputExhausted 2) 2 rfl rfl
    cases hc
    exact hcaret (by decide) none 2000 (by simp)
  · obtain ⟨first, second, third, column, htext, -, -, -, -, -, hthird, hunder⟩ :=
      (hpoints "" "" (.empty none)).2 "bf" (List.replicate 40 '+' ++ '\n' :: List.replicate 40 '-')
        40 '\n' (by decide) (by decide) rfl
    exact ⟨first, second, third, column, htext, hthird, hunder⟩

end Diagnostic
end Brainfuck
