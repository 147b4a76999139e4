import Brainfuck.Proofs.FrontEnds
import Brainfuck.Proofs.Input
import Brainfuck.Proofs.Watching

/-!
The brackets of a source as the command that only checks it judges them and as the command that
runs it does. The one searches for a bracket without a partner. The other counts depths and searches
only after the count has failed; besides, it keeps a log and, if asked to, a step table. So the two
can be compared only where the log shows nothing, and a refused source must not have begun its
table.

Main statement: a source passes the check exactly if a run of it reports no parse error, and both
commands write the same report.
-/

namespace Brainfuck

open Text

section Evaluations

variable {settings : Settings} {watching : Watching} {patience : Nat} {source input : String}
  {u : Unmatched}

/-- An evaluation refuses a source for the bracket that the search finds, and no other. -/
theorem evaluate_eq_unmatched_iff :
    (evaluate settings watching patience source input).result = .error (.unmatched u) ↔
      unmatched? source.toList = some u :=
  (evaluate_eq_iff (r := .error (.unmatched u)) nofun nofun).trans
    (Machine.execute_eq_unmatched_iff Monitor.failsInTable_silent)

theorem table_of_unmatched (h : unmatched? source.toList = some u) :
    (evaluate settings watching patience source input).table = "" := by
  simp only [evaluate, Machine.execute_of_unbalanced (balanced_eq_false h)]
  rfl

end Evaluations

namespace Diagnostic

/-- The text reports a parse error in the program's name. -/
def ReportsParseError (program text : String) : Prop :=
  (program ++ ": Parse error: ").toList <+: text.toList

instance (program text : String) : Decidable (ReportsParseError program text) :=
  inferInstanceAs (Decidable (_ <+: _))

variable {program : String} {code : List Char}

theorem not_reportsParseError_empty : ¬ ReportsParseError program "" := by
  intro h
  have hlength := h.length_le
  simp at hlength

/-- What is told in the program's name shows its kind in its first letter. -/
theorem not_reportsParseError_named {headline rest : String} {c : Char} {l : List Char}
    (hheadline : headline.toList = c :: l) (hc : c ≠ 'P') :
    ¬ ReportsParseError program (named (some program) headline ++ rest) := by
  have hparse : (": Parse error: ").toList = ": ".toList ++ 'P' :: "arse error: ".toList := rfl
  rw [ReportsParseError, named_some, String.toList_append, String.toList_append,
    String.toList_append, String.toList_append, hparse, hheadline, List.append_assoc,
    List.append_assoc, List.prefix_append_right_inj, List.prefix_append_right_inj,
    List.cons_append, List.cons_prefix_cons]
  rintro ⟨hP, -⟩
  exact hc hP.symm

theorem context?_begins (headline : String) (code : List Char) (pos : Nat) :
    context? headline code pos = none ∨
      ∃ rest, context? headline code pos = some (headline ++ rest) := by
  have hfirst : ∀ ls, unlines ((headline ++ " at instruction " ++ toString pos) :: ls) =
      headline ++ (" at instruction " ++ (toString pos ++ ("\n" ++ unlines ls))) := by
    intro ls
    rw [unlines_cons, String.append_assoc, String.append_assoc, String.append_assoc]
  rw [context?]
  split
  · exact .inr ⟨_, congrArg some (hfirst _)⟩
  · exact .inl rfl

theorem not_reportsParseError_context {headline : String} {c : Char} {l : List Char}
    (hheadline : headline.toList = c :: l) (hc : c ≠ 'P') (pos : Nat) :
    ¬ ReportsParseError program
      ((context? (named (some program) headline) code pos).getD "") := by
  rcases context?_begins (named (some program) headline) code pos with hnone | ⟨rest, hrest⟩
  · rw [hnone]
    exact not_reportsParseError_empty
  · rw [hrest]
    exact not_reportsParseError_named hheadline hc

theorem letter_not_mem_numeral (n : Nat) : 'P' ∉ (toString n).toList := by
  intro hmem
  rw [Nat.toString_eq_repr, Nat.toList_repr] at hmem
  exact absurd (Nat.isDigit_of_mem_toDigits (by decide) (by decide) hmem) (by decide)

/-- An abort is told without the program's name, but no name makes a parse error of a line that
lacks the letter. -/
theorem not_reportsParseError_abort {start stop : String} (hstart : 'P' ∉ start.toList)
    (hstop : 'P' ∉ stop.toList) (n : Nat) :
    ¬ ReportsParseError program (unlines [start ++ toString n ++ stop]) := by
  have hnone : 'P' ∉ (unlines [start ++ toString n ++ stop]).toList := by
    simp only [unlines_cons, String.toList_append, List.mem_append, not_or]
    exact ⟨⟨⟨⟨hstart, letter_not_mem_numeral n⟩, hstop⟩, by decide⟩, by decide⟩
  intro h
  apply hnone
  apply List.IsPrefix.mem _ h
  simp

theorem not_reportsParseError_message {e : Error} {c : Char} {l : List Char}
    (he : e.message.toList = c :: l) (hc : c ≠ 'P') :
    ¬ ReportsParseError program (unlines [named (some program) e.message]) := by
  rw [unlines_cons, String.append_assoc]
  exact not_reportsParseError_named he hc

/-- Only an unmatched bracket is told as a parse error. -/
theorem eq_unmatched_of_reportsParseError {e : Error} {timeoutMs : Nat}
    (h : ReportsParseError program ((runError? (some program) code timeoutMs e).getD "")) :
    ∃ u, e = .unmatched u := by
  cases e with
  | unmatched u => exact ⟨u, rfl⟩
  | inputExhausted ip => exact absurd h (not_reportsParseError_context rfl (by decide) ip)
  | unbalancedScan ip => exact absurd h (not_reportsParseError_context rfl (by decide) ip)
  | stepLimit limit => exact absurd h (not_reportsParseError_abort (by decide) (by decide) limit)
  | cancelled => exact absurd h (not_reportsParseError_abort (by decide) (by decide) timeoutMs)
  | table reason =>
      exact absurd h (not_reportsParseError_message String.toList_append (by decide))
  | crash cause =>
      exact absurd h (not_reportsParseError_message String.toList_append (by decide))

theorem reportsParseError_unmatched (b : Bracket) (rest : String) :
    ReportsParseError program (named (some program) (unmatchedHeadline b) ++ rest) := by
  have hsplit : (": " ++ unmatchedHeadline b).toList =
      ": Parse error: ".toList ++ ("unmatched bracket " ++ b.quoted).toList := by
    cases b <;> rfl
  have hnamed : named (some program) (unmatchedHeadline b) ++ rest =
      program ++ (": " ++ unmatchedHeadline b) ++ rest := by
    rw [named_some, String.append_assoc, String.append_assoc, String.append_assoc,
      String.append_assoc]
  rw [ReportsParseError, hnamed, String.toList_append, String.toList_append,
    String.toList_append, hsplit, List.append_assoc, List.prefix_append_right_inj,
    List.append_assoc]
  exact List.prefix_append _ _

/-- The report of an unmatched bracket in a text, which is no longer than a signed word counts, is
that of a parse error. -/
theorem reportsParseError_context {source : String} (hlength : source.length ≤ wordMax)
    {u : Unmatched} (h : unmatched? source.toList = some u) (program : String) :
    ReportsParseError program ((context? (named (some program) (unmatchedHeadline u.bracket))
      source.toList u.ip).getD "") := by
  rcases context?_begins (named (some program) (unmatchedHeadline u.bracket)) source.toList u.ip
    with hnone | ⟨rest, hrest⟩
  · rw [context?_eq hlength (getElem?_unmatched? h)] at hnone
    cases hnone
  · rw [hrest]
    exact reportsParseError_unmatched u.bracket rest

end Diagnostic

namespace CommandLine

open Diagnostic

/-- Surroundings with nothing amiss: the settings can be loaded, the program's own variables are
numbers where they are set, and the log is as it is by default. -/
structure Surroundings.Orderly (w : Surroundings) : Prop where
  loads : ∃ settings, w.settings .empty = .ok settings
  numeric : ∀ (key : Key) (raw : String),
    w.env key.variableName = some raw → (Config.readVariable? raw).isSome
  unlogged : w.env "RUST_LOG" = none

namespace Surroundings.Orderly

variable {w : Surroundings} (hw : w.Orderly)
include hw

theorem ignored_eq : w.env.ignored = [] := by
  rw [Config.Environment.ignored, List.filterMap_eq_nil_iff]
  intro key _
  cases hraw : w.env key.variableName with
  | none => rfl
  | some raw =>
      obtain ⟨n, hn⟩ := Option.isSome_iff_exists.mp (hw.numeric key raw hraw)
      simp [hn]

theorem quiet_settingsLog {entry : Log.Entry} (h : entry ∈ w.settingsLog) :
    Log.Level.warn.detail < entry.level.detail := by
  rw [Surroundings.settingsLog, hw.ignored_eq] at h
  dsimp only at h
  split at h
  · cases h
  · cases h
  · rw [List.mem_singleton.mp h]
    exact Log.quiet_debug

variable {debug : Bool} {settings : Settings} {source input : String}

/-- A run shows the table and the output of its evaluation, or its error, and nothing else. -/
theorem finish_eq :
    Run.finish w debug settings source input =
      match (w.evaluation settings debug source input).result with
      | .ok report =>
        .plain 0 ((w.evaluation settings debug source input).table ++ report.output ++ "\n") ""
      | .error e =>
        .plain 1 ((w.evaluation settings debug source input).table ++ "\n")
          ((runError? (some w.program) source.toList settings.timeoutMs e).getD "") := by
  have hbefore : w.log (w.settingsLog ++ [Log.settingsResolved settings]) = "" := by
    apply log_of_quiet hw.unlogged
    intro entry hentry
    rcases List.mem_append.mp hentry with hsource | hresolved
    · exact hw.quiet_settingsLog hsource
    · rw [List.mem_singleton.mp hresolved]
      exact Log.quiet_debug
  have hlog : w.log (w.evaluation settings debug source input).log = "" :=
    log_of_quiet hw.unlogged fun _ hentry => quiet_evaluate hentry
  rw [Run.finish, hbefore, Surroundings.render, hlog]
  cases (w.evaluation settings debug source input).result with
  | ok report => rfl
  | error e => simp

/-- A refused source shows neither heading nor row of a table. -/
theorem finish_of_unmatched {u : Unmatched} (h : unmatched? source.toList = some u) :
    Run.finish w debug settings source input =
      .plain 1 "\n" ((context? (named (some w.program) (unmatchedHeadline u.bracket))
        source.toList u.ip).getD "") := by
  have hresult : (w.evaluation settings debug source input).result = .error (.unmatched u) :=
    evaluate_eq_unmatched_iff.mpr h
  have htable : (w.evaluation settings debug source input).table = "" := table_of_unmatched h
  rw [hw.finish_eq, hresult, htable]
  rfl

theorem not_reportsParseError_finish (h : unmatched? source.toList = none) :
    ¬ ReportsParseError w.program (Run.finish w debug settings source input).output.stderr := by
  rw [hw.finish_eq]
  cases hresult : (w.evaluation settings debug source input).result with
  | ok report =>
      rw [Exit.output_plain]
      exact not_reportsParseError_empty
  | error e =>
      rw [Exit.output_plain]
      intro hreports
      obtain ⟨u, rfl⟩ := eq_unmatched_of_reportsParseError hreports
      rw [evaluate_eq_unmatched_iff.mp hresult] at h
      cases h

end Surroundings.Orderly

/-- The command that checks a source, with the input piped in. -/
def checkCommand (w : Surroundings) (source input : String) : Exit :=
  perform { w with stdin := utf8 input } ["check", "--", source]

/-- The command that runs a source, with or without a step table, with the input piped in. -/
def runTabledCommand (w : Surroundings) (debug : Bool) (source input : String) : Exit :=
  perform { w with stdin := utf8 input }
    ("run" :: (if debug then ["--debug", "--", source] else ["--", source]))

theorem checkCommand_eq (w : Surroundings) (source input : String) :
    checkCommand w source input = Check.verdict w source := by
  have hcheck : checkCommand w source input =
      Check.check { w with stdin := utf8 input } ⟨false, none, [source]⟩ := rfl
  rw [hcheck]
  simp [Check.check, Surroundings.code, Check.verdict]

theorem runTabledCommand_eq {w : Surroundings} {settings : Settings}
    (hsettings : w.settings .empty = .ok settings) (debug : Bool) (source input : String) :
    runTabledCommand w debug source input =
      Run.finish w debug settings source (if w.terminal then "" else input) := by
  have hrun : runTabledCommand w debug source input =
      Run.run { w with stdin := utf8 input }
        ⟨false, debug, none, none, none, .empty, [source]⟩ := by
    cases debug with
    | true => rfl
    | false => rfl
  have hinput : readInput w.terminal (utf8 input) = .ok (if w.terminal then "" else input) := by
    cases w.terminal with
    | true => rfl
    | false => exact readInput_utf8 input
  have hloaded : ({ w with stdin := utf8 input } : Surroundings).settings .empty = .ok settings :=
    hsettings
  have hcode : String.join [source] = source := by simp
  rw [hrun]
  simp only [Run.run, Run.input, Surroundings.code, hinput, hloaded, hcode]
  rfl

/-- The check and the run agree on every source, with a step table or without one, whatever the
input is and however much time there is. A source passes the check exactly if its run reports no
parse error. Otherwise both commands fail and write the same report; the check shows nothing, and
the run no table but only the newline that ends its output, and it takes nothing from its input. -/
theorem check_agrees_with_run (w : Surroundings) (hw : w.Orderly) (debug : Bool)
    (source input : String) (hlength : source.length ≤ wordMax) :
    ((checkCommand w source input).status = 0 ∧
        (checkCommand w source input).output.stdout = "ok\n" ↔
      ¬ ReportsParseError w.program (runTabledCommand w debug source input).output.stderr) ∧
    (ReportsParseError w.program (runTabledCommand w debug source input).output.stderr →
      (checkCommand w source input).status = 1 ∧
      (checkCommand w source input).output.stdout = "" ∧
      (runTabledCommand w debug source input).status = 1 ∧
      (runTabledCommand w debug source input).output.stdout = "\n" ∧
      (checkCommand w source input).output.stderr =
        (runTabledCommand w debug source input).output.stderr ∧
      ∀ settings, w.settings .empty = .ok settings → ∀ fuel text,
        settings.machine.consumed settings.control fuel source text = 0) := by
  obtain ⟨settings, hsettings⟩ := hw.loads
  rw [checkCommand_eq, runTabledCommand_eq hsettings]
  cases hu : unmatched? source.toList with
  | none =>
      have hquiet : ¬ ReportsParseError w.program (Run.finish w debug settings source
          (if w.terminal then "" else input)).output.stderr := hw.not_reportsParseError_finish hu
      have hverdict : Check.verdict w source = .plain 0 "ok\n" "" := by
        simp only [Check.verdict, hu]
      rw [hverdict, Exit.output_plain]
      exact ⟨iff_of_true ⟨rfl, rfl⟩ hquiet, fun hreports => absurd hreports hquiet⟩
  | some u =>
      have hreports := reportsParseError_context hlength hu w.program
      have hverdict : Check.verdict w source = .plain 1 "" ((context?
          (named (some w.program) (unmatchedHeadline u.bracket)) source.toList u.ip).getD "") := by
        simp only [Check.verdict, hu]
      rw [hverdict, hw.finish_of_unmatched hu, Exit.output_plain, Exit.output_plain]
      refine ⟨iff_of_false ?_ (not_not_intro hreports), fun _ => ?_⟩
      · rintro ⟨hstatus, -⟩
        cases hstatus
      · refine ⟨rfl, rfl, rfl, rfl, rfl, ?_⟩
        intro settings _ fuel text
        exact Machine.consumed_of_unbalanced (balanced_eq_false hu)

/-- A loop that is never closed, behind a character of two bytes, under a step table that is never
begun; and a source that passes, whose run fails for want of input. -/
theorem check_agrees_with_run_open_loop :
    emptyRoom.Orderly ∧
      ReportsParseError "bf" (runTabledCommand emptyRoom true "é[,+" "x").output.stderr ∧
      (runTabledCommand emptyRoom true "é[,+" "x").output.stdout = "\n" ∧
      (checkCommand emptyRoom "é[,+" "x").output.stderr =
        (runTabledCommand emptyRoom true "é[,+" "x").output.stderr ∧
      (checkCommand emptyRoom "+[,]" "").output.stdout = "ok\n" ∧
      ¬ ReportsParseError "bf" (runTabledCommand emptyRoom false "+[,]" "").output.stderr := by
  have hroom : emptyRoom.Orderly := ⟨⟨_, rfl⟩, fun _ _ h => (nomatch h), rfl⟩
  obtain ⟨hpasses, hfails⟩ := check_agrees_with_run emptyRoom hroom true "é[,+" "x" (by decide)
  obtain ⟨hpasses', -⟩ := check_agrees_with_run emptyRoom hroom false "+[,]" "" (by decide)
  have hreports : ReportsParseError "bf"
      (runTabledCommand emptyRoom true "é[,+" "x").output.stderr := by
    by_contra hquiet
    have hstatus := (hpasses.mpr hquiet).1
    rw [checkCommand_eq] at hstatus
    cases hstatus
  have hok : (checkCommand emptyRoom "+[,]" "").output.stdout = "ok\n" := by
    rw [checkCommand_eq]
    rfl
  have hstatus : (checkCommand emptyRoom "+[,]" "").status = 0 := by
    rw [checkCommand_eq]
    rfl
  obtain ⟨-, -, -, hstdout, hstderr, -⟩ := hfails hreports
  exact ⟨hroom, hreports, hstdout, hstderr, hok, hpasses'.mp ⟨hstatus, hok⟩⟩

end CommandLine
end Brainfuck
