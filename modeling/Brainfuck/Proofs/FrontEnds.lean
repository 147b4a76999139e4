import Brainfuck.CommandLine.Program
import Brainfuck.CommandLine.Runner
import Brainfuck.Proofs.Budget
import Brainfuck.Proofs.Comments
import Brainfuck.Proofs.Culprits
import Brainfuck.Proofs.Encoding
import Brainfuck.Proofs.Lines
import Brainfuck.Proofs.Rows
import Brainfuck.Proofs.Safety
import Brainfuck.Proofs.Submissions
import Brainfuck.Proofs.Watching

/-!
The three front ends on one source and one input: the command that runs a source given on the
command line, the plain runner, and bare mode, which finds both in one submission. In plain
surroundings they evaluate on the same machine without limits but time, unwatched, and log
nothing.

Main statement: the three front ends agree.
-/

namespace Brainfuck

open Text

/-- A run without limits fails at a place of its source, or where the head leaves the word. -/
theorem Machine.place_of_run_free {m : Machine} {source input : String} {fuel : Nat} {e : Error}
    (h : m.run .free fuel source input = some (.error e)) :
    (∃ ip ∈ e.place?, ip < source.toList.length) ∨ e = .crash .headOverflow := by
  cases hv : balanced source.toList with
  | false =>
      rw [run_of_unbalanced hv] at h
      cases h
      obtain ⟨blamed, hblamed⟩ := exists_unmatched? hv
      rw [Error.ofUnbalanced, hblamed]
      have hget := getElem?_unmatched? hblamed
      exact .inl ⟨blamed.ip, rfl, (List.getElem?_eq_some_iff.mp hget).1⟩
  | true =>
      obtain ⟨n, -, t, c, u, ht, hc, hstep⟩ := (run_free_error_iff hv).mp h
      rcases (reaches_iff.mpr ht).error_cases hv hc hstep with ⟨rfl, -⟩ | ⟨rfl, -⟩
      · exact .inl ⟨t.ip, rfl, Program.lt_length_of_getElem? hc⟩
      · exact .inr rfl

namespace Diagnostic

theorem named_some (name message : String) : named (some name) message = name ++ ": " ++ message :=
  rfl

theorem context?_named (name headline : String) (code : List Char) (pos : Nat) :
    context? (named (some name) headline) code pos =
      (context? headline code pos).map (name ++ ": " ++ ·) := by
  have htext : ∀ s : String, toString s = s := fun _ => rfl
  unfold context?
  split
  · simp only [named_some, htext, unlines_cons, Option.map_some, String.append_assoc]
  · rfl

/-- An error that is told with its place is told alike under a name. -/
theorem runError?_named {e : Error} {code : List Char} (hsize : code.length ≤ wordMax)
    (he : (∃ ip ∈ e.place?, ip < code.length) ∨ e = .crash .headOverflow) (name : String)
    (timeoutMs : Nat) :
    ∃ text, runError? none code timeoutMs e = some text ∧
      runError? (some name) code timeoutMs e = some (name ++ ": " ++ text) := by
  have hplace : ∀ headline ip, ip < code.length →
      ∃ text, context? headline code ip = some text ∧
        context? (named (some name) headline) code ip = some (name ++ ": " ++ text) := by
    intro headline ip hip
    obtain ⟨text, htext⟩ : ∃ text, context? headline code ip = some text :=
      ⟨_, if_pos (end_fits hsize hip)⟩
    exact ⟨text, htext, by rw [context?_named, htext]; rfl⟩
  rcases he with ⟨ip, hip, hlt⟩ | rfl
  · cases e with
    | unmatched u =>
        cases hip
        exact hplace _ _ hlt
    | inputExhausted ip =>
        cases hip
        exact hplace _ _ hlt
    | unbalancedScan ip =>
        cases hip
        exact hplace _ _ hlt
    | stepLimit _ | cancelled | table _ | crash _ => cases hip
  · refine ⟨_, rfl, ?_⟩
    simp only [runError?, machineError?, named_some, unlines_cons, String.append_assoc]
    rfl

end Diagnostic

/-- What the caller is told of a run that ended like this in time. -/
def told (r : Except Error Report) : Except Error Report :=
  (delivery r).getD (.error .cancelled)

theorem told_of_not_crash {r : Except Error Report} (h : ∀ cause, r ≠ .error (.crash cause)) :
    told r = r := by
  rw [told, delivery_eq_some_iff.mpr ⟨rfl, h⟩]
  rfl

theorem exists_told_error (e : Error) : ∃ e', told (.error e) = .error e' := by
  cases e with
  | crash cause => exact ⟨_, rfl⟩
  | _ => exact ⟨_, rfl⟩

namespace CommandLine

theorem Output.empty_append (o : Output) : Output.empty ++ o = o := by
  change Output.append _ _ = _
  simp [Output.append, Output.empty]

theorem Exit.output_plain (status : Nat) (stdout stderr : String) :
    (Exit.plain status stdout stderr).output = ⟨stdout, stderr⟩ :=
  Output.empty_append _

section Unlogged

variable {w : Surroundings} (hw : w.env "RUST_LOG" = none)
include hw

theorem Surroundings.threshold_of_unset : w.threshold = Log.Level.warn.detail := by
  rw [threshold, Log.Threshold.ofEnvironment, hw]
  rfl

/-- By default the log shows nothing below a warning. -/
theorem Surroundings.log_of_quiet {entries : List Log.Entry}
    (h : ∀ entry ∈ entries, Log.Level.warn.detail < entry.level.detail) :
    w.log entries = "" := by
  have hnone : entries.filter (w.threshold.shows ·.level) = [] := by
    rw [List.filter_eq_nil_iff]
    intro entry hentry
    rw [threshold_of_unset hw, Log.Threshold.shows, decide_eq_true_iff]
    exact Nat.not_le_of_lt (h entry hentry)
  rw [log, Log.render, hnone]
  rfl

end Unlogged

/-- Surroundings in which nothing but the arguments and the input decides: the standard input is
piped, there is no config file, no variable of the program's own is set, and the log is as it is
by default. -/
structure Surroundings.Plain (w : Surroundings) : Prop where
  piped : w.terminal = false
  unset : ∀ name, w.env ("BF_" ++ name) = none
  unlogged : w.env "RUST_LOG" = none
  unconfigured : ∀ path ∈ Config.path? w.env, w.read path = .error .notFound

namespace Surroundings.Plain

variable {w : Surroundings} (hw : w.Plain)
include hw

theorem log_eq {entries : List Log.Entry} (h : ∀ entry ∈ entries, entry.level = .debug) :
    w.log entries = "" := by
  apply log_of_quiet hw.unlogged
  intro entry hentry
  rw [h entry hentry]
  exact Log.quiet_debug

theorem variable_unset (key : Key) : w.env key.variableName = none := by
  cases key with
  | tapeSize => exact hw.unset "TAPE_SIZE"
  | loopMax => exact hw.unset "LOOP_MAX"
  | maxSteps => exact hw.unset "MAX_STEPS"
  | timeoutMs => exact hw.unset "TIMEOUT_MS"

theorem loadSelected_eq : Config.loadSelected w.env w.read = .ok none := by
  rw [Config.loadSelected]
  cases hpath : Config.path? w.env with
  | none => rfl
  | some path =>
      have hread := hw.unconfigured path hpath
      simp only [Config.loadFile, Reader.text, hread]
      rfl

theorem settings_eq : w.settings .empty = .ok .standard := by
  have hlayer : w.env.layer = .empty := by
    simp only [Config.Environment.layer, hw.variable_unset]
    rfl
  rw [Surroundings.settings, Config.load, hw.loadSelected_eq, hlayer]
  rfl

theorem settingsLog_eq : w.settingsLog = [] := by
  have hignored : w.env.ignored = [] := by
    simp [Config.Environment.ignored, hw.variable_unset]
  rw [Surroundings.settingsLog, hw.loadSelected_eq, hignored]
  rfl

variable {source input : String} {r : Except Error Report}
  (hr : Machine.standard.run .free (w.patience Settings.standard.timeoutMs) source input = some r)
include hr

/-- The evaluation of a source that ends in time. -/
theorem evaluation_eq :
    (w.evaluation .standard false source input).result = told r ∧
      (w.evaluation .standard false source input).table = "" ∧
      w.log (w.evaluation .standard false source input).log = "" := by
  have hrun : Settings.standard.machine.run Settings.standard.control
      (w.patience Settings.standard.timeoutMs) source input = some r := hr
  refine ⟨?_, table_evaluate .., log_of_quiet hw.unlogged fun _ hentry => quiet_evaluate hentry⟩
  rw [Surroundings.evaluation, result_evaluate, hrun]
  rfl

/-- What such an evaluation shows. -/
theorem render_eq (name : Option String) :
    w.render name .standard source (w.evaluation .standard false source input) =
      match told r with
      | .ok report => ⟨report.output ++ "\n", ""⟩
      | .error e => ⟨"\n", (Diagnostic.runError? name source.toList
          Settings.standard.timeoutMs e).getD ""⟩ := by
  obtain ⟨hresult, htable, hlog⟩ := hw.evaluation_eq hr
  rw [Surroundings.render, hresult, htable, hlog]
  cases told r with
  | ok report => simp
  | error e => simp

theorem perform_run (hstdin : w.stdin = utf8 input) :
    perform w ["run", "--", source] =
      match told r with
      | .ok report => .plain 0 (report.output ++ "\n") ""
      | .error e => .plain 1 "\n" ((Diagnostic.runError? (some w.program) source.toList
          Settings.standard.timeoutMs e).getD "") := by
  have hinput : readInput w.terminal w.stdin = .ok input := by
    rw [hw.piped, hstdin, readInput_utf8]
  have hrun : perform w ["run", "--", source] =
      Run.run w ⟨false, false, none, none, none, .empty, [source]⟩ := rfl
  have hfinish : Run.run w ⟨false, false, none, none, none, .empty, [source]⟩ =
      Run.finish w false .standard source input := by
    simp [Run.run, Run.input, Surroundings.code, hinput, hw.settings_eq]
  have hbefore : w.log (w.settingsLog ++ [Log.settingsResolved .standard]) = "" := by
    rw [hw.settingsLog_eq]
    exact hw.log_eq (by simp [Log.settingsResolved])
  rw [hrun, hfinish, Run.finish]
  simp only [hw.render_eq hr, hbefore, (hw.evaluation_eq hr).1]
  cases told r with
  | ok report => rfl
  | error e => simp

theorem perform_bare (hstdin : w.stdin = utf8 (source ++ "!\r\n" ++ input ++ "\r\n"))
    (hends : source.toList.getLast? = some '\n')
    (hinstruction : source.toList.any isInstruction = true)
    (hseparator : ∀ k, '!' :: (List.replicate k '\r' ++ ['\n']) ∉ lines source.toList) :
    perform w ["repl", "--bare"] =
      match told r with
      | .ok report => .plain 0 (report.output ++ "\n") ""
      | .error e => .plain 0 "\n" ((Diagnostic.runError? none source.toList
          Settings.standard.timeoutMs e).getD "") := by
  have htext : (source ++ "!\r\n" ++ input ++ "\r\n").toList =
      source.toList ++ '!' :: '\r' :: '\n' :: (input.toList ++ ['\r'] ++ ['\n']) := by
    simp
  have hne : source ++ "!\r\n" ++ input ++ "\r\n" ≠ "" := by
    intro hempty
    rw [hempty] at htext
    simp at htext
  have hparse : Submission.parse (source ++ "!\r\n" ++ input ++ "\r\n").toList =
      ⟨source.toList, input.toList⟩ := by
    have hnone := Submission.not_separates_of_mem_lines hends hseparator
    have hreturn : ∀ c ∈ ['\r'], c = '\r' := List.forall_mem_singleton.mpr rfl
    have hassembled := Submission.parse_assembled (.inr hends) hnone hreturn
      (input.toList ++ ['\r'] ++ ['\n'])
    rw [Submission.dropFinalBreak_return_newline] at hassembled
    rw [htext]
    exact hassembled
  have hrespond : Repl.respond? w .standard (source ++ "!\r\n" ++ input ++ "\r\n") =
      some (w.render none .standard source (w.evaluation .standard false source input)) := by
    simp only [Repl.respond?, hparse, Submission.hasInstructions, hinstruction,
      String.ofList_toList]
    rfl
  have hbare : Repl.bareOutput w .standard =
      w.render none .standard source (w.evaluation .standard false source input) := by
    rw [Repl.bareOutput, hstdin, Submission.read?_utf8 hne]
    simp only [Option.bind_some, hrespond, Option.getD_some]
  have hrepl : perform w ["repl", "--bare"] = Repl.repl w ⟨false, true, false⟩ := rfl
  have hlog : w.log w.settingsLog = "" := by
    rw [hw.settingsLog_eq]
    exact hw.log_eq (by simp)
  have hstart : Repl.start w ⟨false, true, false⟩ = .ok (.bare, .standard, "") := by
    simp [Repl.start, Repl.flag?, Repl.resolveMode, hw.settings_eq, hlog]
  rw [hrepl, Repl.repl, if_neg Bool.false_ne_true, hstart]
  simp only [hbare, hw.render_eq hr]
  cases told r with
  | ok report => exact congrArg (Exit.mk 0 [·]) (Output.empty_append _)
  | error e => exact congrArg (Exit.mk 0 [·]) (Output.empty_append _)

end Surroundings.Plain

/-- A text that ends with a newline is no flag. -/
theorem Runner.not_flag {source : String} (hends : source.toList.getLast? = some '\n') :
    Runner.isHelp source = false ∧ Runner.isDebug source = false := by
  have hne : ∀ flag : String, flag.toList.getLast? ≠ some '\n' → (source == flag) = false := by
    intro flag hflag
    rw [beq_eq_false_iff_ne]
    rintro rfl
    exact hflag hends
  constructor
  · rw [isHelp, hne _ (by decide), hne _ (by decide)]
    rfl
  · rw [isDebug, hne _ (by decide), hne _ (by decide)]
    rfl

theorem Runner.runner_eq {w : Surroundings} {source input : String} (hpiped : w.terminal = false)
    (hstdin : w.stdin = utf8 input) (hends : source.toList.getLast? = some '\n') {fuel : Nat}
    {r : Except Error Report} (hr : Machine.standard.run .free fuel source input = some r) :
    Runner.runner w fuel [source] = some (Runner.finish "" r) := by
  obtain ⟨hhelp, hdebug⟩ := Runner.not_flag hends
  have hinput : readInput w.terminal w.stdin = .ok input := by
    rw [hpiped, hstdin, readInput_utf8]
  simp [Runner.runner, hhelp, hdebug, hinput, hr]

/-- The command that runs a source, with the input piped in. -/
def runCommand (w : Surroundings) (source input : String) : Exit :=
  perform { w with stdin := utf8 input } ["run", "--", source]

/-- The plain runner, with the input piped in. -/
def plainRunner? (w : Surroundings) (fuel : Nat) (source input : String) : Option Exit :=
  Runner.runner { w with stdin := utf8 input } fuel [source]

/-- Bare mode, with source and input in one submission. -/
def bareMode (w : Surroundings) (source input : String) : Exit :=
  perform { w with stdin := utf8 (source ++ "!\r\n" ++ input ++ "\r\n") } ["repl", "--bare"]

/-- The three front ends agree on a source of whole lines, none of them a separator, that holds
an instruction and is evaluated in time. If it succeeds, each of them shows just its output and a
newline. If it fails, none of them shows any of its output, the command and the runner end with
status one and bare mode with zero, and the command tells the error as bare mode does, in the
program's name. A crash is no error to tell; it takes more instructions than the word counts. -/
theorem front_ends_agree (w : Surroundings) (hw : w.Plain) (source input : String)
    (hends : source.toList.getLast? = some '\n')
    (hcode : ∃ c ∈ source.toList, c ∈ codeChars)
    (hseparator : ∀ k, '!' :: (List.replicate k '\r' ++ ['\n']) ∉ lines source.toList)
    (r : Except Error Report)
    (hr : Machine.standard.run .free (w.patience Settings.standard.timeoutMs) source input =
      some r) :
    (∀ report, r = .ok report →
      (runCommand w source input).status = 0 ∧
      (runCommand w source input).output = ⟨report.output ++ "\n", ""⟩ ∧
      (bareMode w source input).status = 0 ∧
      (bareMode w source input).output = ⟨report.output ++ "\n", ""⟩ ∧
      ∀ fuel ≥ w.patience Settings.standard.timeoutMs, ∃ exit,
        plainRunner? w fuel source input = some exit ∧ exit.status = 0 ∧
          exit.output = ⟨report.output ++ "\n", ""⟩) ∧
    ∀ e, r = .error e →
      (runCommand w source input).status = 1 ∧
      (runCommand w source input).output.stdout = "\n" ∧
      (bareMode w source input).status = 0 ∧
      (bareMode w source input).output.stdout = "\n" ∧
      (∀ cause, e = .crash cause → wordMax < w.patience Settings.standard.timeoutMs) ∧
      (source.length ≤ wordMax → (∀ cause, e ≠ .crash cause) →
        (runCommand w source input).output.stderr =
          w.program ++ ": " ++ (bareMode w source input).output.stderr) ∧
      ∀ fuel ≥ w.patience Settings.standard.timeoutMs, ∃ exit,
        plainRunner? w fuel source input = some exit ∧ exit.status = 1 ∧
          exit.output.stdout = "" := by
  have hplain : ∀ stdin, ({ w with stdin := stdin } : Surroundings).Plain := fun _ =>
    ⟨hw.piped, hw.unset, hw.unlogged, hw.unconfigured⟩
  have hrun := (hplain (utf8 input)).perform_run hr rfl
  have hinstruction : source.toList.any isInstruction = true := by
    simpa only [List.any_eq_true, ← mem_codeChars_iff] using hcode
  have hbare := (hplain (utf8 (source ++ "!\r\n" ++ input ++ "\r\n"))).perform_bare hr rfl hends
    hinstruction hseparator
  have hrunner : ∀ fuel ≥ w.patience Settings.standard.timeoutMs,
      plainRunner? w fuel source input = some (Runner.finish "" r) := fun fuel hfuel =>
    Runner.runner_eq (hplain (utf8 input)).piped rfl hends (Machine.run_of_le hr hfuel)
  refine ⟨?_, ?_⟩
  · rintro report rfl
    rw [runCommand, bareMode, hrun, hbare]
    refine ⟨rfl, Exit.output_plain .., rfl, Exit.output_plain .., fun fuel hfuel => ?_⟩
    refine ⟨_, hrunner fuel hfuel, rfl, ?_⟩
    rw [Runner.finish, Exit.output_plain, String.empty_append]
  · rintro e rfl
    obtain ⟨e', htold⟩ := exists_told_error e
    rw [runCommand, bareMode, hrun, hbare, htold]
    simp only [Exit.output_plain]
    refine ⟨rfl, trivial, rfl, trivial, ?_, ?_, fun fuel hfuel => ?_⟩
    · rintro cause rfl
      by_contra hfew
      exact Machine.not_isInternal_of_execute Monitor.failsInTable_silent (Nat.le_of_not_lt hfew) hr
        trivial
    · intro hsize hcrash
      rw [told_of_not_crash (by simpa using hcrash)] at htold
      cases htold
      obtain ⟨text, htext, hnamed⟩ := Diagnostic.runError?_named hsize
        (Machine.place_of_run_free hr) w.program Settings.standard.timeoutMs
      rw [htext, hnamed]
      rfl
    · exact ⟨_, hrunner fuel hfuel, rfl, by rw [Runner.finish, Exit.output_plain]⟩

/-- Surroundings with nothing set and no files, in which forty instructions are executed in
time. -/
def emptyRoom : Surroundings where
  program := "bf"
  env _ := none
  read _ := .error .notFound
  terminal := false
  stdin := []
  typed := []
  patience _ := 40
  moment := ""

/-- A line break as input, an exclamation mark in a comment, and a read that fails. -/
theorem front_ends_agree_echo :
    emptyRoom.Plain ∧
      (bareMode emptyRoom ",.!\n" "\n").output = ⟨"\n\n", ""⟩ ∧
      (∃ exit, plainRunner? emptyRoom 40 ",.!\n" "\n" = some exit ∧
        exit.output = ⟨"\n\n", ""⟩) ∧
      (runCommand emptyRoom ".,\n" "").output.stdout = "\n" ∧
      (runCommand emptyRoom ".,\n" "").output.stderr =
        "bf: " ++ (bareMode emptyRoom ".,\n" "").output.stderr := by
  have hroom : emptyRoom.Plain := ⟨rfl, fun _ => rfl, rfl, fun _ _ => rfl⟩
  have hecho : Machine.standard.run .free (emptyRoom.patience Settings.standard.timeoutMs)
      ",.!\n" "\n" = some (.ok ⟨"\n", [10], 4⟩) := rfl
  have hstarve : Machine.standard.run .free (emptyRoom.patience Settings.standard.timeoutMs)
      ".,\n" "" = some (.error (.inputExhausted 1)) := rfl
  have hwhole : ∀ k, '!' :: (List.replicate k '\r' ++ ['\n']) ∉ lines ",.!\n".toList := by
    intro k hmem
    have hfirst := List.mem_singleton.mp (show _ ∈ [[',', '.', '!', '\n']] from hmem)
    cases hfirst
  have hwhole' : ∀ k, '!' :: (List.replicate k '\r' ++ ['\n']) ∉ lines ".,\n".toList := by
    intro k hmem
    have hfirst := List.mem_singleton.mp (show _ ∈ [['.', ',', '\n']] from hmem)
    cases hfirst
  have hread : ',' ∈ codeChars := by simp [codeChars]
  obtain ⟨hok, -⟩ := front_ends_agree emptyRoom hroom ",.!\n" "\n" rfl ⟨',', by simp, hread⟩ hwhole
    _ hecho
  obtain ⟨-, herror⟩ := front_ends_agree emptyRoom hroom ".,\n" "" rfl ⟨',', by simp, hread⟩ hwhole'
    _ hstarve
  obtain ⟨-, -, -, hbare, hrunner⟩ := hok _ rfl
  obtain ⟨-, hstdout, -, -, -, hstderr, -⟩ := herror _ rfl
  obtain ⟨exit, hexit, -, houtput⟩ := hrunner 40 (Nat.le_refl 40)
  exact ⟨hroom, hbare, ⟨exit, hexit, houtput⟩, hstdout, hstderr (by decide) (by simp)⟩

end CommandLine
end Brainfuck
