import Brainfuck.CommandLine.Repl
import Brainfuck.Proofs.Encoding
import Brainfuck.Proofs.Rows
import Brainfuck.Proofs.Strip

/-!
Sessions of the editor. A session keeps nothing from one buffer to the next: the response to a
buffer depends on the buffer, and on the time there is only if it runs out. In bare mode the same
response is given to the text of the standard input. A session that is to end after one evaluation
passes over the buffers without instructions before it.

Main statement: a session shows for every buffer what bare mode shows when it is given that buffer.
-/

namespace Brainfuck

/-- An evaluation that ends does not depend on how long there was. -/
theorem evaluate_of_ended {settings : Settings} {patience patience' : Nat} {source input : String}
    {r r' : Except Error Report}
    (h : settings.machine.run settings.control patience source input = some r)
    (h' : settings.machine.run settings.control patience' source input = some r')
    (watching : Watching) :
    evaluate settings watching patience source input =
      evaluate settings watching patience' source input := by
  cases Nat.le_total patience patience' with
  | inl hle => simp only [evaluate, Machine.execute_of_le h hle]
  | inr hle => simp only [evaluate, Machine.execute_of_le h' hle]

namespace CommandLine

/-- The buffer has an instruction in its source. -/
def HasCode (buffer : String) : Prop :=
  ∃ c ∈ (Submission.parse buffer.toList).source, c ∈ codeChars

/-- If the buffer is evaluated at all, that ends within so many instructions. -/
def EndsWithin (settings : Settings) (patience : Nat) (buffer : String) : Prop :=
  HasCode buffer →
    ∃ r, settings.machine.run settings.control patience
      (String.ofList (Submission.parse buffer.toList).source)
      (String.ofList (Submission.parse buffer.toList).input) = some r

/-- Bare mode with a buffer as its standard input, at a pace of its own. -/
def bareRun (w : Surroundings) (settings : Settings) (pace : String → Nat → Nat)
    (buffer : String) : Output :=
  Repl.bareOutput
    { w with terminal := false, stdin := utf8 buffer, patience := pace buffer } settings

section Responses

variable {w : Surroundings} {settings : Settings} {buffer : String}

theorem hasInstructions_iff : (Submission.parse buffer.toList).hasInstructions = true ↔
    HasCode buffer := by
  simp only [Submission.hasInstructions, List.any_eq_true, HasCode, mem_codeChars_iff]

theorem respond?_of_not_hasCode (h : ¬ HasCode buffer) : Repl.respond? w settings buffer = none := by
  rw [Repl.respond?, if_neg (mt hasInstructions_iff.mp h)]

theorem respond?_of_hasCode (h : HasCode buffer) :
    Repl.respond? w settings buffer =
      some (w.render none settings (String.ofList (Submission.parse buffer.toList).source)
        (w.evaluation settings false (String.ofList (Submission.parse buffer.toList).source)
          (String.ofList (Submission.parse buffer.toList).input))) := by
  rw [Repl.respond?, if_pos (hasInstructions_iff.mpr h)]

/-- The response does not depend on how long there is, as long as that is enough. -/
theorem respond?_of_endsWithin {patience : Nat → Nat}
    (h : EndsWithin settings (w.patience settings.timeoutMs) buffer)
    (h' : EndsWithin settings (patience settings.timeoutMs) buffer) (stdin : List UInt8) :
    Repl.respond? { w with terminal := false, stdin := stdin, patience := patience } settings
      buffer = Repl.respond? w settings buffer := by
  by_cases hcode : HasCode buffer
  · obtain ⟨r, hr⟩ := h hcode
    obtain ⟨r', hr'⟩ := h' hcode
    have hevaluation := evaluate_of_ended hr' hr ⟨false, w.threshold.shows .trace⟩
    -- Neither time nor the standard input is looked at when an evaluation is shown.
    have hrender (source : String) (e : Evaluation) :
        Surroundings.render { w with terminal := false, stdin := stdin, patience := patience } none
          settings source e = w.render none settings source e := rfl
    rw [respond?_of_hasCode hcode, respond?_of_hasCode hcode, hrender, Surroundings.evaluation,
      Surroundings.evaluation, ← hevaluation]
    rfl
  · rw [respond?_of_not_hasCode hcode, respond?_of_not_hasCode hcode]

/-- Bare mode responds to the text of the standard input, if there is any. -/
theorem bareOutput_of_stdin (h : w.stdin = utf8 buffer) :
    Repl.bareOutput w settings = (Repl.respond? w settings buffer).getD .empty := by
  rw [Repl.bareOutput, h]
  by_cases hempty : buffer = ""
  · have hnone : Submission.read? (utf8 buffer) = none :=
      Submission.read?_eq_none_iff.mpr (.inl (utf8_eq_nil_iff.mpr hempty))
    have hcode : ¬ HasCode buffer := by
      rw [hempty]
      rintro ⟨c, hc, -⟩
      cases hc
    rw [hnone, respond?_of_not_hasCode hcode]
    rfl
  · rw [Submission.read?_utf8 hempty]
    rfl

theorem bareRun_eq {pace : String → Nat → Nat}
    (h : EndsWithin settings (w.patience settings.timeoutMs) buffer)
    (h' : EndsWithin settings (pace buffer settings.timeoutMs) buffer) :
    bareRun w settings pace buffer = (Repl.respond? w settings buffer).getD .empty := by
  rw [bareRun, bareOutput_of_stdin rfl, respond?_of_endsWithin h h']

theorem bareRun_of_not_hasCode (h : ¬ HasCode buffer) (pace : String → Nat → Nat) :
    bareRun w settings pace buffer = .empty := by
  rw [bareRun, bareOutput_of_stdin rfl, respond?_of_not_hasCode h]
  rfl

end Responses

section Rows

variable (w : Surroundings) (settings : Settings)

/-- A session that goes on responds to one buffer after the other. -/
theorem editorRows_going_on (buffers : List String) :
    Repl.editorRows w settings false buffers =
      buffers.map (fun buffer => (Repl.respond? w settings buffer).getD .empty) ++ [⟨"\n", ""⟩] := by
  induction buffers with
  | nil => rfl
  | cons buffer rest ih =>
      rw [Repl.editorRows, List.map_cons, List.cons_append, ← ih]
      cases Repl.respond? w settings buffer with
      | none => rfl
      | some output => rfl

/-- Buffers without instructions write nothing and do not end a session. -/
theorem editorRows_idle {idle : List String} (h : ∀ buffer ∈ idle, ¬ HasCode buffer)
    (once : Bool) (rest : List String) :
    Repl.editorRows w settings once (idle ++ rest) =
      idle.map (fun _ => .empty) ++ Repl.editorRows w settings once rest := by
  induction idle with
  | nil => rfl
  | cons buffer idle ih =>
      obtain ⟨hbuffer, hidle⟩ := List.forall_mem_cons.mp h
      simp only [List.cons_append, List.map_cons, Repl.editorRows, respond?_of_not_hasCode hbuffer,
        ih hidle]

theorem editorRows_once {buffer : String} {output : Output}
    (h : Repl.respond? w settings buffer = some output) (rest : List String) :
    Repl.editorRows w settings true (buffer :: rest) = [output] := by
  simp only [Repl.editorRows, h, if_true]

end Rows

/-- A session of the editor treats every buffer as bare mode treats it alone, at whatever pace, if
it is evaluated in time. If the session is not to end after one evaluation, each buffer has the
output of its own bare run, whatever the others are, and the end adds a newline. If it is, the
same holds up to the first buffer with an instruction, and what follows that buffer plays no part;
without such a buffer the session goes on to its end. A bare run without instructions writes
nothing. -/
theorem session_rows_are_bare_runs (w : Surroundings) (settings : Settings)
    (pace : String → Nat → Nat) :
    (w.env "BF_REPL_ONCE" ≠ some "1" → ∀ buffers,
      (∀ buffer ∈ buffers, EndsWithin settings (w.patience settings.timeoutMs) buffer ∧
        EndsWithin settings (pace buffer settings.timeoutMs) buffer) →
      Repl.editorRows w settings (Repl.once w.env) buffers =
        buffers.map (bareRun w settings pace) ++ [⟨"\n", ""⟩]) ∧
    (w.env "BF_REPL_ONCE" = some "1" → ∀ idle, (∀ buffer ∈ idle, ¬ HasCode buffer) →
      (∀ buffer rest, HasCode buffer →
        EndsWithin settings (w.patience settings.timeoutMs) buffer →
        EndsWithin settings (pace buffer settings.timeoutMs) buffer →
        Repl.editorRows w settings (Repl.once w.env) (idle ++ buffer :: rest) =
          idle.map (bareRun w settings pace) ++ [bareRun w settings pace buffer]) ∧
      Repl.editorRows w settings (Repl.once w.env) idle =
        idle.map (bareRun w settings pace) ++ [⟨"\n", ""⟩]) ∧
    ∀ buffer, ¬ HasCode buffer → bareRun w settings pace buffer = .empty := by
  refine ⟨?_, ?_, fun buffer h => bareRun_of_not_hasCode h pace⟩
  · intro honce buffers hends
    have hrows : buffers.map (bareRun w settings pace) =
        buffers.map fun buffer => (Repl.respond? w settings buffer).getD .empty :=
      List.map_congr_left fun buffer hbuffer =>
        bareRun_eq (hends buffer hbuffer).1 (hends buffer hbuffer).2
    rw [Repl.once, decide_eq_false honce, editorRows_going_on, hrows]
  · intro honce idle hidle
    have hrows : idle.map (bareRun w settings pace) = idle.map fun _ => .empty :=
      List.map_congr_left fun buffer hbuffer => bareRun_of_not_hasCode (hidle buffer hbuffer) pace
    rw [Repl.once, decide_eq_true honce, hrows]
    refine ⟨?_, ?_⟩
    · intro buffer rest hcode hends hends'
      rw [editorRows_idle w settings hidle, bareRun_eq hends hends', respond?_of_hasCode hcode,
        editorRows_once w settings (respond?_of_hasCode hcode), Option.getD_some]
    · have hend := editorRows_idle w settings hidle true []
      rw [List.append_nil] at hend
      exact hend

/-- Surroundings in which forty instructions are executed in time and a session ends after one
evaluation if the value says so. -/
def editorRoom (once : Option String) : Surroundings where
  program := "bf"
  env name := if name = "BF_REPL_ONCE" then once else none
  read _ := .error .notFound
  terminal := true
  stdin := []
  typed := []
  patience _ := 40
  moment := ""

/-- A source that is refused and one that reads, in bare mode at a slower pace; and a session that
ends after its first evaluation, before a source that would never end. -/
theorem session_rows_are_bare_runs_endless :
    Repl.editorRows (editorRoom (some "0")) .standard (Repl.once (editorRoom (some "0")).env)
        ["+[", ",.\n!\nA"] =
      [bareRun (editorRoom (some "0")) .standard (fun _ _ => 7) "+[",
        bareRun (editorRoom (some "0")) .standard (fun _ _ => 7) ",.\n!\nA", ⟨"\n", ""⟩] ∧
    Repl.editorRows (editorRoom (some "1")) .standard (Repl.once (editorRoom (some "1")).env)
        ["words", ".", "+[]"] =
      [.empty, bareRun (editorRoom (some "1")) .standard (fun _ _ => 7) "."] := by
  obtain ⟨hgoing, -, -⟩ :=
    session_rows_are_bare_runs (editorRoom (some "0")) .standard fun _ _ => 7
  obtain ⟨-, honce, hidle⟩ :=
    session_rows_are_bare_runs (editorRoom (some "1")) .standard fun _ _ => 7
  have hwords : ¬ HasCode "words" := by
    rw [← hasInstructions_iff]
    decide
  have hrows := (honce rfl ["words"] (List.forall_mem_singleton.mpr hwords)).1 "." ["+[]"]
    (hasInstructions_iff.mp rfl) (fun _ => ⟨_, rfl⟩) (fun _ => ⟨_, rfl⟩)
  rw [List.map_singleton, hidle "words" hwords] at hrows
  refine ⟨hgoing (by decide) ["+[", ",.\n!\nA"] ?_, hrows⟩
  rw [List.forall_mem_cons, List.forall_mem_singleton]
  exact ⟨⟨fun _ => ⟨_, rfl⟩, fun _ => ⟨_, rfl⟩⟩, fun _ => ⟨_, rfl⟩, fun _ => ⟨_, rfl⟩⟩

end CommandLine
end Brainfuck
