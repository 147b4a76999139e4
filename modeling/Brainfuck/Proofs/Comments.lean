import Brainfuck.Proofs.Steps
import Brainfuck.Proofs.Strip
import Brainfuck.Submission

/-!
Runs of programs with and without comments. A program and its stripped form run side by side: the
states differ only in the place, which in one of them is the rank of the place in the other. A
comment is a step of the program alone, and it leaves the rank as it is.

Main statement: comments do not matter. Either both sources are refused, at brackets that
correspond, or their runs end alike: with the same output, after numbers of steps that differ by
the comments executed, or for want of input at reads that correspond.
-/

namespace Brainfuck

def State.placed (s : State) (ip : Nat) : State :=
  { s with ip := ip }

namespace Error

def place? : Error → Option Nat
  | .unmatched u => some u.ip
  | .inputExhausted ip => some ip
  | .unbalancedScan ip => some ip
  | _ => none

/-- The error with the place it names moved. -/
def mapPlace (f : Nat → Nat) : Error → Error
  | .unmatched u => .unmatched ⟨f u.ip, u.bracket⟩
  | .inputExhausted ip => .inputExhausted (f ip)
  | .unbalancedScan ip => .unbalancedScan (f ip)
  | e => e

theorem place?_mapPlace (e : Error) (f : Nat → Nat) : (e.mapPlace f).place? = e.place?.map f := by
  cases e <;> rfl

theorem mapPlace_mapPlace (e : Error) (f g : Nat → Nat) :
    (e.mapPlace f).mapPlace g = e.mapPlace (g ∘ f) := by
  cases e <;> rfl

theorem eq_of_mapPlace_eq {f : Nat → Nat} {e e' : Error} (h : e.mapPlace f = e'.mapPlace f)
    (hplace : ∀ i ∈ e.place?, ∀ j ∈ e'.place?, f i = f j → i = j) : e = e' := by
  rcases e with ⟨⟨i, b⟩⟩ | i | _ | _ | i | _ | _ <;>
    rcases e' with ⟨⟨j, b'⟩⟩ | j | _ | _ | j | _ | _ <;>
      simp_all [mapPlace, place?]

end Error

namespace State

/-- From every place the attempt does the same: it goes one place further, or it fails. -/
def PlaceFree (s : State) (attempt : State → Attempt) : Prop :=
  (∃ (t : State) (action : Action), action ≠ .ignored ∧
      ∀ ip, attempt (s.placed ip) = (t.placed (ip + 1), .ok action)) ∨
    ∃ e : Error, ∀ ip, attempt (s.placed ip) = (s.placed ip).fail (e.mapPlace fun _ => ip)

theorem placeFree_moveBy (s : State) (delta : Int) : s.PlaceFree (·.moveBy delta) := by
  by_cases hfits : fitsWord (s.head + delta) = true
  · refine .inl ⟨{ s with head := s.tape.wrap (s.head + delta) },
      .moved (s.tape.wrap (s.head + delta)), by simp, ?_⟩
    intro ip
    exact if_pos hfits
  · refine .inr ⟨.crash .headOverflow, ?_⟩
    intro ip
    exact if_neg hfits

theorem placeFree_changeBy (s : State) (delta : Int) : s.PlaceFree (·.changeBy delta) := by
  cases hadd : s.tape.add? s.head delta with
  | some added =>
      refine .inl ⟨{ s with tape := added.1 }, .changed s.cell added.2, by simp, ?_⟩
      intro ip
      simp only [changeBy, placed, hadd]
      rfl
  | none =>
      refine .inr ⟨.crash .cellRefused, ?_⟩
      intro ip
      simp only [changeBy, placed, hadd]
      rfl

theorem placeFree_readCell (s : State) : s.PlaceFree readCell := by
  cases hp : s.pending with
  | nil =>
      refine .inr ⟨.inputExhausted 0, ?_⟩
      intro ip
      simp only [readCell, placed, hp]
      rfl
  | cons c rest =>
      cases hset : s.tape.set? s.head c.toNat with
      | some tape =>
          refine .inl ⟨{ s with tape := tape, pending := rest }, .took c.toNat, by simp, ?_⟩
          intro ip
          simp only [readCell, placed, hp, hset]
          rfl
      | none =>
          refine .inr ⟨.crash .cellRefused, ?_⟩
          intro ip
          simp only [readCell, placed, hp, hset]
          rfl

theorem placeFree_perform (s : State) {c : Char} (hplain : IsPlain c)
    (hc : isInstruction c = true) : s.PlaceFree (·.perform c) := by
  obtain ⟨i, hi⟩ := Option.isSome_iff_exists.mp hc
  have hchar := Instruction.ofChar?_eq_some_iff.mp hi
  simp only [perform, hi]
  cases i with
  | right => exact s.placeFree_moveBy 1
  | left => exact s.placeFree_moveBy (-1)
  | increment => exact s.placeFree_changeBy 1
  | decrement => exact s.placeFree_changeBy (-1)
  | write =>
      exact .inl ⟨{ s with written := s.cell :: s.written }, .wrote s.cell, by simp, fun _ => rfl⟩
  | read => exact s.placeFree_readCell
  | loopOpen => exact absurd hchar hplain.1
  | loopClose => exact absurd hchar hplain.2

/-- The state of the stripped program that belongs to a state: the place is its rank. -/
def stripped (p : Program) (s : State) : State :=
  s.placed (rank p.toList s.ip)

end State

theorem step_comment {p : Program} {s : State} {c : Char} (h : p[s.ip]? = some c)
    (hc : isInstruction c = false) :
    step p s = (s.placed (s.ip + 1), .ok .ignored) ∧
      (s.placed (s.ip + 1)).stripped p = s.stripped p := by
  have hnone : Instruction.ofChar? c = none := by simpa [isInstruction] using hc
  have hlist : p.toList[s.ip]? = some c := by rwa [Array.getElem?_toList]
  refine ⟨?_, ?_⟩
  · simp only [step, h, hnone]
    rfl
  · change s.placed (rank p.toList (s.ip + 1)) = s.placed (rank p.toList s.ip)
    rw [rank_succ_of_comment hlist hc]

namespace Program

theorem strip_loop {p : Program} {i : Nat} {body : Block} (ho : p[i]? = some '[')
    (hbody : p.Spells (i + 1) body.text) (hc : p[i + 1 + body.text.length]? = some ']') :
    (p.strip[rank p.toList i]? = some '[' ∧
      p.strip.Spells (rank p.toList i + 1) body.strip.text ∧
      p.strip[rank p.toList i + 1 + body.strip.text.length]? = some ']') ∧
    rank p.toList (i + 1 + body.text.length) = rank p.toList i + 1 + body.strip.text.length ∧
    rank p.toList (i + 1 + body.text.length + 1) =
      rank p.toList i + 1 + body.strip.text.length + 1 := by
  have hloop : p.Spells i (body.loop .done).text := spells_loop.mpr ⟨ho, hbody, hc, trivial⟩
  have hstrip := (spells_strip hloop).1
  rw [← Block.text_strip] at hstrip
  obtain ⟨ho', hbody', hc', -⟩ := spells_loop.mp hstrip
  have hend := (spells_strip hbody).2
  rw [← Array.getElem?_toList] at ho hc
  rw [rank_succ_of_instruction ho isInstruction_open, ← Block.text_strip] at hend
  exact ⟨⟨ho', hbody', hc'⟩, hend, by rw [rank_succ_of_instruction hc isInstruction_close, hend]⟩

end Program

/-- An instruction does the same in the stripped program, or fails likewise at its rank. -/
theorem step_strip {p : Program} (hp : balanced p.toList = true) {s : State} {c : Char}
    (hc : p[s.ip]? = some c) (hi : isInstruction c = true) :
    (∃ (t : State) (action action' : Action), step p s = (t, .ok action) ∧ action ≠ .ignored ∧
        step p.strip (s.stripped p) = (t.stripped p, .ok action')) ∨
      ∃ e : Error, step p s = s.fail e ∧ (∀ ip ∈ e.place?, ip = s.ip) ∧
        step p.strip (s.stripped p) = (s.stripped p).fail (e.mapPlace (rank p.toList)) := by
  have hc' := Program.getElem?_strip hc hi
  -- A loop around the stripped body is what the scans of the stripped program pass over, so the
  -- place that they find is the rank of the place found here.
  rcases bracket_cases c with rfl | rfl | hplain
  · left
    by_cases hcell : s.cell = 0
    · obtain ⟨body, hbody, hclose⟩ := Program.exists_loop_of_open hp hc
      obtain ⟨⟨-, hbody', hclose'⟩, -, hend⟩ := Program.strip_loop hc hbody hclose
      refine ⟨_, _, .skippedLoop (rank p.toList s.ip + 1 + body.strip.text.length),
        step_skip hc hcell (Program.close?_loop hbody hclose), by simp, ?_⟩
      rw [step_skip (s := s.stripped p) hc' hcell (Program.close?_loop hbody' hclose')]
      simp only [State.stripped, State.placed, hend]
    · refine ⟨_, _, .enteredLoop, step_enter hc hcell, by simp, ?_⟩
      rw [step_enter (s := s.stripped p) hc' hcell]
      rw [← Array.getElem?_toList] at hc
      simp only [State.stripped, State.placed, rank_succ_of_instruction hc hi]
  · left
    obtain ⟨i, body, hopen, hbody, hip⟩ := Program.exists_loop_of_close hp hc
    rw [hip] at hc
    obtain ⟨⟨hopen', hbody', -⟩, hend, -⟩ := Program.strip_loop hopen hbody hc
    have hback : p.open? s.ip = some i := by
      rw [hip]
      exact Program.open?_loop hopen hbody
    have hback' : p.strip.open? (rank p.toList s.ip) = some (rank p.toList i) := by
      rw [hip, hend]
      exact Program.open?_loop hopen' hbody'
    rw [← hip] at hc
    exact ⟨_, _, .jumpedBack (rank p.toList i), step_back hc hback, by simp, step_back hc' hback'⟩
  · rw [step_plain hc hplain, step_plain (s := s.stripped p) hc' hplain]
    rcases s.placeFree_perform hplain hi with ⟨t, action, haction, h⟩ | ⟨e, h⟩
    · refine .inl ⟨t.placed (s.ip + 1), action, action, h s.ip, haction, ?_⟩
      rw [← Array.getElem?_toList] at hc
      refine (h (rank p.toList s.ip)).trans ?_
      simp only [State.stripped, State.placed, rank_succ_of_instruction hc hi]
    · refine .inr ⟨e.mapPlace fun _ => s.ip, h s.ip, ?_, ?_⟩
      · rw [Error.place?_mapPlace]
        simp
      · rw [Error.mapPlace_mapPlace]
        exact h (rank p.toList s.ip)

/-- How many of the first `n` steps executed a comment. -/
def ignoredSteps (p : Program) : (n : Nat) → State → Nat
  | 0, _ => 0
  | n + 1, s =>
    match step p s with
    | (t, .ok action) => (if action = .ignored then 1 else 0) + ignoredSteps p n t
    | (_, .error _) => 0

theorem ignoredSteps_of_ignored {p : Program} {s t : State} (h : step p s = (t, .ok .ignored))
    (n : Nat) : ignoredSteps p (n + 1) s = ignoredSteps p n t + 1 := by
  simp only [ignoredSteps, h, if_true]
  exact Nat.add_comm _ _

theorem ignoredSteps_of_done {p : Program} {s t : State} {action : Action}
    (h : step p s = (t, .ok action)) (haction : action ≠ .ignored) (n : Nat) :
    ignoredSteps p (n + 1) s = ignoredSteps p n t := by
  simp only [ignoredSteps, h, if_neg haction, Nat.zero_add]

/-- A run is followed by the stripped program, which takes all its steps but the comments. -/
theorem after?_strip {p : Program} (hp : balanced p.toList = true) {n : Nat} {s t : State}
    (h : after? p n s = some t) :
    ∃ m, after? p.strip m (s.stripped p) = some (t.stripped p) ∧ n = m + ignoredSteps p n s := by
  induction n generalizing s with
  | zero =>
      cases h
      exact ⟨0, rfl, rfl⟩
  | succ n ih =>
      obtain ⟨u, hu, ht⟩ := Option.bind_eq_some_iff.mp h
      obtain ⟨m, hm, hn⟩ := ih ht
      obtain ⟨c, hc⟩ := exists_char_of_next? hu
      cases hi : isInstruction c with
      | false =>
          obtain ⟨hstep, hsame⟩ := step_comment hc hi
          rw [next?_of_ok hstep] at hu
          cases hu
          rw [hsame] at hm
          refine ⟨m, hm, ?_⟩
          rw [ignoredSteps_of_ignored hstep]
          omega
      | true =>
          rcases step_strip hp hc hi with ⟨v, action, action', hv, haction, hv'⟩ | ⟨e, hfail, -, -⟩
          · rw [next?_of_ok hv] at hu
            cases hu
            refine ⟨m + 1, after?_cons (next?_of_ok hv') hm, ?_⟩
            rw [ignoredSteps_of_done hv haction]
            omega
          · rw [next?_of_error hfail] at hu
            cases hu

/-- The state stands at an instruction or at the end. -/
def State.PastComments (p : Program) (s : State) : Prop :=
  ∀ c, p[s.ip]? = some c → isInstruction c = true

theorem exists_pastComments (p : Program) (s : State) :
    ∃ n t, after? p n s = some t ∧ t.stripped p = s.stripped p ∧ t.PastComments p := by
  -- The induction is on the places left before the end: a comment only goes one place further.
  generalize hleft : p.size - s.ip = left
  induction left generalizing s with
  | zero =>
      have hout : p[s.ip]? = none := Array.getElem?_eq_none (by omega)
      exact ⟨0, s, rfl, rfl, by simp [State.PastComments, hout]⟩
  | succ left ih =>
      have hc : p[s.ip]? = some p[s.ip] := Array.getElem?_eq_getElem (by omega)
      generalize p[s.ip] = c at hc
      cases hi : isInstruction c with
      | true => exact ⟨0, s, rfl, rfl, by simp [State.PastComments, hc, hi]⟩
      | false =>
          obtain ⟨hstep, hsame⟩ := step_comment hc hi
          obtain ⟨n, t, ht, hst, hpast⟩ := ih (s.placed (s.ip + 1)) (by simp [State.placed]; omega)
          exact ⟨n + 1, t, after?_cons (next?_of_ok hstep) ht, hst.trans hsame, hpast⟩

theorem State.PastComments.getElem?_strip {p : Program} {s : State} (hs : s.PastComments p) :
    p.strip[(s.stripped p).ip]? = p[s.ip]? := by
  cases hc : p[s.ip]? with
  | some c => exact Program.getElem?_strip hc (hs c hc)
  | none => exact Program.getElem?_strip_outside hc

/-- A run of the stripped program is followed by the program, up to the next instruction. -/
theorem after?_of_strip {p : Program} (hp : balanced p.toList = true) {m : Nat} {s u : State}
    (h : after? p.strip m (s.stripped p) = some u) :
    ∃ n t, after? p n s = some t ∧ t.stripped p = u ∧ t.PastComments p := by
  induction m generalizing s with
  | zero =>
      cases h
      exact exists_pastComments p s
  | succ m ih =>
      -- The comments ahead come first; only then do both programs execute the same instruction.
      obtain ⟨n₁, t₁, ht₁, hsame, hpast⟩ := exists_pastComments p s
      rw [← hsame] at h
      obtain ⟨v, hv, hu⟩ := Option.bind_eq_some_iff.mp h
      obtain ⟨c, hc⟩ := exists_char_of_next? hv
      rw [hpast.getElem?_strip] at hc
      rcases step_strip hp hc (hpast c hc) with ⟨w, action, action', hw, -, hw'⟩ | ⟨e, -, -, hfail⟩
      · rw [next?_of_ok hw'] at hv
        cases hv
        obtain ⟨n₂, t₂, ht₂, hrest⟩ := ih hu
        exact ⟨n₁ + (n₂ + 1), t₂, after?_trans ht₁ (after?_cons (next?_of_ok hw) ht₂), hrest⟩
      · rw [next?_of_error hfail] at hv
        cases hv

/-- The source without its comments. -/
def uncommented (source : String) : String :=
  .ofList (strip source.toList)

theorem toList_uncommented (source : String) :
    (uncommented source).toList = strip source.toList :=
  String.toList_ofList

theorem ofString_uncommented (source : String) :
    Program.ofString (uncommented source) = (Program.ofString source).strip := by
  rw [Program.ofString, toList_uncommented, Program.strip, Program.ofString, List.toList_toArray]

theorem balanced_uncommented (source : String) :
    balanced (uncommented source).toList = balanced source.toList := by
  rw [toList_uncommented, balanced_strip]

/-- The place that the error names, if it names one, is that of an instruction. -/
def Error.NamesInstruction (source : List Char) (e : Error) : Prop :=
  ∀ ip ∈ e.place?, ∃ c, source[ip]? = some c ∧ c ∈ codeChars

theorem ofUnbalanced_strip {l : List Char} (h : balanced l = false) :
    (Error.ofUnbalanced l).NamesInstruction l ∧
      Error.ofUnbalanced (strip l) = (Error.ofUnbalanced l).mapPlace (rank l) := by
  obtain ⟨u, hu⟩ := exists_unmatched? h
  have hu' := unmatched?_strip l
  rw [hu, Option.map_some] at hu'
  rw [Error.ofUnbalanced, Error.ofUnbalanced, hu, hu']
  refine ⟨?_, rfl⟩
  rintro ip ⟨⟩
  exact ⟨u.bracket.char, getElem?_unmatched? hu, mem_codeChars_iff.mpr u.bracket.isInstruction_char⟩

namespace Machine

variable {m : Machine} {source input : String}

theorem balanced_of_answers_ok {control : Control} {report : Report}
    (h : m.Answers control source input (.ok report)) : balanced source.toList = true := by
  cases hv : balanced source.toList with
  | true => rfl
  | false =>
      rw [answers_of_unbalanced hv] at h
      cases h

theorem answers_ok_uncommented {report : Report}
    (h : m.Answers .free source input (.ok report)) :
    ∃ steps, m.Answers .free (uncommented source) input (.ok { report with steps := steps }) ∧
      report.steps = steps +
        ignoredSteps (.ofString source) report.steps (.initial m.tapeSize input.toList) := by
  have hv := balanced_of_answers_ok h
  obtain ⟨t, ht, hout, hreport⟩ := (answers_ok_iff hv).mp h
  obtain ⟨steps, hstrip, hsteps⟩ := after?_strip hv ht
  refine ⟨steps, ?_, hsteps⟩
  rw [answers_ok_iff (by rwa [balanced_uncommented]), ofString_uncommented]
  refine ⟨t.stripped (.ofString source), hstrip, Program.getElem?_strip_outside hout, ?_⟩
  rw [hreport]
  rfl

theorem answers_ok_of_uncommented {report : Report}
    (h : m.Answers .free (uncommented source) input (.ok report)) :
    ∃ steps, m.Answers .free source input (.ok { report with steps := steps }) := by
  have hv := balanced_of_answers_ok h
  rw [answers_ok_iff hv, ofString_uncommented] at h
  rw [balanced_uncommented] at hv
  have hp := Program.balanced_ofString hv
  obtain ⟨u, hu, hout, hreport⟩ := h
  obtain ⟨steps, t, ht, rfl, hpast⟩ := after?_of_strip (s := .initial m.tapeSize input.toList) hp hu
  refine ⟨steps, (answers_ok_iff hv).mpr ⟨t, ht, hpast.getElem?_strip ▸ hout, ?_⟩⟩
  rw [hreport]
  rfl

theorem answers_error_uncommented {e : Error} (h : m.Answers .free source input (.error e)) :
    e.NamesInstruction source.toList ∧
      m.Answers .free (uncommented source) input (.error (e.mapPlace (rank source.toList))) := by
  cases hv : balanced source.toList with
  | false =>
      rw [answers_of_unbalanced hv] at h
      cases h
      obtain ⟨hnames, heq⟩ := ofUnbalanced_strip hv
      refine ⟨hnames, ?_⟩
      rw [answers_of_unbalanced (by rwa [balanced_uncommented]), toList_uncommented, heq]
  | true =>
      have hp := Program.balanced_ofString hv
      obtain ⟨n, t, c, u, ht, hc, hstep⟩ := (answers_error_iff hv).mp h
      cases hi : isInstruction c with
      | false =>
          rw [(step_comment hc hi).1] at hstep
          cases hstep
      | true =>
          rcases step_strip hp hc hi with ⟨v, action, action', hv', -, -⟩ | ⟨e', hfail, hip, hfail'⟩
          · rw [hv'] at hstep
            cases hstep
          · rw [hfail] at hstep
            cases hstep
            obtain ⟨steps, hstrip, -⟩ := after?_strip hv ht
            refine ⟨?_, ?_⟩
            · intro ip hmem
              rw [hip ip hmem]
              exact ⟨c, by simpa [Program.ofString] using hc, mem_codeChars_iff.mpr hi⟩
            · rw [answers_error_iff (by rwa [balanced_uncommented]), ofString_uncommented]
              exact ⟨steps, _, c, _, hstrip, Program.getElem?_strip hc hi, hfail'⟩

theorem answers_error_of_uncommented {e : Error}
    (h : m.Answers .free (uncommented source) input (.error e)) :
    ∃ e', m.Answers .free source input (.error e') ∧ e'.mapPlace (rank source.toList) = e := by
  cases hv : balanced source.toList with
  | false =>
      rw [answers_of_unbalanced (by rwa [balanced_uncommented]), toList_uncommented,
        (ofUnbalanced_strip hv).2] at h
      cases h
      exact ⟨_, (answers_of_unbalanced hv).mpr rfl, rfl⟩
  | true =>
      have hp := Program.balanced_ofString hv
      rw [answers_error_iff (by rwa [balanced_uncommented]), ofString_uncommented] at h
      obtain ⟨n, u, c, v, hu, hc, hstep⟩ := h
      obtain ⟨steps, t, ht, rfl, hpast⟩ :=
        after?_of_strip (s := .initial m.tapeSize input.toList) hp hu
      rw [hpast.getElem?_strip] at hc
      rcases step_strip hp hc (hpast c hc) with
        ⟨w, action, action', -, -, hw⟩ | ⟨e', hfail, -, hfail'⟩
      · rw [hw] at hstep
        cases hstep
      · rw [hfail'] at hstep
        cases hstep
        exact ⟨e', (answers_error_iff hv).mpr ⟨steps, t, c, t, ht, hc, hfail⟩, rfl⟩

theorem uncommented_eq_empty (h : source.toList.any isInstruction = false) :
    uncommented source = "" := by
  have hstrip : strip source.toList = [] := by simpa [strip_eq_filter] using h
  rw [uncommented, hstrip]

theorem answers_of_no_instruction (h : source.toList.any isInstruction = false) :
    ∃ steps, m.Answers .free source input (.ok ⟨"", [], steps⟩) := by
  have hempty : m.Answers .free (uncommented source) input (.ok ⟨"", [], 0⟩) := by
    rw [uncommented_eq_empty h]
    exact ⟨1, rfl⟩
  exact answers_ok_of_uncommented hempty

theorem pending_of_no_instruction (h : source.toList.any isInstruction = false) {n : Nat}
    {t : State} (ht : after? (.ofString source) n (.initial m.tapeSize input.toList) = some t) :
    t.pending = input.toList := by
  have hp : balanced (Program.ofString source).toList = true := by
    obtain ⟨steps, hempty⟩ := @answers_of_no_instruction m source input h
    exact balanced_of_answers_ok hempty
  obtain ⟨k, hk, -⟩ := after?_strip hp ht
  rw [← ofString_uncommented, uncommented_eq_empty h] at hk
  obtain ⟨-, hsame⟩ := after?_stopped rfl hk
  exact congrArg State.pending hsame

end Machine

/-- Comments do not matter. A source and the same without comments report the same output, after
numbers of steps that differ by the comments executed, or they fail alike, and then the place in
the one is the rank of the place in the other. The place is always that of an instruction, so its
rank determines it. A source of comments alone ends with nothing written and nothing read. -/
theorem answers_iff_uncommented (machine : Machine) (source input : String) :
    (∀ report, machine.Answers .free source input (.ok report) →
      ∃ steps,
        machine.Answers .free (uncommented source) input (.ok { report with steps := steps }) ∧
        report.steps = steps + ignoredSteps (.ofString source) report.steps
          (.initial machine.tapeSize input.toList)) ∧
    (∀ report, machine.Answers .free (uncommented source) input (.ok report) →
      ∃ steps, machine.Answers .free source input (.ok { report with steps := steps })) ∧
    (∀ e, machine.Answers .free source input (.error e) ↔
      e.NamesInstruction source.toList ∧
        machine.Answers .free (uncommented source) input
          (.error (e.mapPlace (rank source.toList)))) ∧
    (∀ e, machine.Answers .free (uncommented source) input (.error e) →
      ∃ e', machine.Answers .free source input (.error e') ∧
        e'.mapPlace (rank source.toList) = e) ∧
    ∀ submission : Submission, submission.source = source.toList →
      submission.hasInstructions = false →
      (∃ steps, machine.Answers .free source input (.ok ⟨"", [], steps⟩)) ∧
        ∀ n t, after? (.ofString source) n (.initial machine.tapeSize input.toList) = some t →
          t.pending = input.toList := by
  refine ⟨fun _ => Machine.answers_ok_uncommented, fun _ => Machine.answers_ok_of_uncommented, ?_,
    fun _ => Machine.answers_error_of_uncommented, ?_⟩
  · intro e
    refine ⟨Machine.answers_error_uncommented, ?_⟩
    rintro ⟨hnames, h⟩
    obtain ⟨e', he', hsame⟩ := Machine.answers_error_of_uncommented h
    obtain ⟨hnames', -⟩ := Machine.answers_error_uncommented he'
    -- Both errors name instructions, so one rank is one place.
    have heq : e' = e := by
      apply Error.eq_of_mapPlace_eq hsame
      intro i hi j hj hrank
      obtain ⟨c, hc, hci⟩ := hnames' i hi
      obtain ⟨d, hd, hdi⟩ := hnames j hj
      exact rank_injective hc (mem_codeChars_iff.mp hci) hd (mem_codeChars_iff.mp hdi) hrank
    rwa [← heq]
  · rintro submission hsource hnone
    rw [Submission.hasInstructions, hsource] at hnone
    exact ⟨Machine.answers_of_no_instruction hnone,
      fun n t => Machine.pending_of_no_instruction hnone⟩

/-- A comment in a loop of two rounds, a read behind comments, and a bracket behind comments. -/
theorem answers_iff_uncommented_loops :
    (∃ steps, Machine.standard.Answers .free ",[.-]" "\x02" (.ok ⟨"\x02\x01", [2, 1], steps⟩) ∧
      13 = steps + ignoredSteps (.ofString "a,[.b-]") 13 (.initial 0 "\x02".toList)) ∧
    Machine.standard.Answers .free "+[,.]" "x" (.error (.inputExhausted 2)) ∧
    Machine.standard.Answers .free "[]]" "" (.error (.unmatched ⟨2, .closing⟩)) ∧
    ∃ steps, Machine.standard.Answers .free "no loop" "x" (.ok ⟨"", [], steps⟩) := by
  refine ⟨?_, ?_, ?_, ?_⟩
  · have hrun : Machine.standard.Answers .free "a,[.b-]" "\x02"
        (.ok ⟨"\x02\x01", [2, 1], 13⟩) := ⟨14, rfl⟩
    exact (answers_iff_uncommented .standard "a,[.b-]" "\x02").1 _ hrun
  · have hrun : Machine.standard.Answers .free "a+[b,.c]" "x" (.error (.inputExhausted 4)) :=
      ⟨20, rfl⟩
    exact (((answers_iff_uncommented .standard "a+[b,.c]" "x").2.2.1 _).mp hrun).2
  · have hrun : Machine.standard.Answers .free "a[b]c]d" "" (.error (.unmatched ⟨5, .closing⟩)) :=
      ⟨0, rfl⟩
    exact (((answers_iff_uncommented .standard "a[b]c]d" "").2.2.1 _).mp hrun).2
  · exact ((answers_iff_uncommented .standard "no loop" "x").2.2.2.2 ⟨"no loop".toList, []⟩
      rfl (by decide)).1

end Brainfuck
