import Brainfuck.Proofs.Memory
import Brainfuck.Proofs.Runs
import Brainfuck.Proofs.Scans

/-!
Steps at the three kinds of characters: those that are no bracket, and the two brackets. A step
at a bracket changes nothing but the place in the program. Every successful step keeps a state
sound and its tape of one size, whether the program is balanced or not; in a balanced program
the place stays in the program, and no bracket step fails.
-/

namespace Brainfuck

theorem step_plain {p : Program} {s : State} {c : Char} (h : p[s.ip]? = some c)
    (hc : IsPlain c) : step p s = s.perform c := by
  rw [step, h]
  simp only [State.perform]
  cases hi : Instruction.ofChar? c with
  | none => rfl
  | some i =>
      have hchar := Instruction.ofChar?_eq_some_iff.mp hi
      cases i with
      | loopOpen => exact absurd hchar hc.1
      | loopClose => exact absurd hchar hc.2
      | _ => rfl

theorem step_skip {p : Program} {s : State} {j : Nat} (h : p[s.ip]? = some '[')
    (hcell : s.cell = 0) (hj : p.close? s.ip = some j) :
    step p s = ({ s with ip := j + 1 }, .ok (.skippedLoop j)) := by
  simp [step, h, Instruction.ofChar?, State.enterOrSkip, hcell, hj]

theorem step_unclosed {p : Program} {s : State} (h : p[s.ip]? = some '[') (hcell : s.cell = 0)
    (hj : p.close? s.ip = none) : step p s = (s, .error (.unbalancedScan s.ip)) := by
  simp [step, h, Instruction.ofChar?, State.enterOrSkip, hcell, hj, State.fail]

theorem step_enter {p : Program} {s : State} (h : p[s.ip]? = some '[') (hcell : s.cell ≠ 0) :
    step p s = ({ s with ip := s.ip + 1 }, .ok .enteredLoop) := by
  simp [step, h, Instruction.ofChar?, State.enterOrSkip, hcell, State.advance]

theorem step_back {p : Program} {s : State} {i : Nat} (h : p[s.ip]? = some ']')
    (hi : p.open? s.ip = some i) : step p s = ({ s with ip := i }, .ok (.jumpedBack i)) := by
  simp [step, h, Instruction.ofChar?, State.jumpBack, hi]

theorem step_unopened {p : Program} {s : State} (h : p[s.ip]? = some ']')
    (hi : p.open? s.ip = none) : step p s = (s, .error (.unbalancedScan s.ip)) := by
  simp [step, h, Instruction.ofChar?, State.jumpBack, hi, State.fail]

theorem eq_jump_of_bracket {p : Program} {s t : State} (h : next? p s = some t)
    (hc : p[s.ip]? = some '[' ∨ p[s.ip]? = some ']') : ∃ ip, t = { s with ip := ip } := by
  obtain ⟨action, hstep⟩ := next?_eq_some_iff.mp h
  rcases hc with hc | hc
  · by_cases hcell : s.cell = 0
    · cases hj : p.close? s.ip with
      | none =>
          rw [step_unclosed hc hcell hj] at hstep
          cases hstep
      | some j =>
          rw [step_skip hc hcell hj] at hstep
          cases hstep
          exact ⟨_, rfl⟩
    · rw [step_enter hc hcell] at hstep
      cases hstep
      exact ⟨_, rfl⟩
  · cases hi : p.open? s.ip with
    | none =>
        rw [step_unopened hc hi] at hstep
        cases hstep
    | some i =>
        rw [step_back hc hi] at hstep
        cases hstep
        exact ⟨_, rfl⟩

theorem State.Sound.jump {s : State} {k : Nat} (hs : s.Sound k) (ip : Nat) :
    State.Sound (k + 1) { s with ip := ip } :=
  ⟨hs.normal, fun hsize => Nat.le_succ_of_le (hs.near hsize), hs.small⟩

theorem next?_plain {p : Program} {s t : State} {k : Nat} {c : Char} (hs : s.Sound k)
    (hc : p[s.ip]? = some c) (hplain : IsPlain c) (h : next? p s = some t) :
    s.memory.perform? s.tape.size c = some t.memory ∧ t.ip = s.ip + 1 ∧
      t.tape.size = s.tape.size ∧ t.Sound (k + 1) := by
  obtain ⟨action, hstep⟩ := next?_eq_some_iff.mp h
  rw [step_plain hc hplain] at hstep
  rcases s.perform_cases hs c with ⟨m, hm, u, action', hu, hmem, hrest⟩ | ⟨-, -, hfail⟩ | ⟨hfail, -⟩
  · rw [hu] at hstep
    cases hstep
    exact ⟨hmem ▸ hm, hrest⟩
  · rw [hfail] at hstep
    cases hstep
  · rw [hfail] at hstep
    cases hstep

theorem sound_next? {p : Program} {s t : State} {k : Nat} (hs : s.Sound k)
    (h : next? p s = some t) : t.Sound (k + 1) ∧ t.tape.size = s.tape.size := by
  obtain ⟨c, hc⟩ := exists_char_of_next? h
  rcases bracket_cases c with rfl | rfl | hplain
  · obtain ⟨ip, rfl⟩ := eq_jump_of_bracket h (.inl hc)
    exact ⟨hs.jump ip, rfl⟩
  · obtain ⟨ip, rfl⟩ := eq_jump_of_bracket h (.inr hc)
    exact ⟨hs.jump ip, rfl⟩
  · obtain ⟨-, -, hsize, hsound⟩ := next?_plain hs hc hplain h
    exact ⟨hsound, hsize⟩

theorem sound_after? {p : Program} {n size : Nat} {input : List Char} {t : State}
    (h : after? p n (.initial size input) = some t) : t.Sound n ∧ t.tape.size = size := by
  have hrun := after?_invariant (fun k s => s.Sound k ∧ s.tape.size = size)
    (fun k s u hs hu => ⟨(sound_next? hs.1 hu).1, (sound_next? hs.1 hu).2.trans hs.2⟩)
    ⟨State.sound_initial size input, rfl⟩ h
  rwa [Nat.zero_add] at hrun

/-- A step inside a balanced program succeeds and stays in the program, unless it is a read
without input or moves the head of an unbounded tape out of the signed word. -/
theorem step_cases_of_balanced {p : Program} (hp : balanced p.toList = true) {s : State}
    {k : Nat} (hs : s.Sound k) {c : Char} (hc : p[s.ip]? = some c) :
    (∃ t action, step p s = (t, .ok action) ∧ t.ip ≤ p.size) ∨
      (step p s = s.fail (.inputExhausted s.ip) ∧ c = ',') ∨
      (step p s = s.fail (.crash .headOverflow) ∧ s.tape.size = 0 ∧ wordMax ≤ k) := by
  have hin := Program.lt_size_of_getElem? hc
  rcases bracket_cases c with rfl | rfl | hplain
  · by_cases hcell : s.cell = 0
    · obtain ⟨body, hbody, hclose⟩ := Program.exists_loop_of_open hp hc
      exact .inl ⟨_, _, step_skip hc hcell (Program.close?_loop hbody hclose),
        Program.lt_size_of_getElem? hclose⟩
    · exact .inl ⟨_, _, step_enter hc hcell, hin⟩
  · obtain ⟨i, body, hopen, hbody, hip⟩ := Program.exists_loop_of_close hp hc
    refine .inl ⟨_, _, step_back hc ?_, Nat.le_of_lt (Program.lt_size_of_getElem? hopen)⟩
    rw [hip]
    exact Program.open?_loop hopen hbody
  · rw [step_plain hc hplain]
    rcases s.perform_cases hs c with ⟨m, -, t, action, ht, -, hip, -⟩ | ⟨-, hread, hfail⟩ | hover
    · refine .inl ⟨t, action, ht, ?_⟩
      rw [hip]
      exact hin
    · exact .inr (.inl ⟨hfail, hread⟩)
    · exact .inr (.inr hover)

theorem error_cases_of_balanced {p : Program} (hp : balanced p.toList = true) {s u : State}
    {k : Nat} (hs : s.Sound k) {c : Char} (hc : p[s.ip]? = some c) {e : Error}
    (h : step p s = (u, .error e)) :
    (e = .inputExhausted s.ip ∧ u = s) ∨
      (e = .crash .headOverflow ∧ s.tape.size = 0 ∧ wordMax ≤ k) := by
  rcases step_cases_of_balanced hp hs hc with ⟨t, action, hok, -⟩ | ⟨hfail, -⟩ | ⟨hfail, hover⟩
  · rw [hok] at h
    cases h
  · rw [hfail] at h
    cases h
    exact .inl ⟨rfl, rfl⟩
  · rw [hfail] at h
    cases h
    exact .inr ⟨rfl, hover⟩

theorem ip_le_after? {p : Program} (hp : balanced p.toList = true) {n size : Nat}
    {input : List Char} {t : State} (h : after? p n (.initial size input) = some t) :
    t.ip ≤ p.size := by
  have hrun := after?_invariant (fun k s => s.Sound k ∧ s.ip ≤ p.size) ?_
    ⟨State.sound_initial size input, Nat.zero_le _⟩ h
  · exact hrun.2
  · rintro k s u ⟨hs, -⟩ hu
    refine ⟨(sound_next? hs hu).1, ?_⟩
    obtain ⟨c, hc⟩ := exists_char_of_next? hu
    rcases step_cases_of_balanced hp hs hc with ⟨v, action, hv, hip⟩ | ⟨hfail, -⟩ | ⟨hfail, -⟩
    · rw [next?_of_ok hv] at hu
      cases hu
      exact hip
    · rw [next?_of_error hfail] at hu
      cases hu
    · rw [next?_of_error hfail] at hu
      cases hu

end Brainfuck
