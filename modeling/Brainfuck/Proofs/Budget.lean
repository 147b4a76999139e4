import Brainfuck.Proofs.Displacement

/-!
Runs under a step budget. The budget cuts the run without limits: up to the cut both take the
same steps, and at the cut the run ends with the limit unless it is at the end of its program.

Main statement: which of the three endings a budget leads to, said of the states that the steps
lead to. So an ending before the cut does not depend on the budget, and a program that needs
exactly as many steps as the budget has succeeds. A budget beyond the signed word leaves room for
one more ending, and a program that comes to it.
-/

namespace Brainfuck

/-- A budget and a cancel flag that is never raised. -/
def Control.budget (n : Nat) : Control :=
  ⟨some n, fun _ => false⟩

theorem Control.objection?_budget_eq_none {n k : Nat} :
    (budget n).objection? k = none ↔ k < n := by
  simp [objection?, budget]

theorem Control.objection?_budget_eq_some {n k : Nat} {e : Error} :
    (budget n).objection? k = some e ↔ n ≤ k ∧ e = .stepLimit n := by
  simp only [objection?, budget]
  by_cases h : n ≤ k
  · simp [h, eq_comm]
  · simp [h]

/-- A run comes as far as it is asked to, or to a state from which no step succeeds. -/
theorem after?_or_stopped (p : Program) (n : Nat) (s : State) :
    (∃ t, after? p n s = some t) ∨
      ∃ k < n, ∃ t, after? p k s = some t ∧ next? p t = none := by
  induction n generalizing s with
  | zero => exact .inl ⟨s, rfl⟩
  | succ n ih =>
      cases hnext : next? p s with
      | none => exact .inr ⟨0, by omega, s, rfl, hnext⟩
      | some u =>
          rcases ih u with ⟨t, ht⟩ | ⟨k, hk, t, ht, hstop⟩
          · exact .inl ⟨t, after?_cons hnext ht⟩
          · exact .inr ⟨k + 1, by omega, t, after?_cons hnext ht, hstop⟩

theorem lt_size_of_after? {p : Program} {j k : Nat} {s t u : State}
    (ht : after? p k s = some t) (hj : j < k) (hu : after? p j s = some u) : u.ip < p.size := by
  have hrest := after?_sub ht hu (Nat.le_of_lt hj)
  rw [show k - j = (k - j - 1) + 1 by omega] at hrest
  obtain ⟨v, hv, -⟩ := Option.bind_eq_some_iff.mp hrest
  obtain ⟨c, hc⟩ := exists_char_of_next? hv
  exact Program.lt_size_of_getElem? hc

theorem Halts.of_no_objection {p : Program} {control control' : Control} {k : Nat} {t : State}
    {r : Except Error Report} (h : Halts p control k t r)
    (hr : ∀ e, control.objection? k = some e → r ≠ .error e)
    (ho : control.objection? k = none → control'.objection? k = none) :
    Halts p control' k t r := by
  cases h with
  | finished hout => exact .finished hout
  | stopped hc he => exact absurd rfl (hr _ he)
  | failed hc hnone hstep => exact .failed hc (ho hnone) hstep

namespace Machine

variable {m : Machine} {source input : String}

/-- The first `k` steps succeed without reaching the end of the program before, and they lead to
the state `t`. -/
def Reaches (m : Machine) (source input : String) (k : Nat) (t : State) : Prop :=
  after? (.ofString source) k (.initial m.tapeSize input.toList) = some t ∧
    ∀ j < k, ∀ u, after? (.ofString source) j (.initial m.tapeSize input.toList) = some u →
      u.ip < source.toList.length

theorem reaches_iff {k : Nat} {t : State} :
    m.Reaches source input k t ↔
      after? (.ofString source) k (.initial m.tapeSize input.toList) = some t := by
  constructor
  · intro h
    exact h.1
  · intro h
    refine ⟨h, ?_⟩
    intro j hj u hu
    rw [← Program.size_ofString]
    exact lt_size_of_after? h hj hu

theorem Reaches.ip_cases {k : Nat} {t : State} (hv : balanced source.toList = true)
    (h : m.Reaches source input k t) :
    (t.ip = source.toList.length ∧ (Program.ofString source)[t.ip]? = none) ∨
      (t.ip < source.toList.length ∧ ∃ c, (Program.ofString source)[t.ip]? = some c) := by
  cases hc : (Program.ofString source)[t.ip]? with
  | none =>
      have hle : t.ip ≤ (Program.ofString source).size := ip_le_after? hv h.1
      have hge : (Program.ofString source).size ≤ t.ip := Array.getElem?_eq_none_iff.mp hc
      rw [← Program.size_ofString]
      exact .inl ⟨by omega, rfl⟩
  | some c => exact .inr ⟨Program.lt_length_of_getElem? hc, c, rfl⟩

theorem Reaches.error_cases {k : Nat} {t u : State} {c : Char} {e : Error}
    (hv : balanced source.toList = true) (h : m.Reaches source input k t)
    (hc : (Program.ofString source)[t.ip]? = some c)
    (hstep : step (.ofString source) t = (u, .error e)) :
    (e = .inputExhausted t.ip ∧ u = t) ∨
      (e = .crash .headOverflow ∧ m.tapeSize = 0 ∧ wordMax ≤ k) := by
  obtain ⟨hsound, hsize⟩ := sound_after? h.1
  rw [← hsize]
  exact error_cases_of_balanced (Program.balanced_ofString hv) hsound hc hstep

theorem run_budget_eq_iff (hv : balanced source.toList = true) {n fuel : Nat} (hfuel : n < fuel)
    {r : Except Error Report} :
    m.run (.budget n) fuel source input = some r ↔
      ∃ k ≤ n, ∃ t, m.Reaches source input k t ∧ Halts (.ofString source) (.budget n) k t r := by
  rw [run_eq_some_iff hv]
  simp only [Control.objection?_budget_eq_none, reaches_iff]
  constructor
  · rintro ⟨k, t, -, hafter, hcut, hhalts⟩
    refine ⟨k, ?_, t, hafter, hhalts⟩
    by_contra hk
    exact Nat.lt_irrefl n (hcut n (by omega))
  · rintro ⟨k, hk, t, hafter, hhalts⟩
    exact ⟨k, t, by omega, hafter, by omega, hhalts⟩

theorem run_budget_ok_iff (hv : balanced source.toList = true) {n fuel : Nat} (hfuel : n < fuel)
    {report : Report} :
    m.run (.budget n) fuel source input = some (.ok report) ↔
      report.steps ≤ n ∧ ∃ t, m.Reaches source input report.steps t ∧
        t.ip = source.toList.length ∧ report = t.report report.steps := by
  rw [run_budget_eq_iff hv hfuel]
  constructor
  · rintro ⟨k, hk, t, ht, hhalts⟩
    cases hhalts with
    | finished hout =>
        rcases ht.ip_cases hv with ⟨hend, -⟩ | ⟨-, c, hc⟩
        · exact ⟨hk, t, ht, hend, rfl⟩
        · rw [hout] at hc
          cases hc
  · rintro ⟨hk, t, ht, hend, hreport⟩
    refine ⟨report.steps, hk, t, ht, ?_⟩
    rw [hreport]
    apply Halts.finished
    rw [hend]
    exact Program.getElem?_ofString_end source

theorem run_budget_inputExhausted_iff (hv : balanced source.toList = true) {n fuel : Nat}
    (hfuel : n < fuel) {ip : Nat} :
    m.run (.budget n) fuel source input = some (.error (.inputExhausted ip)) ↔
      ∃ k < n, ∃ t, m.Reaches source input k t ∧ t.ip < source.toList.length ∧ t.ip = ip ∧
        step (.ofString source) t = t.fail (.inputExhausted ip) := by
  rw [run_budget_eq_iff hv hfuel]
  constructor
  · rintro ⟨k, hk, t, ht, hhalts⟩
    cases hhalts with
    | stopped _ he =>
        obtain ⟨-, hlimit⟩ := Control.objection?_budget_eq_some.mp he
        cases hlimit
    | @failed c u _ hc hnone hstep =>
        have hlt := Control.objection?_budget_eq_none.mp hnone
        have hin := Program.lt_length_of_getElem? hc
        rcases ht.error_cases hv hc hstep with ⟨he, rfl⟩ | ⟨he, -⟩
        · cases he
          exact ⟨k, hlt, u, ht, hin, rfl, hstep⟩
        · cases he
  · rintro ⟨k, hk, t, ht, hin, rfl, hfail⟩
    rcases ht.ip_cases hv with ⟨hend, -⟩ | ⟨-, c, hc⟩
    · omega
    · exact ⟨k, by omega, t, ht, .failed hc (Control.objection?_budget_eq_none.mpr hk) hfail⟩

theorem run_budget_stepLimit_iff (hv : balanced source.toList = true) {n fuel : Nat}
    (hfuel : n < fuel) {limit : Nat} :
    m.run (.budget n) fuel source input = some (.error (.stepLimit limit)) ↔
      limit = n ∧ ∃ t, m.Reaches source input n t ∧ t.ip < source.toList.length := by
  rw [run_budget_eq_iff hv hfuel]
  constructor
  · rintro ⟨k, hk, t, ht, hhalts⟩
    cases hhalts with
    | stopped hc he =>
        obtain ⟨hge, hlimit⟩ := Control.objection?_budget_eq_some.mp he
        cases hlimit
        obtain rfl : k = n := by omega
        have hin := Program.lt_length_of_getElem? hc
        exact ⟨rfl, t, ht, hin⟩
    | failed hc _ hstep =>
        rcases ht.error_cases hv hc hstep with ⟨he, -⟩ | ⟨he, -⟩
        · cases he
        · cases he
  · rintro ⟨rfl, t, ht, hin⟩
    rcases ht.ip_cases hv with ⟨hend, -⟩ | ⟨-, c, hc⟩
    · omega
    · exact ⟨limit, Nat.le_refl _, t, ht, .stopped hc
        (Control.objection?_budget_eq_some.mpr ⟨Nat.le_refl _, rfl⟩)⟩

theorem run_budget_cases (hv : balanced source.toList = true) {n fuel : Nat} (hfuel : n < fuel) :
    (∃ report, m.run (.budget n) fuel source input = some (.ok report)) ∨
      (∃ ip, m.run (.budget n) fuel source input = some (.error (.inputExhausted ip))) ∨
      m.run (.budget n) fuel source input = some (.error (.stepLimit n)) ∨
      (m.run (.budget n) fuel source input = some (.error (.crash .headOverflow)) ∧
        m.tapeSize = 0 ∧ wordMax < n) := by
  simp only [run_budget_eq_iff hv hfuel]
  rcases after?_or_stopped (.ofString source) n (.initial m.tapeSize input.toList) with
    ⟨t, ht⟩ | ⟨k, hk, t, ht, hstop⟩
  · rw [← reaches_iff] at ht
    rcases ht.ip_cases hv with ⟨-, hout⟩ | ⟨-, c, hc⟩
    · exact .inl ⟨_, n, Nat.le_refl n, t, ht, .finished hout⟩
    · have hcut := Control.objection?_budget_eq_some.mpr ⟨Nat.le_refl n, rfl⟩
      exact .inr (.inr (.inl ⟨n, Nat.le_refl n, t, ht, .stopped hc hcut⟩))
  · rw [← reaches_iff] at ht
    have hnone := Control.objection?_budget_eq_none.mpr hk
    rcases ht.ip_cases hv with ⟨-, hout⟩ | ⟨-, c, hc⟩
    · exact .inl ⟨_, k, Nat.le_of_lt hk, t, ht, .finished hout⟩
    · obtain ⟨u, e, hstep⟩ := next?_eq_none_iff.mp hstop
      have hhalts : Halts (.ofString source) (.budget n) k t (.error e) := .failed hc hnone hstep
      rcases ht.error_cases hv hc hstep with ⟨rfl, -⟩ | ⟨rfl, hsize, hword⟩
      · exact .inr (.inl ⟨_, k, Nat.le_of_lt hk, t, ht, hhalts⟩)
      · exact .inr (.inr (.inr ⟨⟨k, Nat.le_of_lt hk, t, ht, hhalts⟩, hsize, by omega⟩))

theorem exists_run_budget {n fuel : Nat} (hfuel : n < fuel) :
    ∃ r, m.run (.budget n) fuel source input = some r := by
  cases hv : balanced source.toList with
  | false => exact ⟨_, run_of_unbalanced hv⟩
  | true =>
      rcases run_budget_cases hv hfuel with ⟨_, h⟩ | ⟨_, h⟩ | h | ⟨h, -⟩
      all_goals exact ⟨_, h⟩

/-- An ending before the cut stays under every control that does not object before it. -/
theorem run_of_budget (hv : balanced source.toList = true) {n fuel : Nat} (hfuel : n < fuel)
    {r : Except Error Report} (h : m.run (.budget n) fuel source input = some r)
    (hr : r ≠ .error (.stepLimit n)) {control : Control}
    (ho : ∀ k < n, control.objection? k = none) {fuel' : Nat} (hfuel' : n < fuel') :
    m.run control fuel' source input = some r := by
  obtain ⟨k, hk, t, ht, hhalts⟩ := (run_budget_eq_iff hv hfuel).mp h
  rw [run_eq_some_iff hv]
  refine ⟨k, t, by omega, ht.1, fun j hj => ho j (by omega), hhalts.of_no_objection ?_ ?_⟩
  · intro e he
    obtain ⟨-, rfl⟩ := Control.objection?_budget_eq_some.mp he
    exact hr
  · intro hnone
    exact ho k (Control.objection?_budget_eq_none.mp hnone)

end Machine

/-- The budget is an exact cut. The run reports success when its steps first come to the end of
the program and there are at most `n` of them, want of input when that is met before the cut, and
the limit when after `n` steps it is still inside the program. There is no other ending, but for
the head of an unbounded tape that leaves the signed word, which takes more steps than the word
counts. So all endings but the limit hold for larger budgets and without one, and a program
that needs exactly `n` steps succeeds. -/
theorem run_budget_exact (machine : Machine) (source input : String)
    (hv : balanced source.toList = true) (n fuel : Nat) (hfuel : n < fuel) :
    (∀ report, machine.run (.budget n) fuel source input = some (.ok report) ↔
      report.steps ≤ n ∧ ∃ t, machine.Reaches source input report.steps t ∧
        t.ip = source.toList.length ∧ report = t.report report.steps) ∧
    (∀ ip, machine.run (.budget n) fuel source input = some (.error (.inputExhausted ip)) ↔
      ∃ k < n, ∃ t, machine.Reaches source input k t ∧ t.ip < source.toList.length ∧
        t.ip = ip ∧ step (.ofString source) t = t.fail (.inputExhausted ip)) ∧
    (∀ limit, machine.run (.budget n) fuel source input = some (.error (.stepLimit limit)) ↔
      limit = n ∧ ∃ t, machine.Reaches source input n t ∧ t.ip < source.toList.length) ∧
    ((∃ report, machine.run (.budget n) fuel source input = some (.ok report)) ∨
      (∃ ip, machine.run (.budget n) fuel source input = some (.error (.inputExhausted ip))) ∨
      machine.run (.budget n) fuel source input = some (.error (.stepLimit n)) ∨
      (machine.run (.budget n) fuel source input = some (.error (.crash .headOverflow)) ∧
        machine.tapeSize = 0 ∧ wordMax < n)) ∧
    (∀ r, machine.run (.budget n) fuel source input = some r → r ≠ .error (.stepLimit n) →
      ∀ fuel' > n, machine.run .free fuel' source input = some r ∧
        ∀ n' ≥ n, machine.run (.budget n') fuel' source input = some r) ∧
    ∀ report, machine.Answers .free source input (.ok report) → report.steps = n →
      machine.run (.budget n) fuel source input = some (.ok report) := by
  refine ⟨fun _ => Machine.run_budget_ok_iff hv hfuel,
    fun _ => Machine.run_budget_inputExhausted_iff hv hfuel,
    fun _ => Machine.run_budget_stepLimit_iff hv hfuel, Machine.run_budget_cases hv hfuel, ?_, ?_⟩
  · intro r h hr fuel' hfuel'
    refine ⟨Machine.run_of_budget hv hfuel h hr (fun k _ => Control.objection?_free k) hfuel', ?_⟩
    intro n' hn'
    apply Machine.run_of_budget hv hfuel h hr _ hfuel'
    intro k hk
    exact Control.objection?_budget_eq_none.mpr (Nat.lt_of_lt_of_le hk hn')
  · rintro report h rfl
    obtain ⟨t, ht, hout, hreport⟩ := (Machine.answers_ok_iff hv).mp h
    rw [← Machine.reaches_iff] at ht
    rw [Machine.run_budget_eq_iff hv hfuel, hreport]
    exact ⟨report.steps, Nat.le_refl _, t, ht, .finished hout⟩

/-- Ten steps: a budget of ten is enough and one of nine is not, and a read at the cut is not
executed. -/
theorem run_budget_exact_boundary :
    balanced ",[.-]".toList = true ∧ balanced "+,".toList = true ∧
      Machine.standard.run (.budget 10) 11 ",[.-]" "\x02" =
        some (.ok ⟨"\x02\x01", [2, 1], 10⟩) ∧
      (∃ t, Machine.standard.Reaches ",[.-]" "\x02" 9 t ∧ t.ip < 5) ∧
      (∃ t, Machine.standard.Reaches "+," "" 1 t ∧ t.ip < 2) ∧
      ∃ k < 2, ∃ t, Machine.standard.Reaches "+," "" k t ∧ t.ip = 1 := by
  refine ⟨by decide, by decide, ?_, ?_, ?_, ?_⟩
  · have hfree : Machine.standard.Answers .free ",[.-]" "\x02"
        (.ok ⟨"\x02\x01", [2, 1], 10⟩) := ⟨11, rfl⟩
    obtain ⟨-, -, -, -, -, h⟩ :=
      run_budget_exact .standard ",[.-]" "\x02" (by decide) 10 11 (by decide)
    exact h _ hfree rfl
  · obtain ⟨-, -, h, -⟩ := run_budget_exact .standard ",[.-]" "\x02" (by decide) 9 10 (by decide)
    exact ((h 9).mp rfl).2
  · obtain ⟨-, -, h, -⟩ := run_budget_exact .standard "+," "" (by decide) 1 2 (by decide)
    exact ((h 1).mp rfl).2
  · obtain ⟨-, h, -⟩ := run_budget_exact .standard "+," "" (by decide) 2 3 (by decide)
    obtain ⟨k, hk, t, ht, -, hip, -⟩ := (h 1).mp rfl
    exact ⟨k, hk, t, ht, hip⟩

/-- Carries a mark to the right, eight cells a round. -/
def carrier : String := "+[->>>>>>>>+]"

namespace Carrier

/-- A round begins: the head is on the mark, and nothing else is on the tape. -/
def marked (x : Nat) : State where
  tape := (Tape.blank 0).put x 1
  head := x
  ip := 1
  pending := []
  written := []

/-- The mark is taken up, and the last of the eight moves is to be made. -/
def carrying (x : Nat) : State where
  tape := .blank 0
  head := x
  ip := 10
  pending := []
  written := []

theorem add?_blank (position : Int) :
    (Tape.blank 0).add? position 1 = some ((Tape.blank 0).put position 1, 1) := by
  rw [Tape.add?_eq_some (Tape.wrap_of_unbounded rfl position) (by rw [Tape.get_blank]; decide)
    (.inl rfl), Tape.get_blank]
  rfl

theorem add?_mark (position : Int) :
    ((Tape.blank 0).put position 1).add? position (-1) = some (.blank 0, 0) := by
  have hmark : ((Tape.blank 0).put position 1).get position = 1 := by
    rw [Tape.get_put, if_pos rfl]
  have hclear : ((Tape.blank 0).put position 1).put position 0 = .blank 0 := by
    have hcells : ((∅ : Std.ExtTreeMap Int Nat).insert position 1).erase position = ∅ := by
      apply Std.ExtTreeMap.ext_getElem?
      simp
    simp [Tape.put, Tape.blank, hcells]
  have hzero : (((1 : Nat) : Int) + -1) % cellModulus = 0 := rfl
  rw [Tape.add?_eq_some (Tape.wrap_of_unbounded rfl position) (by rw [hmark]; decide) (.inr rfl),
    hmark, hzero, Int.toNat_zero, hclear]

theorem after?_carrying {x : Nat} (h : x + 7 ≤ wordMax) :
    after? (.ofString carrier) 9 (marked x) = some (carrying (x + 7)) := by
  have hcell : (marked x).cell ≠ 0 := by simp [State.cell, marked, Tape.get_put]
  have henter := next?_of_ok (step_enter (p := .ofString carrier) (s := marked x) rfl hcell)
  have htake : next? (.ofString carrier) { marked x with ip := 2 } =
      some { marked x with tape := .blank 0, ip := 3 } :=
    next?_eq_some_iff_executes.mpr ⟨_, .change rfl (.inr ⟨rfl, rfl⟩) (add?_mark x)⟩
  have hsound : State.Sound x { marked x with tape := .blank 0, ip := 3 } := by
    refine ⟨Tape.wrap_of_unbounded rfl _, fun _ => Nat.le_refl x, fun q => ?_⟩
    rw [Tape.get_blank]
    decide
  have hspells : (Program.ofString carrier).Spells 3 (List.replicate 7 '>') :=
    ⟨rfl, rfl, rfl, rfl, rfl, rfl, rfl, trivial⟩
  have hmoves := after?_moves hsound (by simp [isMove]) hspells (fun _ => h)
  exact after?_cons henter (after?_cons htake hmoves)

theorem after?_marked_succ {x : Nat} (h : x + 1 ≤ wordMax) :
    after? (.ofString carrier) 3 (carrying x) = some (marked (x + 1)) := by
  have hlast : next? (.ofString carrier) (carrying x) =
      some { carrying x with head := x + 1, ip := 11 } := by
    have hfits : fitsWord ((x : Int) + 1) = true := by
      rw [fitsWord_iff]
      omega
    exact next?_eq_some_iff_executes.mpr ⟨_, .move rfl (.inl ⟨rfl, rfl⟩) hfits⟩
  have hput : next? (.ofString carrier) { carrying x with head := x + 1, ip := 11 } =
      some { marked (x + 1) with ip := 12 } :=
    next?_eq_some_iff_executes.mpr ⟨_, .change rfl (.inl ⟨rfl, rfl⟩) (add?_blank _)⟩
  have hback := next?_of_ok (step_back (p := .ofString carrier)
    (s := { marked (x + 1) with ip := 12 }) (i := 1) rfl rfl)
  exact after?_cons hlast (after?_cons hput ((after?_one _ _).trans hback))

theorem after?_marked {j : Nat} (h : 8 * j ≤ wordMax) :
    after? (.ofString carrier) (1 + 12 * j) (.initial 0 []) = some (marked (8 * j)) := by
  induction j with
  | zero =>
      have hfirst : next? (.ofString carrier) (.initial 0 []) = some (marked 0) :=
        next?_eq_some_iff_executes.mpr ⟨_, .change rfl (.inl ⟨rfl, rfl⟩) (add?_blank 0)⟩
      exact (after?_one _ _).trans hfirst
  | succ j ih =>
      have hround := after?_trans (after?_carrying (x := 8 * j) (by omega))
        (after?_marked_succ (by omega))
      exact after?_trans (m := 1 + 12 * j) (ih (by omega)) hround

theorem step_carrying_end :
    step (.ofString carrier) (carrying wordMax) =
      (carrying wordMax).fail (.crash .headOverflow) := by
  have hstep : step (.ofString carrier) (carrying wordMax) = (carrying wordMax).moveBy 1 := rfl
  have hover : ¬ fitsWord ((carrying wordMax).head + 1) = true := by decide
  rw [hstep, State.moveBy, if_neg hover]

end Carrier

/-- With a budget of all that an unsigned word counts, the head of an unbounded tape leaves the
signed word before the cut: the run has none of the three endings. -/
theorem run_budget_overflow :
    balanced carrier.toList = true ∧
      Machine.standard.run (.budget 18446744073709551615) 18446744073709551616 carrier "" =
        some (.error (.crash .headOverflow)) ∧
      ¬ ((∃ report, Machine.standard.run (.budget 18446744073709551615) 18446744073709551616
            carrier "" = some (.ok report)) ∨
        (∃ ip, Machine.standard.run (.budget 18446744073709551615) 18446744073709551616
            carrier "" = some (.error (.inputExhausted ip))) ∨
        Machine.standard.run (.budget 18446744073709551615) 18446744073709551616
            carrier "" = some (.error (.stepLimit 18446744073709551615))) := by
  have hv : balanced carrier.toList = true := by decide
  -- All rounds but one, and then the seven moves of that one which still succeed.
  have hreach : Machine.standard.Reaches carrier "" (1 + 12 * 1152921504606846975 + 9)
      (Carrier.carrying wordMax) :=
    Machine.reaches_iff.mpr
      (after?_trans (Carrier.after?_marked (by decide)) (Carrier.after?_carrying (by decide)))
  have hrun : Machine.standard.run (.budget 18446744073709551615) 18446744073709551616
      carrier "" = some (.error (.crash .headOverflow)) := by
    refine (Machine.run_budget_eq_iff hv (by decide)).mpr ⟨_, by decide, _, hreach, ?_⟩
    exact .failed rfl (Control.objection?_budget_eq_none.mpr (by decide)) Carrier.step_carrying_end
  refine ⟨hv, hrun, ?_⟩
  rw [hrun]
  simp

end Brainfuck
