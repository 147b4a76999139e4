import Brainfuck.Proofs.Rows
import Brainfuck.Proofs.Rules
import Brainfuck.Proofs.Steps

/-!
What a run takes from its input. A step looks at the pending input only when it executes a read,
and then at its first character only. So the steps of a run take a prefix of the input: whatever
follows that prefix makes no difference, and with less than the prefix the run comes to a read for
which there is nothing left.

Main statement: the result of a run depends only on the input that it has consumed.
-/

namespace Brainfuck

/-- The state with other input pending. -/
def State.fed (s : State) (pending : List Char) : State :=
  { s with pending := pending }

theorem State.fed_pending (s : State) : s.fed s.pending = s :=
  rfl

section Steps

variable {p : Program} {s t : State}

theorem State.moveBy_fed (s : State) (delta : Int) (l : List Char) :
    (s.fed l).moveBy delta = ((s.moveBy delta).1.fed l, (s.moveBy delta).2) := by
  by_cases hfits : fitsWord (s.head + delta) = true
  · have hfits' : fitsWord ((s.fed l).head + delta) = true := hfits
    rw [moveBy, moveBy, if_pos hfits, if_pos hfits']
    rfl
  · have hfits' : ¬ fitsWord ((s.fed l).head + delta) = true := hfits
    rw [moveBy, moveBy, if_neg hfits, if_neg hfits']
    rfl

theorem State.changeBy_fed (s : State) (delta : Int) (l : List Char) :
    (s.fed l).changeBy delta = ((s.changeBy delta).1.fed l, (s.changeBy delta).2) := by
  cases hadd : s.tape.add? s.head delta with
  | none =>
      have hadd' : (s.fed l).tape.add? (s.fed l).head delta = none := hadd
      simp only [changeBy, hadd, hadd']
      rfl
  | some added =>
      have hadd' : (s.fed l).tape.add? (s.fed l).head delta = some added := hadd
      simp only [changeBy, hadd, hadd']
      rfl

theorem State.enterOrSkip_fed (p : Program) (s : State) (l : List Char) :
    (s.fed l).enterOrSkip p = ((s.enterOrSkip p).1.fed l, (s.enterOrSkip p).2) := by
  by_cases hcell : s.cell = 0
  · have hcell' : (s.fed l).cell = 0 := hcell
    rw [enterOrSkip, enterOrSkip, if_pos hcell, if_pos hcell']
    cases hclose : p.close? s.ip with
    | none =>
        have hclose' : p.close? (s.fed l).ip = none := hclose
        rw [hclose']
        rfl
    | some close =>
        have hclose' : p.close? (s.fed l).ip = some close := hclose
        rw [hclose']
        rfl
  · have hcell' : (s.fed l).cell ≠ 0 := hcell
    rw [enterOrSkip, enterOrSkip, if_neg hcell, if_neg hcell']
    rfl

theorem State.jumpBack_fed (p : Program) (s : State) (l : List Char) :
    (s.fed l).jumpBack p = ((s.jumpBack p).1.fed l, (s.jumpBack p).2) := by
  rw [jumpBack, jumpBack]
  cases hopen : p.open? s.ip with
  | none =>
      have hopen' : p.open? (s.fed l).ip = none := hopen
      rw [hopen']
      rfl
  | some opening =>
      have hopen' : p.open? (s.fed l).ip = some opening := hopen
      rw [hopen']
      rfl

/-- A step that is no read does not see the pending input and leaves it as it is. -/
theorem step_fed {c : Char} (hc : p[s.ip]? = some c) (hread : c ≠ ',') (l : List Char) :
    step p (s.fed l) = ((step p s).1.fed l, (step p s).2) := by
  have hc' : p[(s.fed l).ip]? = some c := hc
  cases hi : Instruction.ofChar? c with
  | none =>
      simp only [step, hc, hc', hi]
      rfl
  | some i =>
      obtain rfl := Instruction.ofChar?_eq_some_iff.mp hi
      rw [step_of_instruction hc, step_of_instruction hc']
      cases i with
      | right => exact s.moveBy_fed 1 l
      | left => exact s.moveBy_fed (-1) l
      | increment => exact s.changeBy_fed 1 l
      | decrement => exact s.changeBy_fed (-1) l
      | write => rfl
      | read => exact absurd rfl hread
      | loopOpen => exact s.enterOrSkip_fed p l
      | loopClose => exact s.jumpBack_fed p l

theorem next?_fed {c : Char} (hc : p[s.ip]? = some c) (hread : c ≠ ',') (l : List Char) :
    next? p (s.fed l) = (next? p s).map (·.fed l) := by
  rw [next?, next?, step_fed hc hread l]
  rcases step p s with ⟨t, _ | action⟩
  · rfl
  · rfl

theorem pending_of_next? {c : Char} (hc : p[s.ip]? = some c) (hread : c ≠ ',')
    (h : next? p s = some t) : t.pending = s.pending := by
  have hfed := next?_fed hc hread s.pending
  rw [s.fed_pending, h] at hfed
  rw [Option.some.inj hfed]
  rfl

theorem step_starving (hc : p[s.ip]? = some ',') (hp : s.pending = []) :
    step p s = s.fail (.inputExhausted s.ip) := by
  rw [step_of_instruction (i := .read) hc]
  exact State.readCell_nil hp

/-- A read takes the first pending character, whatever follows it. -/
theorem next?_read (hc : p[s.ip]? = some ',') (h : next? p s = some t) :
    ∃ d, s.pending = d :: t.pending ∧ ∀ l, next? p (s.fed (d :: l)) = some (t.fed l) := by
  obtain ⟨action, hstep⟩ := next?_eq_some_iff.mp h
  rw [step_of_instruction (i := .read) hc] at hstep
  obtain ⟨d, rest, tape, hp, hset, rfl, rfl⟩ := State.readCell_eq_ok_iff.mp hstep
  refine ⟨d, hp, ?_⟩
  intro l
  apply next?_of_ok
  rw [step_of_instruction (s := s.fed (d :: l)) (i := .read) hc]
  exact State.readCell_eq_ok_iff.mpr ⟨d, l, tape, rfl, hset, rfl, rfl⟩

theorem starving_of_error {k : Nat} (hs : s.Sound k) (hc : p[s.ip]? = some ',') {e : Error}
    (h : step p s = (t, .error e)) : s.pending = [] ∧ e = .inputExhausted s.ip := by
  cases hp : s.pending with
  | nil =>
      rw [step_starving hc hp] at h
      cases h
      exact ⟨rfl, rfl⟩
  | cons d rest =>
      obtain ⟨u, action, hread, -⟩ := State.readCell_leaves hs hp
      rw [step_of_instruction (i := .read) hc, hread] at h
      cases h

end Steps

/-- What the `n` steps from `s` to `t` take from the input is `taken`. Whatever follows it makes
no difference, and with less the run comes to a read for which nothing is left. -/
structure Takes (p : Program) (s : State) (n : Nat) (t : State) (taken : List Char) : Prop where
  pending : s.pending = taken ++ t.pending
  length : taken.length = (rowsFrom p n 0 s).countP (·.char = ',')
  rest : ∀ l, after? p n (s.fed (taken ++ l)) = some (t.fed l)
  less : ∀ l, l <+: taken → l.length < taken.length →
    ∃ k < n, ∃ u, after? p k (s.fed l) = some u ∧ p[u.ip]? = some ',' ∧ u.pending = []

section Runs

variable {p : Program} {s t u : State} {n : Nat} {taken : List Char}

theorem takes_zero (p : Program) (s : State) : Takes p s 0 s [] where
  pending := rfl
  length := rfl
  rest _ := rfl
  less l _ hl := by
    rw [List.length_nil] at hl
    omega

theorem Takes.other (h : Takes p s n t taken) (ht : after? p n s = some t) {c : Char}
    (hc : p[t.ip]? = some c) (hread : c ≠ ',') (hu : next? p t = some u) :
    Takes p s (n + 1) u taken where
  pending := by rw [h.pending, pending_of_next? hc hread hu]
  length := by
    obtain ⟨action, hstep⟩ := next?_eq_some_iff.mp hu
    rw [rowsFrom_concat ht hc hstep, List.countP_append, h.length]
    simp [hread]
  rest l := by
    apply after?_concat (h.rest l)
    rw [next?_fed hc hread, hu]
    rfl
  less l hbegins hl := by
    obtain ⟨k, hk, v, hv⟩ := h.less l hbegins hl
    exact ⟨k, by omega, v, hv⟩

theorem Takes.read (h : Takes p s n t taken) (ht : after? p n s = some t)
    (hc : p[t.ip]? = some ',') (hu : next? p t = some u) :
    ∃ d, Takes p s (n + 1) u (taken ++ [d]) := by
  obtain ⟨d, hp, hrest⟩ := next?_read hc hu
  refine ⟨d, ?_, ?_, ?_, ?_⟩
  · rw [h.pending, hp, List.append_assoc, List.singleton_append]
  · obtain ⟨action, hstep⟩ := next?_eq_some_iff.mp hu
    rw [rowsFrom_concat ht hc hstep, List.countP_append, List.length_append, h.length]
    rfl
  · intro l
    rw [List.append_assoc, List.singleton_append]
    exact after?_concat (h.rest (d :: l)) (hrest l)
  · intro l hbegins hl
    rw [List.length_append, List.length_singleton] at hl
    by_cases hless : l.length < taken.length
    · have hbegins' := List.prefix_of_prefix_length_le hbegins (List.prefix_append taken [d])
        (Nat.le_of_lt hless)
      obtain ⟨k, hk, v, hv⟩ := h.less l hbegins' hless
      exact ⟨k, by omega, v, hv⟩
    · -- All but the last character are there: the run stops at the read of that one.
      obtain rfl : l = taken := by
        have hbegins' := List.prefix_of_prefix_length_le hbegins (List.prefix_append taken [d])
          (by omega)
        exact hbegins'.eq_of_length (by omega)
      have hreach := h.rest []
      rw [List.append_nil] at hreach
      exact ⟨n, by omega, t.fed [], hreach, hc, rfl⟩

theorem exists_takes (h : after? p n s = some t) : ∃ taken, Takes p s n t taken := by
  refine after?_induction (fun n t => ∃ taken, Takes p s n t taken) ⟨[], takes_zero p s⟩ ?_ h
  intro k t u ht hu ih
  obtain ⟨taken, htakes⟩ := ih
  obtain ⟨c, hc⟩ := exists_char_of_next? hu
  by_cases hread : c = ','
  · subst hread
    obtain ⟨d, htakes'⟩ := htakes.read ht hc hu
    exact ⟨taken ++ [d], htakes'⟩
  · exact ⟨taken, htakes.other ht hc hread hu⟩

/-- A run that does not end for want of input ends the same with other input pending. -/
theorem Halts.fed {control : Control} {r : Except Error Report} (hs : s.Sound n)
    (h : Halts p control n s r) (hr : ∀ ip, r ≠ .error (.inputExhausted ip)) (l : List Char) :
    Halts p control n (s.fed l) r := by
  cases h with
  | finished hout => exact .finished (s := s.fed l) hout
  | stopped hc ho => exact .stopped (s := s.fed l) hc ho
  | @failed c t e hc ho hstep =>
      by_cases hread : c = ','
      · subst hread
        obtain ⟨-, rfl⟩ := starving_of_error hs hc hstep
        exact absurd rfl (hr s.ip)
      · refine .failed (s := s.fed l) hc ho (t := t.fed l) ?_
        rw [step_fed hc hread, hstep]

theorem after?_fed (hread : ',' ∉ p.toList) (n : Nat) (s : State) (l : List Char) :
    after? p n (s.fed l) = (after? p n s).map (·.fed l) := by
  induction n generalizing s with
  | zero => rfl
  | succ n ih =>
      cases hc : p[s.ip]? with
      | none =>
          have hout : next? p s = none := next?_of_error (step_outside hc)
          have hout' : next? p (s.fed l) = none := next?_of_error (step_outside hc)
          simp only [after?, hout, hout', Option.bind_none, Option.map_none]
      | some c =>
          have hother : c ≠ ',' := by
            intro heq
            rw [← Array.getElem?_toList, heq] at hc
            exact hread (List.mem_of_getElem? hc)
          simp only [after?, next?_fed hc hother]
          cases next? p s with
          | none => rfl
          | some t => exact ih t

end Runs

/-- Counts the characters that a run takes from its input. -/
def Monitor.reads : Monitor Nat where
  started count := (count, none)
  executed count row := (if row.char = ',' then count + 1 else count, none)

theorem Monitor.watch_reads (r : Except Error Report) (rows : List Row) (count : Nat) :
    Monitor.reads.watch r rows count = ⟨count + rows.countP (·.char = ','), some r⟩ := by
  induction rows generalizing count with
  | nil => rfl
  | cons row rest ih =>
      change Monitor.reads.watch r rest (if row.char = ',' then count + 1 else count) = _
      rw [ih, List.countP_cons]
      by_cases hread : row.char = ','
      · simp only [hread, if_true, decide_true]
        congr 1
        omega
      · simp only [hread, if_false, decide_false, Bool.false_eq_true, Nat.add_zero]

namespace Machine

/-- The number of characters that a run takes from its input. -/
def consumed (m : Machine) (control : Control) (fuel : Nat) (source input : String) : Nat :=
  (m.execute control .reads fuel source input 0).watched

variable {m : Machine} {control : Control} {source input : String} {n fuel : Nat} {t : State}
  {r : Except Error Report} {taken : List Char}

theorem EndsAt.length_eq_consumed (hv : balanced source.toList = true)
    (h : m.EndsAt control source input n t r) (hfuel : n < fuel)
    (htakes : Takes (.ofString source) (.initial m.tapeSize input.toList) n t taken) :
    taken.length = m.consumed control fuel source input := by
  rw [htakes.length, consumed, h.execute_eq hv hfuel]
  change _ = (Monitor.reads.watch r (m.rows source input n) 0).watched
  rw [Monitor.watch_reads, Nat.zero_add]
  rfl

theorem EndsAt.refed (h : m.EndsAt control source input n t r)
    (hr : ∀ ip, r ≠ .error (.inputExhausted ip))
    (htakes : Takes (.ofString source) (.initial m.tapeSize input.toList) n t taken)
    {input' : String} {l : List Char} (hinput : input'.toList = taken ++ l) :
    m.EndsAt control source input' n (t.fed l) r where
  reached := by
    rw [hinput]
    exact htakes.rest l
  allowed := h.allowed
  halts := h.halts.fed (sound_after? h.reached).1 hr l

theorem EndsAt.starved (h : m.EndsAt control source input n t r)
    (htakes : Takes (.ofString source) (.initial m.tapeSize input.toList) n t taken)
    {input' : String} (hbegins : input'.toList <+: taken)
    (hless : input'.toList.length < taken.length) :
    ∃ k < n, ∃ u, m.EndsAt control source input' k u (.error (.inputExhausted u.ip)) := by
  obtain ⟨k, hk, u, hu, hc, hp⟩ := htakes.less _ hbegins hless
  refine ⟨k, hk, u, hu, ?_, .failed hc (h.allowed k hk) (step_starving hc hp)⟩
  intro j hj
  exact h.allowed j (Nat.lt_trans hj hk)

/-- A run that ends for want of input stands at a read and has taken all of the input. -/
theorem EndsAt.read_of_starved (hv : balanced source.toList = true) {ip : Nat}
    (h : m.EndsAt control source input n t (.error (.inputExhausted ip))) :
    (Program.ofString source)[t.ip]? = some ',' ∧ t.pending = [] := by
  have hsound := (sound_after? h.reached).1
  cases h.halts with
  | stopped hc ho =>
      have hlimit := Control.objection?_eq_some_iff.mp ho
      simp at hlimit
  | @failed c u e hc ho hstep =>
      rcases step_cases_of_balanced (Program.balanced_ofString hv) hsound hc with
        ⟨v, action, hok, -⟩ | ⟨-, rfl⟩ | ⟨hover, -⟩
      · rw [hok] at hstep
        cases hstep
      · exact ⟨hc, (starving_of_error hsound hc hstep).1⟩
      · rw [hover] at hstep
        cases hstep

theorem consumed_of_unbalanced (hv : balanced source.toList = false) :
    m.consumed control fuel source input = 0 := by
  rw [consumed, execute_of_unbalanced hv]

theorem run_of_take_prefix (h : m.run control fuel source input = some r)
    (hr : ∀ ip, r ≠ .error (.inputExhausted ip)) {input' : String}
    (hagrees : input.toList.take (m.consumed control fuel source input) <+: input'.toList) :
    m.run control fuel source input' = some r := by
  cases hv : balanced source.toList with
  | false =>
      rw [run_of_unbalanced hv] at h ⊢
      exact h
  | true =>
      obtain ⟨n, hn, t, hend⟩ := (run_eq_some_iff_endsAt hv).mp h
      obtain ⟨taken, htakes⟩ := exists_takes hend.reached
      have hinput : input.toList = taken ++ t.pending := htakes.pending
      rw [← hend.length_eq_consumed hv hn htakes, hinput, List.take_left] at hagrees
      obtain ⟨l, hl⟩ := hagrees
      exact (run_eq_some_iff_endsAt hv).mpr ⟨n, hn, _, hend.refed hr htakes hl.symm⟩

theorem consumed_le_length (h : m.run control fuel source input = some r) :
    m.consumed control fuel source input ≤ input.toList.length := by
  cases hv : balanced source.toList with
  | false =>
      rw [consumed_of_unbalanced hv]
      exact Nat.zero_le _
  | true =>
      obtain ⟨n, hn, t, hend⟩ := (run_eq_some_iff_endsAt hv).mp h
      obtain ⟨taken, htakes⟩ := exists_takes hend.reached
      have hinput : input.toList = taken ++ t.pending := htakes.pending
      rw [← hend.length_eq_consumed hv hn htakes, hinput, List.length_append]
      exact Nat.le_add_right _ _

theorem run_of_shorter (h : m.run control fuel source input = some r) {input' : String}
    (hbegins : input'.toList <+: input.toList)
    (hless : input'.toList.length < m.consumed control fuel source input) :
    ∃ ip, m.run control fuel source input' = some (.error (.inputExhausted ip)) := by
  cases hv : balanced source.toList with
  | false =>
      rw [consumed_of_unbalanced hv] at hless
      omega
  | true =>
      obtain ⟨n, hn, t, hend⟩ := (run_eq_some_iff_endsAt hv).mp h
      obtain ⟨taken, htakes⟩ := exists_takes hend.reached
      have hinput : input.toList = taken ++ t.pending := htakes.pending
      rw [← hend.length_eq_consumed hv hn htakes] at hless
      rw [hinput] at hbegins
      have hbegins' := List.prefix_of_prefix_length_le hbegins (List.prefix_append taken t.pending)
        (Nat.le_of_lt hless)
      obtain ⟨k, hk, u, hstarved⟩ := hend.starved htakes hbegins' hless
      exact ⟨u.ip, (run_eq_some_iff_endsAt hv).mpr ⟨k, by omega, u, hstarved⟩⟩

theorem run_starved_of_prefix {ip : Nat}
    (h : m.run control fuel source input = some (.error (.inputExhausted ip))) {input' : String}
    (hbegins : input'.toList <+: input.toList) :
    ∃ ip', m.run control fuel source input' = some (.error (.inputExhausted ip')) := by
  cases hv : balanced source.toList with
  | false =>
      rw [run_of_unbalanced hv] at h ⊢
      exact ⟨ip, h⟩
  | true =>
      obtain ⟨n, hn, t, hend⟩ := (run_eq_some_iff_endsAt hv).mp h
      obtain ⟨taken, htakes⟩ := exists_takes hend.reached
      have hinput : input.toList = taken := by
        have hall : input.toList = taken ++ t.pending := htakes.pending
        rw [hall, (hend.read_of_starved hv).2, List.append_nil]
      by_cases hless : input'.toList.length < taken.length
      · obtain ⟨k, hk, u, hstarved⟩ := hend.starved htakes (hinput ▸ hbegins) hless
        exact ⟨u.ip, (run_eq_some_iff_endsAt hv).mpr ⟨k, by omega, u, hstarved⟩⟩
      · rw [← hinput] at hless
        have hsame : input' = input := by
          apply String.toList_injective
          exact hbegins.eq_of_length_le (by omega)
        rw [hsame]
        exact ⟨ip, h⟩

theorem run_of_no_read (hread : ',' ∉ source.toList) (h : m.run control fuel source input = some r)
    (input' : String) : m.run control fuel source input' = some r := by
  cases hv : balanced source.toList with
  | false =>
      rw [run_of_unbalanced hv] at h ⊢
      exact h
  | true =>
      obtain ⟨n, hn, t, hend⟩ := (run_eq_some_iff_endsAt hv).mp h
      have hread' : ',' ∉ (Program.ofString source).toList := by
        simpa [Program.ofString] using hread
      have hreached : after? (.ofString source) n (.initial m.tapeSize input'.toList) =
          some (t.fed input'.toList) := by
        have hfed := after?_fed hread' n (.initial m.tapeSize input.toList) input'.toList
        rw [hend.reached] at hfed
        exact hfed
      refine (run_eq_some_iff_endsAt hv).mpr ⟨n, hn, _, hreached, hend.allowed, ?_⟩
      apply hend.halts.fed (sound_after? hend.reached).1
      rintro ip rfl
      have hc := (hend.read_of_starved hv).1
      rw [← Array.getElem?_toList] at hc
      exact hread' (List.mem_of_getElem? hc)

end Machine

/-- The result of a run depends only on the input that it has consumed. Unless it ends for want of
input, every input that begins with the consumed characters gives the same result, and every
shorter part of them ends the run for want of input. A run that ends so does it on every shorter
input too, and without reads all inputs give one result. -/
theorem run_depends_on_consumed (machine : Machine) (control : Control) (source : String)
    (fuel : Nat) :
    (∀ input r count, machine.run control fuel source input = some r →
      (∀ ip, r ≠ .error (.inputExhausted ip)) →
      machine.consumed control fuel source input = count →
      count ≤ input.toList.length ∧
      (∀ input', input.toList.take count <+: input'.toList →
        machine.run control fuel source input' = some r) ∧
      ∀ input', input'.toList <+: input.toList → input'.toList.length < count →
        ∃ ip, machine.run control fuel source input' = some (.error (.inputExhausted ip))) ∧
    (∀ input ip, machine.run control fuel source input = some (.error (.inputExhausted ip)) →
      ∀ input', input'.toList <+: input.toList →
        ∃ ip', machine.run control fuel source input' = some (.error (.inputExhausted ip'))) ∧
    (',' ∉ source.toList → ∀ input input',
      machine.run control fuel source input = machine.run control fuel source input') := by
  refine ⟨?_, ?_, ?_⟩
  · intro input r count h hr hcount
    subst hcount
    refine ⟨Machine.consumed_le_length h, ?_, ?_⟩
    · intro input' hagrees
      exact Machine.run_of_take_prefix h hr hagrees
    · intro input' hbegins hless
      exact Machine.run_of_shorter h hbegins hless
  · intro input ip h input' hbegins
    exact Machine.run_starved_of_prefix h hbegins
  · intro hread input input'
    apply Option.ext
    intro r
    constructor
    · intro h
      exact Machine.run_of_no_read hread h input'
    · intro h
      exact Machine.run_of_no_read hread h input

/-- Three of five characters are consumed, the last of them ending the loop; two are too few, and
then so is one. Without a read nothing of this matters. -/
theorem run_depends_on_consumed_copy :
    Machine.standard.consumed .free 11 ",[.,]" "ab\x00zz" = 3 ∧
      Machine.standard.run .free 11 ",[.,]" "ab\x00" = some (.ok ⟨"ab", [97, 98], 10⟩) ∧
      (∃ ip, Machine.standard.run .free 11 ",[.,]" "ab" = some (.error (.inputExhausted ip))) ∧
      (∃ ip, Machine.standard.run .free 11 ",[.,]" "a" = some (.error (.inputExhausted ip))) ∧
      Machine.standard.run .free 3 "+." "ab" = Machine.standard.run .free 3 "+." "" := by
  obtain ⟨hends, hstarves, -⟩ := run_depends_on_consumed .standard .free ",[.,]" 11
  obtain ⟨-, hsame, hshort⟩ := hends "ab\x00zz" (.ok ⟨"ab", [97, 98], 10⟩) 3 rfl (by simp) rfl
  refine ⟨rfl, hsame "ab\x00" (by decide), hshort "ab" (by decide) (by decide), ?_, ?_⟩
  · exact hstarves "ab" 3 rfl "a" (by decide)
  · exact (run_depends_on_consumed .standard .free "+." 3).2.2 (by decide) "ab" ""

end Brainfuck
