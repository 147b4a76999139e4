import Brainfuck.Proofs.Steps

/-!
Programs as nested loops. The meaning of a block is given without a place in a program: a plain
character acts on the memory and costs one step, and a loop tests the cell, runs its body and
starts over while the cell is not zero. Every test costs one step and so does every return to
it, so a loop whose body is run at costs `b₁, …, bₙ` costs `(b₁ + 2) + … + (bₙ + 2) + 1`.

The machine has no blocks: it follows a place in the text that two bracket scans move about.
Main statement: on a balanced source it ends exactly as the block that the source spells, with
the same output and the same number of steps, or at the same read without input.
-/

namespace Brainfuck

/-- Evaluation of a block on a tape of the given size, from one memory to another at a cost. -/
inductive Evaluates (size : Nat) : Block → Memory → Memory → Nat → Prop where
  | done (m : Memory) : Evaluates size .done m m 0
  | leaf {c : Char} {plain : IsPlain c} {rest : Block} {m m' m'' : Memory} {cost : Nat} :
      m.perform? size c = some m' → Evaluates size rest m' m'' cost →
      Evaluates size (.leaf c plain rest) m m'' (cost + 1)
  | exit {body rest : Block} {m m' : Memory} {cost : Nat} :
      m.cell = 0 → Evaluates size rest m m' cost →
      Evaluates size (.loop body rest) m m' (cost + 1)
  | again {body rest : Block} {m m' m'' : Memory} {bodyCost cost : Nat} :
      m.cell ≠ 0 → Evaluates size body m m' bodyCost →
      Evaluates size (.loop body rest) m' m'' cost →
      Evaluates size (.loop body rest) m m'' ((bodyCost + 2) + cost)

/-- Evaluation of a block gets stuck for want of input at the read that stands at the given
place of its text, after steps of the given cost. -/
inductive Starves (size : Nat) : Block → Memory → (place cost : Nat) → Prop where
  | here {plain : IsPlain ','} {rest : Block} {m : Memory} :
      m.pending = [] → Starves size (.leaf ',' plain rest) m 0 0
  | leaf {c : Char} {plain : IsPlain c} {rest : Block} {m m' : Memory} {place cost : Nat} :
      m.perform? size c = some m' → Starves size rest m' place cost →
      Starves size (.leaf c plain rest) m (place + 1) (cost + 1)
  | body {body rest : Block} {m : Memory} {place cost : Nat} :
      m.cell ≠ 0 → Starves size body m place cost →
      Starves size (.loop body rest) m (place + 1) (cost + 1)
  | again {body rest : Block} {m m' : Memory} {bodyCost place cost : Nat} :
      m.cell ≠ 0 → Evaluates size body m m' bodyCost →
      Starves size (.loop body rest) m' place cost →
      Starves size (.loop body rest) m place ((bodyCost + 2) + cost)
  | exit {body rest : Block} {m : Memory} {place cost : Nat} :
      m.cell = 0 → Starves size rest m place cost →
      Starves size (.loop body rest) m (body.text.length + 2 + place) (cost + 1)

theorem Memory.perform?_eq_none {size : Nat} {m : Memory} {c : Char}
    (h : m.perform? size c = none) : c = ',' ∧ m.pending = [] := by
  unfold perform? at h
  split at h
  case h_6 =>
    split at h
    · next hp => exact ⟨rfl, hp⟩
    · cases h
  all_goals cases h

/-- After `k` steps the state stands at place `ip` with the memory `m` on a tape of `size`. -/
structure State.Stands (size k ip : Nat) (m : Memory) (s : State) : Prop where
  sound : s.Sound k
  size_eq : s.tape.size = size
  ip_eq : s.ip = ip
  memory_eq : s.memory = m

theorem stands_initial (size : Nat) (input : List Char) :
    (State.initial size input).Stands size 0 0 (.initial input) :=
  ⟨State.sound_initial size input, rfl, rfl, State.memory_initial size input⟩

namespace State.Stands

theorem cast {size k k' i i' : Nat} {m : Memory} {s : State} (hs : s.Stands size k i m)
    (hk : k' = k) (hi : i' = i) : s.Stands size k' i' m := by
  subst hk hi
  exact hs

variable {p : Program} {size k i : Nat} {m : Memory} {s : State}

theorem cell_eq_zero (hs : s.Stands size k i m) : m.cell = 0 ↔ s.cell = 0 := by
  rw [← hs.memory_eq]
  exact State.memory_cell_eq_zero hs.sound

theorem jump (hs : s.Stands size k i m) (ip : Nat) :
    State.Stands size (k + 1) ip m { s with ip := ip } :=
  ⟨hs.sound.jump ip, hs.size_eq, rfl, hs.memory_eq⟩

theorem next?_leaf {c : Char} {m' : Memory} (hs : s.Stands size k i m) (hc : p[i]? = some c)
    (hplain : IsPlain c) (hm : m.perform? size c = some m') :
    (∃ t, next? p s = some t ∧ t.Stands size (k + 1) (i + 1) m') ∨
      step p s = s.fail (.crash .headOverflow) ∧ wordMax ≤ k := by
  obtain ⟨hsound, rfl, rfl, rfl⟩ := hs
  rw [step_plain hc hplain]
  rcases s.perform_cases hsound c with ⟨m, hm', t, action, ht, hmem, hip, hsize, hsound'⟩ |
    ⟨hnone, -, -⟩ | ⟨hfail, -, hk⟩
  · rw [hm] at hm'
    cases hm'
    refine .inl ⟨t, ?_, hsound', hsize, hip, hmem⟩
    exact next?_of_ok ((step_plain hc hplain).trans ht)
  · rw [hm] at hnone
    cases hnone
  · exact .inr ⟨hfail, hk⟩

theorem step_starved (hs : s.Stands size k i m) (hc : p[i]? = some ',') (hp : m.pending = []) :
    step p s = s.fail (.inputExhausted i) := by
  obtain ⟨hsound, rfl, rfl, rfl⟩ := hs
  rw [step_plain hc (by decide)]
  exact State.readCell_nil hp

theorem next?_exit {body : Block} (hs : s.Stands size k i m) (ho : p[i]? = some '[')
    (hbody : p.Spells (i + 1) body.text) (hc : p[i + 1 + body.text.length]? = some ']')
    (hcell : m.cell = 0) :
    ∃ t, next? p s = some t ∧ t.Stands size (k + 1) (i + 1 + body.text.length + 1) m := by
  refine ⟨_, next?_of_ok (step_skip ?_ (hs.cell_eq_zero.mp hcell) ?_), hs.jump _⟩
  · rw [hs.ip_eq]
    exact ho
  · rw [hs.ip_eq]
    exact Program.close?_loop hbody hc

theorem next?_enter (hs : s.Stands size k i m) (ho : p[i]? = some '[') (hcell : m.cell ≠ 0) :
    ∃ t, next? p s = some t ∧ t.Stands size (k + 1) (i + 1) m := by
  obtain rfl := hs.ip_eq
  exact ⟨_, next?_of_ok (step_enter ho (mt hs.cell_eq_zero.mpr hcell)), hs.jump _⟩

theorem next?_back {body : Block} (hs : s.Stands size k (i + 1 + body.text.length) m)
    (ho : p[i]? = some '[') (hbody : p.Spells (i + 1) body.text)
    (hc : p[i + 1 + body.text.length]? = some ']') :
    ∃ t, next? p s = some t ∧ t.Stands size (k + 1) i m := by
  refine ⟨_, next?_of_ok (step_back ?_ ?_), hs.jump _⟩
  · rw [hs.ip_eq]
    exact hc
  · rw [hs.ip_eq]
    exact Program.open?_loop ho hbody

end State.Stands

section Simulation

variable {p : Program} {size : Nat}

/-- The machine follows an evaluation step by step, as long as the head cannot have left the
signed word. -/
theorem after?_of_evaluates {b : Block} {m m' : Memory} {cost : Nat}
    (h : Evaluates size b m m' cost) {k i : Nat} {s : State} (hp : p.Spells i b.text)
    (hs : s.Stands size k i m) (hk : k + cost ≤ wordMax) :
    ∃ t, after? p cost s = some t ∧ t.Stands size (k + cost) (i + b.text.length) m' := by
  induction h generalizing k i s with
  | done m => exact ⟨s, rfl, hs⟩
  | @leaf c plain rest m m₁ m₂ cost hm _ ih =>
      obtain ⟨hc, hrest⟩ := hp
      rcases hs.next?_leaf hc plain hm with ⟨t, ht, hst⟩ | ⟨-, hword⟩
      · obtain ⟨u, hu, hsu⟩ := ih hrest hst (by omega)
        refine ⟨u, after?_cons ht hu, hsu.cast (by omega) ?_⟩
        rw [Block.length_text_leaf]
        omega
      · omega
  | @exit body rest m m₁ cost hcell _ ih =>
      obtain ⟨ho, hbody, hc, hrest⟩ := Program.spells_loop.mp hp
      obtain ⟨t, ht, hst⟩ := hs.next?_exit ho hbody hc hcell
      obtain ⟨u, hu, hsu⟩ := ih hrest hst (by omega)
      refine ⟨u, after?_cons ht hu, hsu.cast (by omega) ?_⟩
      rw [Block.length_text_loop]
      omega
  | @again body rest m m₁ m₂ bodyCost cost hcell _ _ ihb ihl =>
      obtain ⟨ho, hbody, hc, hrest⟩ := Program.spells_loop.mp hp
      obtain ⟨t, ht, hst⟩ := hs.next?_enter ho hcell
      obtain ⟨u, hu, hsu⟩ := ihb hbody hst (by omega)
      obtain ⟨v, hv, hsv⟩ := hsu.next?_back ho hbody hc
      obtain ⟨w, hw, hsw⟩ := ihl hp hsv (by omega)
      exact ⟨w, after?_trans (after?_round ht hu hv) hw, hsw.cast (by omega) rfl⟩

/-- The machine follows an evaluation that gets stuck, and its next step fails for want of
input at the same read. -/
theorem after?_of_starves {b : Block} {m : Memory} {place cost : Nat}
    (h : Starves size b m place cost) {k i : Nat} {s : State} (hp : p.Spells i b.text)
    (hs : s.Stands size k i m) (hk : k + cost ≤ wordMax) :
    ∃ t, after? p cost s = some t ∧ p[t.ip]? = some ',' ∧
      step p t = t.fail (.inputExhausted (i + place)) := by
  induction h generalizing k i s with
  | here hpending =>
      obtain ⟨hc, -⟩ := hp
      refine ⟨s, rfl, ?_, hs.step_starved hc hpending⟩
      rw [hs.ip_eq]
      exact hc
  | @leaf c plain rest m m₁ place cost hm _ ih =>
      obtain ⟨hc, hrest⟩ := hp
      rcases hs.next?_leaf hc plain hm with ⟨t, ht, hst⟩ | ⟨-, hword⟩
      · obtain ⟨u, hu, hchar, hfail⟩ := ih hrest hst (by omega)
        refine ⟨u, after?_cons ht hu, hchar, ?_⟩
        rw [hfail, Nat.add_right_comm, Nat.add_assoc]
      · omega
  | @body body rest m place cost hcell _ ih =>
      obtain ⟨ho, hbody, -, -⟩ := Program.spells_loop.mp hp
      obtain ⟨t, ht, hst⟩ := hs.next?_enter ho hcell
      obtain ⟨u, hu, hchar, hfail⟩ := ih hbody hst (by omega)
      refine ⟨u, after?_cons ht hu, hchar, ?_⟩
      rw [hfail, Nat.add_right_comm, Nat.add_assoc]
  | @again body rest m m₁ bodyCost place cost hcell hrun _ ih =>
      obtain ⟨ho, hbody, hc, -⟩ := Program.spells_loop.mp hp
      obtain ⟨t, ht, hst⟩ := hs.next?_enter ho hcell
      obtain ⟨u, hu, hsu⟩ := after?_of_evaluates hrun hbody hst (by omega)
      obtain ⟨v, hv, hsv⟩ := hsu.next?_back ho hbody hc
      obtain ⟨w, hw, hchar, hfail⟩ := ih hp hsv (by omega)
      exact ⟨w, after?_trans (after?_round ht hu hv) hw, hchar, hfail⟩
  | @exit body rest m place cost hcell _ ih =>
      obtain ⟨ho, hbody, hc, hrest⟩ := Program.spells_loop.mp hp
      obtain ⟨t, ht, hst⟩ := hs.next?_exit ho hbody hc hcell
      obtain ⟨u, hu, hchar, hfail⟩ := ih hrest hst (by omega)
      refine ⟨u, after?_cons ht hu, hchar, ?_⟩
      rw [hfail]
      congr 2
      omega

/-- The `n` steps from `s` to `t` evaluate the block at place `i` and may go on behind it, or
they get stuck in it. -/
def RunsInto (p : Program) (size n : Nat) (b : Block) (m : Memory) (k i : Nat) (s t : State) :
    Prop :=
  (∃ cost m' u, cost ≤ n ∧ Evaluates size b m m' cost ∧ after? p cost s = some u ∧
      u.Stands size (k + cost) (i + b.text.length) m') ∨
    ∃ place, Starves size b m place n ∧ step p t = t.fail (.inputExhausted (i + place))

theorem runsInto_leaf {n k i : Nat} {c : Char} {plain : IsPlain c} {rest : Block}
    {m m' : Memory} {s t u : State} (hm : m.perform? size c = some m') (hu : next? p s = some u)
    (h : RunsInto p size n rest m' (k + 1) (i + 1) u t) :
    RunsInto p size (n + 1) (.leaf c plain rest) m k i s t := by
  rcases h with ⟨cost, m'', v, hle, heval, hv, hsv⟩ | ⟨place, hstarve, hfail⟩
  · refine .inl ⟨cost + 1, m'', v, by omega, .leaf hm heval, after?_cons hu hv, ?_⟩
    refine hsv.cast (by omega) ?_
    rw [Block.length_text_leaf]
    omega
  · refine .inr ⟨place + 1, .leaf hm hstarve, ?_⟩
    rw [hfail, Nat.add_right_comm, Nat.add_assoc]

theorem runsInto_exit {n k i : Nat} {body rest : Block} {m : Memory} {s t u : State}
    (hcell : m.cell = 0) (hu : next? p s = some u)
    (h : RunsInto p size n rest m (k + 1) (i + 1 + body.text.length + 1) u t) :
    RunsInto p size (n + 1) (.loop body rest) m k i s t := by
  rcases h with ⟨cost, m', v, hle, heval, hv, hsv⟩ | ⟨place, hstarve, hfail⟩
  · refine .inl ⟨cost + 1, m', v, by omega, .exit hcell heval, after?_cons hu hv, ?_⟩
    refine hsv.cast (by omega) ?_
    rw [Block.length_text_loop]
    omega
  · refine .inr ⟨body.text.length + 2 + place, .exit hcell hstarve, ?_⟩
    rw [hfail]
    congr 2
    omega

theorem runsInto_again {n bodyCost k i : Nat} {body rest : Block} {m m' : Memory}
    {s t u : State} (hcell : m.cell ≠ 0) (heval : Evaluates size body m m' bodyCost)
    (hu : after? p (bodyCost + 2) s = some u)
    (h : RunsInto p size n (.loop body rest) m' (k + (bodyCost + 2)) i u t) :
    RunsInto p size (bodyCost + 2 + n) (.loop body rest) m k i s t := by
  rcases h with ⟨cost, m'', v, hle, heval', hv, hsv⟩ | ⟨place, hstarve, hfail⟩
  · exact .inl ⟨bodyCost + 2 + cost, m'', v, by omega, .again hcell heval heval',
      after?_trans hu hv, hsv.cast (by omega) rfl⟩
  · exact .inr ⟨place, .again hcell heval hstarve, hfail⟩

/-- A run that cannot go on has evaluated the block it started at or got stuck in it. The
induction is on the length of the run: every test and every plain character takes a step, so
the body of a loop, and the loop itself after one round, are met with fewer steps to go. -/
theorem runsInto_of_stopped {n : Nat} {b : Block} {m : Memory} {k i : Nat} {s t : State}
    (hp : p.Spells i b.text) (hs : s.Stands size k i m) (h : after? p n s = some t)
    (hstop : next? p t = none) (hword : step p t ≠ t.fail (.crash .headOverflow)) :
    RunsInto p size n b m k i s t := by
  induction n using Nat.strongRecOn generalizing b m k i s with
  | ind n ih =>
      cases b with
      | done => exact .inl ⟨0, m, s, Nat.zero_le n, .done m, rfl, hs⟩
      | leaf c plain rest =>
          obtain ⟨hc, hrest⟩ := hp
          cases hm : m.perform? size c with
          | none =>
              obtain ⟨rfl, hpending⟩ := Memory.perform?_eq_none hm
              have hfail := hs.step_starved hc hpending
              obtain ⟨rfl, rfl⟩ := after?_stopped (next?_of_error hfail) h
              exact .inr ⟨0, .here hpending, hfail⟩
          | some m' =>
              rcases hs.next?_leaf hc plain hm with ⟨u, hu, hsu⟩ | ⟨hfail, -⟩
              · obtain ⟨n, rfl, ht⟩ := after?_of_next? hu h hstop
                exact runsInto_leaf hm hu (ih n (by omega) hrest hsu ht)
              · obtain ⟨-, rfl⟩ := after?_stopped (next?_of_error hfail) h
                exact absurd hfail hword
      | loop body rest =>
          obtain ⟨ho, hbody, hc, hrest⟩ := Program.spells_loop.mp hp
          by_cases hcell : m.cell = 0
          · obtain ⟨u, hu, hsu⟩ := hs.next?_exit ho hbody hc hcell
            obtain ⟨n, rfl, ht⟩ := after?_of_next? hu h hstop
            exact runsInto_exit hcell hu (ih n (by omega) hrest hsu ht)
          · obtain ⟨u, hu, hsu⟩ := hs.next?_enter ho hcell
            obtain ⟨n, rfl, ht⟩ := after?_of_next? hu h hstop
            rcases ih n (by omega) hbody hsu ht with
              ⟨bodyCost, m', v, hle, heval, hv, hsv⟩ | ⟨place, hstarve, hfail⟩
            · obtain ⟨w, hw, hsw⟩ := hsv.next?_back ho hbody hc
              obtain ⟨left, hleft, ht'⟩ := after?_of_next? hw (after?_sub ht hv hle) hstop
              have hlength : n + 1 = bodyCost + 2 + left := by omega
              rw [hlength]
              exact runsInto_again hcell heval (after?_round hu hv hw)
                (ih left (by omega) hp (hsw.cast (by omega) rfl) ht')
            · refine .inr ⟨place + 1, .body hcell hstarve, ?_⟩
              rw [hfail, Nat.add_right_comm, Nat.add_assoc]

theorem finishes_iff_evaluates {b : Block} (hp : p.Spells 0 b.text)
    (hend : p[b.text.length]? = none) {m : Memory} {s : State} (hs : s.Stands size 0 0 m)
    {n : Nat} (hn : n ≤ wordMax) (output : List Nat) :
    (∃ t, after? p n s = some t ∧ p[t.ip]? = none ∧ t.output = output) ↔
      ∃ m', Evaluates size b m m' n ∧ m'.output = output := by
  constructor
  · rintro ⟨t, ht, hout, rfl⟩
    have hfail := step_outside hout
    rcases runsInto_of_stopped hp hs ht (next?_of_error hfail) (by simp [hfail, State.fail]) with
      ⟨cost, m', u, hle, heval, hu, hsu⟩ | ⟨place, -, hstarve⟩
    · have hstop : next? p u = none := by
        apply next?_of_error (step_outside _)
        rw [hsu.ip_eq, Nat.zero_add]
        exact hend
      obtain ⟨hcost, rfl⟩ := after?_stopped hstop (after?_sub ht hu hle)
      have hcost' : cost = n := by omega
      exact ⟨m', hcost' ▸ heval, by rw [← hsu.memory_eq]; rfl⟩
    · simp [hfail, State.fail] at hstarve
  · rintro ⟨m', heval, rfl⟩
    obtain ⟨t, ht, hst⟩ := after?_of_evaluates heval hp hs (by omega)
    refine ⟨t, ht, ?_, by rw [← hst.memory_eq]; rfl⟩
    rw [hst.ip_eq, Nat.zero_add]
    exact hend

theorem fails_iff_starves {b : Block} (hp : p.Spells 0 b.text)
    (hend : p[b.text.length]? = none) {m : Memory} {s : State} (hs : s.Stands size 0 0 m)
    {n : Nat} (hn : n ≤ wordMax) (ip : Nat) :
    (∃ t c u, after? p n s = some t ∧ p[t.ip]? = some c ∧
        step p t = (u, .error (.inputExhausted ip))) ↔ Starves size b m ip n := by
  constructor
  · rintro ⟨t, c, u, ht, hc, hfail⟩
    rcases runsInto_of_stopped hp hs ht (next?_of_error hfail) (by simp [hfail, State.fail]) with
      ⟨cost, m', v, hle, -, hv, hsv⟩ | ⟨place, hstarve, hfail'⟩
    · have hout : p[v.ip]? = none := by
        rw [hsv.ip_eq, Nat.zero_add]
        exact hend
      obtain ⟨-, rfl⟩ := after?_stopped (next?_of_error (step_outside hout)) (after?_sub ht hv hle)
      rw [hout] at hc
      cases hc
    · rw [hfail', Nat.zero_add] at hfail
      cases hfail
      exact hstarve
  · intro hstarve
    obtain ⟨t, ht, hc, hfail⟩ := after?_of_starves hstarve hp hs (by omega)
    rw [Nat.zero_add] at hfail
    exact ⟨t, ',', t, ht, hc, hfail⟩

end Simulation

section Answers

variable {machine : Machine} {source input : String} {b : Block}

theorem Block.spelled_ofString (hb : b.text = source.toList) :
    balanced source.toList = true ∧ (Program.ofString source).Spells 0 b.text ∧
      (Program.ofString source)[b.text.length]? = none := by
  refine ⟨(balanced_iff_exists_parse? _).mpr ⟨b, parse?_eq_some_iff.mpr hb⟩, ?_⟩
  rw [hb]
  exact ⟨Program.spells_ofString source, Program.getElem?_ofString_end source⟩

/-- An evaluation that keeps the head in its word is the answer of the machine. -/
theorem Machine.answers_of_evaluates (hb : b.text = source.toList) {m : Memory} {cost : Nat}
    (heval : Evaluates machine.tapeSize b (.initial input.toList) m cost)
    (hcost : cost ≤ wordMax) :
    machine.Answers .free source input
      (.ok ⟨.ofList (m.output.map codePointChar), m.output, cost⟩) := by
  obtain ⟨hv, hp, hend⟩ := Block.spelled_ofString hb
  have hs := stands_initial machine.tapeSize input.toList
  obtain ⟨t, ht, hout, houtput⟩ :=
    (finishes_iff_evaluates hp hend hs hcost m.output).mpr ⟨m, heval, rfl⟩
  refine (answers_ok_iff hv).mpr ⟨t, ht, hout, ?_⟩
  rw [State.report, houtput]

theorem Machine.answers_of_starves (hb : b.text = source.toList) {place cost : Nat}
    (hstarve : Starves machine.tapeSize b (.initial input.toList) place cost)
    (hcost : cost ≤ wordMax) :
    machine.Answers .free source input (.error (.inputExhausted place)) := by
  obtain ⟨hv, hp, hend⟩ := Block.spelled_ofString hb
  have hs := stands_initial machine.tapeSize input.toList
  exact (answers_error_iff hv).mpr ⟨cost, (fails_iff_starves hp hend hs hcost place).mpr hstarve⟩

end Answers

/-- The machine implements the structured language. A balanced source spells one block. For as
many turns as the head is sure to stay in its word, the run without limits reports an output and
a number of steps exactly when the block evaluates to that output at that cost, and it runs out
of input at an instruction exactly when the evaluation is stuck at the read in that place. -/
theorem run_iff_evaluates (machine : Machine) (source input : String)
    (hv : balanced source.toList = true) :
    ∃ b : Block, (∀ b' : Block, b'.text = source.toList ↔ b' = b) ∧
      ∀ fuel ≤ wordMax + 1,
        (∀ (text : String) (output : List Nat) (steps : Nat),
          machine.run .free fuel source input = some (.ok ⟨text, output, steps⟩) ↔
            steps < fuel ∧ text = String.ofList (output.map codePointChar) ∧
              ∃ m, Evaluates machine.tapeSize b (.initial input.toList) m steps ∧
                m.output = output) ∧
        ∀ ip : Nat,
          machine.run .free fuel source input = some (.error (.inputExhausted ip)) ↔
            ∃ cost < fuel, Starves machine.tapeSize b (.initial input.toList) ip cost := by
  obtain ⟨b, hb⟩ := (Block.balanced_iff_exists_parse? _).mp hv
  have hp := Program.spells_ofString source
  have hend := Program.getElem?_ofString_end source
  rw [← Block.text_of_parse? hb] at hp hend
  have hs := stands_initial machine.tapeSize input.toList
  refine ⟨b, ?_, ?_⟩
  · intro b'
    rw [← Block.parse?_eq_some_iff, hb, Option.some.injEq, eq_comm]
  · intro fuel hfuel
    refine ⟨?_, ?_⟩
    · intro text output steps
      rw [Machine.run_free_ok_iff hv]
      refine and_congr_right fun hlt => ?_
      have hn : steps ≤ wordMax := Nat.le_of_lt_succ (Nat.lt_of_lt_of_le hlt hfuel)
      rw [← finishes_iff_evaluates hp hend hs hn output]
      simp only [State.report, Report.mk.injEq, and_true]
      constructor
      · rintro ⟨t, ht, hout, rfl, rfl⟩
        exact ⟨rfl, t, ht, hout, rfl⟩
      · rintro ⟨rfl, t, ht, hout, rfl⟩
        exact ⟨t, ht, hout, rfl, rfl⟩
    · intro ip
      rw [Machine.run_free_error_iff hv]
      refine exists_congr fun n => and_congr_right fun hlt => ?_
      exact fails_iff_starves hp hend hs (by omega) ip

/-- A loop of two rounds, and a read that starves in the second round of another. -/
theorem run_iff_evaluates_rounds :
    balanced ",[.-]".toList = true ∧ balanced "+[,.]".toList = true ∧
      (∃ b : Block, b.text = ",[.-]".toList ∧
        ∃ m, Evaluates 0 b (.initial "\x02".toList) m 10 ∧ m.output = [2, 1]) ∧
      ∃ b : Block, b.text = "+[,.]".toList ∧
        ∃ cost < 7, Starves 0 b (.initial "a".toList) 2 cost := by
  refine ⟨by decide, by decide, ?_, ?_⟩
  · obtain ⟨b, hb, h⟩ := run_iff_evaluates .standard ",[.-]" "\x02" (by decide)
    have hrun : Machine.standard.run .free 11 ",[.-]" "\x02" =
        some (.ok ⟨"\x02\x01", [2, 1], 10⟩) := rfl
    exact ⟨b, (hb b).mpr rfl, (((h 11 (by decide)).1 _ _ _).mp hrun).2.2⟩
  · obtain ⟨b, hb, h⟩ := run_iff_evaluates .standard "+[,.]" "a" (by decide)
    have hrun : Machine.standard.run .free 7 "+[,.]" "a" = some (.error (.inputExhausted 2)) := rfl
    exact ⟨b, (hb b).mpr rfl, ((h 7 (by decide)).2 2).mp hrun⟩

end Brainfuck
