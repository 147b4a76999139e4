import Brainfuck.Proofs.Budget
import Brainfuck.Proofs.Rules

/-!
Two machines in lockstep. The programs have the same brackets and otherwise differ by a map of
their characters; the tapes may be of different sizes. If the memories keep something in common
whenever corresponding characters are executed, and what they have in common determines the cell
under the head and the output, then the machines take the same turns and report the same.

Main statement: under a budget of no more than the given number of steps, both machines give one
result.
-/

namespace Brainfuck

/-- The map takes each bracket to itself and no other character to a bracket. -/
structure KeepsBrackets (f : Char → Char) : Prop where
  opening : f '[' = '['
  closing : f ']' = ']'
  plain : ∀ c, IsPlain c → IsPlain (f c)

section Texts

variable {f : Char → Char} (hf : KeepsBrackets f)
include hf

theorem balancedFrom_map (depth : Nat) (l : List Char) :
    balancedFrom depth (l.map f) = balancedFrom depth l := by
  induction l generalizing depth with
  | nil => rfl
  | cons c l ih =>
      rw [List.map_cons]
      rcases bracket_cases c with rfl | rfl | hc
      · rw [hf.opening, balancedFrom_open, balancedFrom_open, ih]
      · rw [hf.closing]
        cases depth with
        | zero => rw [balancedFrom_close_zero, balancedFrom_close_zero]
        | succ depth => rw [balancedFrom_close, balancedFrom_close, ih]
      · rw [balancedFrom_plain (hf.plain c hc), balancedFrom_plain hc, ih]

theorem unmatchedFrom?_map (ip : Nat) (opened : List Nat) (l : List Char) :
    unmatchedFrom? ip opened (l.map f) = unmatchedFrom? ip opened l := by
  induction l generalizing ip opened with
  | nil => rfl
  | cons c l ih =>
      rw [List.map_cons]
      rcases bracket_cases c with rfl | rfl | hc
      · rw [hf.opening, unmatchedFrom?, unmatchedFrom?, ih]
      · rw [hf.closing]
        cases opened with
        | nil => rw [unmatchedFrom?, unmatchedFrom?]
        | cons outer opened => rw [unmatchedFrom?, unmatchedFrom?, ih]
      · rw [unmatchedFrom?_plain (hf.plain c hc), unmatchedFrom?_plain hc, ih]

theorem ofUnbalanced_map (l : List Char) :
    Error.ofUnbalanced (l.map f) = Error.ofUnbalanced l := by
  rw [Error.ofUnbalanced, Error.ofUnbalanced, unmatched?, unmatched?, unmatchedFrom?_map hf]

theorem closeFrom?_map (p : Program) (left ip depth : Nat) :
    Program.closeFrom? (p.map f) left ip depth = p.closeFrom? left ip depth := by
  induction left generalizing ip depth with
  | zero => rfl
  | succ left ih =>
      have hget : (p.map f)[ip]? = p[ip]?.map f := Array.getElem?_map
      cases hc : p[ip]? with
      | none =>
          rw [hc, Option.map_none] at hget
          simp only [Program.closeFrom?, hc, hget, ih]
      | some c =>
          rw [hc, Option.map_some] at hget
          rcases bracket_cases c with rfl | rfl | hplain
          · rw [hf.opening] at hget
            rw [Program.closeFrom?_open hget, Program.closeFrom?_open hc, ih]
          · rw [hf.closing] at hget
            cases depth with
            | zero => rw [Program.closeFrom?_found hget, Program.closeFrom?_found hc]
            | succ depth => rw [Program.closeFrom?_close hget, Program.closeFrom?_close hc, ih]
          · rw [Program.closeFrom?_plain hget (hf.plain c hplain),
              Program.closeFrom?_plain hc hplain, ih]

theorem openBelow?_map (p : Program) (ip depth : Nat) :
    Program.openBelow? (p.map f) ip depth = p.openBelow? ip depth := by
  induction ip generalizing depth with
  | zero => rfl
  | succ ip ih =>
      have hget : (p.map f)[ip]? = p[ip]?.map f := Array.getElem?_map
      cases hc : p[ip]? with
      | none =>
          rw [hc, Option.map_none] at hget
          simp only [Program.openBelow?, hc, hget, ih]
      | some c =>
          rw [hc, Option.map_some] at hget
          rcases bracket_cases c with rfl | rfl | hplain
          · rw [hf.opening] at hget
            cases depth with
            | zero => rw [Program.openBelow?_found hget, Program.openBelow?_found hc]
            | succ depth => rw [Program.openBelow?_open hget, Program.openBelow?_open hc, ih]
          · rw [hf.closing] at hget
            rw [Program.openBelow?_close hget, Program.openBelow?_close hc, ih]
          · rw [Program.openBelow?_plain hget (hf.plain c hplain),
              Program.openBelow?_plain hc hplain, ih]

theorem close?_map (p : Program) (ip : Nat) :
    Program.close? (p.map f) ip = p.close? ip := by
  rw [Program.close?, Program.close?, Array.size_map, closeFrom?_map hf]

theorem open?_map (p : Program) (ip : Nat) : Program.open? (p.map f) ip = p.open? ip :=
  openBelow?_map hf p ip 0

end Texts

/-- The relation holds at the start, is kept by corresponding characters for `limit` steps, and
related memories agree on what the rest of a machine can see of them. Its number is that of the
steps taken. -/
structure Memory.Lockstep (f : Char → Char) (size size' limit : Nat)
    (Related : Nat → Memory → Memory → Prop) : Prop where
  initial : ∀ input, Related 0 (.initial input) (.initial input)
  cell : ∀ {k m m'}, Related k m m' → m'.cell = m.cell
  output : ∀ {k m m'}, Related k m m' → m'.output = m.output
  wait : ∀ {k m m'}, Related k m m' → Related (k + 1) m m'
  perform : ∀ {k m m'}, k < limit → Related k m m' → ∀ c,
    (∃ n n', m.perform? size c = some n ∧ m'.perform? size' (f c) = some n' ∧
      Related (k + 1) n n') ∨
    m.perform? size c = none ∧ m'.perform? size' (f c) = none

namespace State

/-- The machines stand at the same place after `k` steps, and their memories are related. -/
structure Follows (Related : Nat → Memory → Memory → Prop) (size size' k : Nat) (s s' : State) :
    Prop where
  ip : s'.ip = s.ip
  sound : s.Sound k
  sound' : s'.Sound k
  tape : s.tape.size = size
  tape' : s'.tape.size = size'
  memory : Related k s.memory s'.memory

/-- Both attempts go through and leave related states, or both fail for one reason. -/
def Agree (Related : State → State → Prop) (s s' : State) (a a' : Attempt) : Prop :=
  (∃ t t' action action', a = (t, .ok action) ∧ a' = (t', .ok action') ∧ Related t t') ∨
    ∃ e, a = s.fail e ∧ a' = s'.fail e

variable {f : Char → Char} {size size' limit k : Nat} {Related : Nat → Memory → Memory → Prop}
  {p : Program} {s s' : State}

theorem follows_initial (hlock : Memory.Lockstep f size size' limit Related)
    (input : List Char) :
    Follows Related size size' 0 (initial size input) (initial size' input) where
  ip := rfl
  sound := sound_initial size input
  sound' := sound_initial size' input
  tape := rfl
  tape' := rfl
  memory := by
    rw [memory_initial, memory_initial]
    exact hlock.initial input

namespace Follows

variable (h : Follows Related size size' k s s')
include h

theorem cell_eq (hlock : Memory.Lockstep f size size' limit Related) : s'.cell = s.cell := by
  rw [← val_memory_cell h.sound, ← val_memory_cell h.sound', hlock.cell h.memory]

theorem jump (hlock : Memory.Lockstep f size size' limit Related) (ip : Nat) :
    Follows Related size size' (k + 1) { s with ip := ip } { s' with ip := ip } where
  ip := rfl
  sound := h.sound.jump ip
  sound' := h.sound'.jump ip
  tape := h.tape
  tape' := h.tape'
  memory := hlock.wait h.memory

theorem leaves {m m' : Memory} {a a' : Attempt} (hmem : Related (k + 1) m m')
    (ha : Leaves a s k m) (ha' : Leaves a' s' k m') :
    Agree (Follows Related size size' (k + 1)) s s' a a' := by
  obtain ⟨t, action, ht, rfl, hip, hsize, hsound⟩ := ha
  obtain ⟨t', action', ht', rfl, hip', hsize', hsound'⟩ := ha'
  refine .inl ⟨t, t', action, action', ht, ht', ?_, hsound, hsound', ?_, ?_, hmem⟩
  · rw [hip, hip', h.ip]
  · rw [hsize, h.tape]
  · rw [hsize', h.tape']

theorem perform (hlock : Memory.Lockstep f size size' limit Related) (hk : k < limit)
    (hword : k < wordMax) (c : Char) :
    Agree (Follows Related size size' (k + 1)) s s' (s.perform c) (s'.perform (f c)) := by
  have hcases := perform_cases h.sound c
  have hcases' := perform_cases h.sound' (f c)
  rw [h.tape] at hcases
  rw [h.tape'] at hcases'
  cases hlock.perform hk h.memory c with
  | inl hdone =>
      obtain ⟨m, m', hm, hm', hmem⟩ := hdone
      rw [hm] at hcases
      rw [hm'] at hcases'
      rcases hcases with ⟨_, ⟨⟩, hleaves⟩ | ⟨⟨⟩, -⟩ | ⟨-, -, hover⟩
      · rcases hcases' with ⟨_, ⟨⟩, hleaves'⟩ | ⟨⟨⟩, -⟩ | ⟨-, -, hover⟩
        · exact h.leaves hmem hleaves hleaves'
        · omega
      · omega
  | inr hnone =>
      rw [hnone.1] at hcases
      rw [hnone.2] at hcases'
      rcases hcases with ⟨_, ⟨⟩, -⟩ | ⟨-, -, hfail⟩ | ⟨-, -, hover⟩
      · rcases hcases' with ⟨_, ⟨⟩, -⟩ | ⟨-, -, hfail'⟩ | ⟨-, -, hover⟩
        · rw [h.ip] at hfail'
          exact .inr ⟨_, hfail, hfail'⟩
        · omega
      · omega

theorem enterOrSkip (hlock : Memory.Lockstep f size size' limit Related)
    (hf : KeepsBrackets f) :
    Agree (Follows Related size size' (k + 1)) s s' (s.enterOrSkip p)
      (s'.enterOrSkip (p.map f)) := by
  rw [State.enterOrSkip, State.enterOrSkip, h.cell_eq hlock, h.ip, close?_map hf]
  by_cases hcell : s.cell = 0
  · rw [if_pos hcell, if_pos hcell]
    cases p.close? s.ip with
    | none => exact .inr ⟨_, rfl, rfl⟩
    | some close => exact .inl ⟨_, _, _, _, rfl, rfl, h.jump hlock (close + 1)⟩
  · rw [if_neg hcell, if_neg hcell]
    refine .inl ⟨_, _, _, _, rfl, rfl, ?_⟩
    rw [h.ip]
    exact h.jump hlock (s.ip + 1)

theorem jumpBack (hlock : Memory.Lockstep f size size' limit Related) (hf : KeepsBrackets f) :
    Agree (Follows Related size size' (k + 1)) s s' (s.jumpBack p)
      (s'.jumpBack (p.map f)) := by
  rw [State.jumpBack, State.jumpBack, h.ip, open?_map hf]
  cases p.open? s.ip with
  | none => exact .inr ⟨_, rfl, rfl⟩
  | some opening => exact .inl ⟨_, _, _, _, rfl, rfl, h.jump hlock opening⟩

theorem step (hlock : Memory.Lockstep f size size' limit Related) (hf : KeepsBrackets f)
    (hk : k < limit) (hword : k < wordMax) :
    Agree (Follows Related size size' (k + 1)) s s' (step p s) (step (p.map f) s') := by
  have hget : (p.map f)[s'.ip]? = p[s.ip]?.map f := by
    rw [h.ip]
    exact Array.getElem?_map
  cases hc : p[s.ip]? with
  | none =>
      rw [hc, Option.map_none] at hget
      exact .inr ⟨_, step_outside hc, step_outside hget⟩
  | some c =>
      rw [hc, Option.map_some] at hget
      rcases bracket_cases c with rfl | rfl | hplain
      · rw [hf.opening] at hget
        rw [step_of_instruction (i := .loopOpen) hc, step_of_instruction (i := .loopOpen) hget]
        exact h.enterOrSkip hlock hf
      · rw [hf.closing] at hget
        rw [step_of_instruction (i := .loopClose) hc, step_of_instruction (i := .loopClose) hget]
        exact h.jumpBack hlock hf
      · rw [step_plain hc hplain, step_plain hget (hf.plain c hplain)]
        exact h.perform hlock hk hword c

end Follows
end State

section Runs

variable {f : Char → Char} {size size' limit n : Nat} {Related : Nat → Memory → Memory → Prop}
  {p : Program} {input : List Char}

theorem after?_follows (hlock : Memory.Lockstep f size size' limit Related)
    (hf : KeepsBrackets f) (hn : n ≤ limit) (hword : n ≤ wordMax) {t : State}
    (h : after? p n (.initial size input) = some t) :
    ∃ t', after? (p.map f) n (.initial size' input) = some t' ∧
      State.Follows Related size size' n t t' := by
  refine after?_induction
    (fun k t => k ≤ limit → k ≤ wordMax →
      ∃ t', after? (p.map f) k (.initial size' input) = some t' ∧
        State.Follows Related size size' k t t')
    (fun _ _ => ⟨_, rfl, State.follows_initial hlock input⟩) ?_ h hn hword
  intro k t u _ hu ih hk hword
  obtain ⟨t', ht', hfollows⟩ := ih (by omega) (by omega)
  cases hfollows.step (p := p) hlock hf hk hword with
  | inl hstep =>
      obtain ⟨v, v', action, action', hv, hv', hfollows'⟩ := hstep
      rw [next?_of_ok hv] at hu
      cases hu
      exact ⟨v', after?_concat ht' (next?_of_ok hv'), hfollows'⟩
  | inr hfail =>
      obtain ⟨e, hfail, -⟩ := hfail
      rw [next?_of_error hfail] at hu
      cases hu

theorem Halts.follows {control : Control} {s s' : State} {r : Except Error Report}
    (h : Halts p control n s r) (hfollows : State.Follows Related size size' n s s')
    (hlock : Memory.Lockstep f size size' limit Related) (hf : KeepsBrackets f)
    (hcut : control.objection? n = none → n < limit ∧ n < wordMax) :
    Halts (p.map f) control n s' r := by
  have hget : (p.map f)[s'.ip]? = p[s.ip]?.map f := by
    rw [hfollows.ip]
    exact Array.getElem?_map
  cases h with
  | finished hout =>
      have houtput : s'.output = s.output := hlock.output hfollows.memory
      have hreport : s'.report n = s.report n := by
        rw [State.report, State.report, houtput]
      rw [← hreport]
      apply Halts.finished
      rw [hget, hout, Option.map_none]
  | stopped hc ho =>
      rw [hc, Option.map_some] at hget
      exact .stopped hget ho
  | failed hc ho hstep =>
      obtain ⟨hlimit, hword⟩ := hcut ho
      cases hfollows.step (p := p) hlock hf hlimit hword with
      | inl hok =>
          obtain ⟨v, v', action, action', hv, -, -⟩ := hok
          rw [hv] at hstep
          cases hstep
      | inr hfail =>
          obtain ⟨e, hfail, hfail'⟩ := hfail
          rw [hfail] at hstep
          cases hstep
          rw [hc, Option.map_some] at hget
          exact .failed hget ho hfail'

/-- Machines in lockstep give one result, if the control ends the run in time. -/
theorem Machine.run_of_lockstep {m m' : Machine} {control : Control} {fuel : Nat}
    {source source' input : String} {r : Except Error Report}
    (hlock : Memory.Lockstep f m.tapeSize m'.tapeSize limit Related) (hf : KeepsBrackets f)
    (hsource : source'.toList = source.toList.map f)
    (hcut : ∀ k, control.objection? k = none → k < limit ∧ k < wordMax)
    (h : m.run control fuel source input = some r) :
    m'.run control fuel source' input = some r := by
  have hbalanced : balanced source'.toList = balanced source.toList := by
    rw [hsource]
    exact balancedFrom_map hf 0 source.toList
  cases hv : balanced source.toList with
  | false =>
      rw [run_of_unbalanced hv] at h
      rw [run_of_unbalanced (hbalanced.trans hv), hsource, ofUnbalanced_map hf]
      exact h
  | true =>
      have hprogram : Program.ofString source' = (Program.ofString source).map f := by
        rw [Program.ofString, Program.ofString, hsource, List.map_toArray]
      obtain ⟨n, t, hn, ht, hallowed, hhalts⟩ := (run_eq_some_iff hv).mp h
      have hreach : n ≤ limit ∧ n ≤ wordMax := by
        cases n with
        | zero => exact ⟨Nat.zero_le _, Nat.zero_le _⟩
        | succ n => exact hcut n (hallowed n (Nat.lt_succ_self n))
      obtain ⟨t', ht', hfollows⟩ := after?_follows hlock hf hreach.1 hreach.2 ht
      rw [run_eq_some_iff (hbalanced.trans hv), hprogram]
      exact ⟨n, t', hn, ht', hallowed, hhalts.follows hfollows hlock hf (hcut n)⟩

theorem Machine.exists_run_budget_of_lockstep {m m' : Machine} {fuel : Nat}
    {source source' input : String} (hlock : Memory.Lockstep f m.tapeSize m'.tapeSize n Related)
    (hf : KeepsBrackets f) (hsource : source'.toList = source.toList.map f) (hn : n ≤ wordMax)
    (hfuel : n < fuel) :
    ∃ r, m'.run (.budget n) fuel source' input = some r ∧
      m.run (.budget n) fuel source input = some r := by
  obtain ⟨r, hr⟩ := @exists_run_budget m source input n fuel hfuel
  refine ⟨r, run_of_lockstep hlock hf hsource ?_ hr, hr⟩
  intro k ho
  have hk := Control.objection?_budget_eq_none.mp ho
  exact ⟨hk, by omega⟩

end Runs
end Brainfuck
