import Brainfuck.Proofs.Representation

/-!
Actions as records of their steps. An action says what its step did and nothing else happened, so
the next state is the old one with the action replayed on it; a step that fails leaves its state as
it was. Nothing is assumed of the program, whose brackets may be unmatched.

Main statement: every step from a state that steps have led to is recorded by its action, and a
whole run is the replay of its actions: what they wrote is the output, and what they took, followed
by what is pending, is the input.
-/

namespace Brainfuck

namespace Action

/-- What the action tells of the state in which the character was executed: the value before and
after a change, the value that was written, the character that was taken. -/
def Tells (c : Char) (s : State) : Action → Prop
  | changed before after =>
      before = s.cell ∧
        (c = '+' ∧ (after : Int) = ((before : Int) + 1) % 0x110000 ∨
          c = '-' ∧ (after : Int) = ((before : Int) - 1) % 0x110000)
  | wrote codePoint => codePoint = s.cell
  | took codePoint => ∃ first, s.pending.head? = some first ∧ codePoint = first.toNat
  | _ => True

/-- The value that the action leaves under the head, if it stores one. -/
def stored? : Action → Option Nat
  | changed _ after => some after
  | took codePoint => some codePoint
  | _ => none

def wrote? : Action → Option Nat
  | wrote codePoint => some codePoint
  | _ => none

def took? : Action → Option Nat
  | took codePoint => some codePoint
  | _ => none

end Action

namespace State

/-- The state changed as an action says. -/
def replay (s : State) : Action → State
  | .moved head => { s with head := head, ip := s.ip + 1 }
  | .changed _ after => { s with tape := s.tape.put s.head after, ip := s.ip + 1 }
  | .wrote codePoint => { s with written := codePoint :: s.written, ip := s.ip + 1 }
  | .took codePoint =>
    { s with tape := s.tape.put s.head codePoint, pending := s.pending.tail, ip := s.ip + 1 }
  | .skippedLoop close => { s with ip := close + 1 }
  | .enteredLoop | .ignored => { s with ip := s.ip + 1 }
  | .jumpedBack opening => { s with ip := opening }

theorem output_replay (s : State) (action : Action) :
    (s.replay action).output = s.output ++ action.wrote?.toList := by
  cases action with
  | wrote codePoint => exact List.reverse_cons
  | _ => exact (List.append_nil _).symm

/-- Only the cell under the head is ever stored to. -/
theorem get_replay (s : State) (action : Action) (q : Int) :
    (s.replay action).tape.get q =
      if q = s.head then action.stored?.getD s.cell else s.tape.get q := by
  have hsame : s.tape.get q = if q = s.head then s.cell else s.tape.get q := by
    split
    · next hq => rw [hq, cell]
    · rfl
  cases action with
  | changed before after => exact s.tape.get_put s.head q after
  | took codePoint => exact s.tape.get_put s.head q codePoint
  | _ => exact hsame

theorem pending_replay {s : State} {c : Char} {action : Action} (h : action.Tells c s) :
    s.pending.map Char.toNat =
      action.took?.toList ++ (s.replay action).pending.map Char.toNat := by
  cases action with
  | took codePoint =>
      obtain ⟨first, hfirst, rfl⟩ := h
      obtain ⟨rest, hrest⟩ := List.head?_eq_some_iff.mp hfirst
      rw [replay, hrest]
      rfl
  | _ => rfl

end State

/-- The action is the record of a step from `s` to `t` at the character `c`: what it tells of `s` is
so, and `t` is `s` changed as the action says. -/
structure Action.Records (action : Action) (c : Char) (s t : State) : Prop where
  tells : action.Tells c s
  replayed : t = s.replay action
  cells : ∀ q, t.tape.get q = if q = s.head then action.stored?.getD s.cell else s.tape.get q
  output : t.output = s.output ++ action.wrote?.toList

theorem Action.records_of_replay {action : Action} {c : Char} {s t : State}
    (htells : action.Tells c s) (ht : t = s.replay action) : action.Records c s t := by
  subst ht
  exact ⟨htells, rfl, s.get_replay action, s.output_replay action⟩

section Step

variable {p : Program} {s t : State} {action : Action} {c : Char} {k : Nat}

theorem records_change (hs : s.Sound k) {delta : Int} {tape : Tape} {after : Nat}
    (hchange : c = '+' ∧ delta = 1 ∨ c = '-' ∧ delta = -1)
    (hadd : s.tape.add? s.head delta = some (tape, after)) :
    Action.Records (.changed s.cell after) c s { s with tape := tape, ip := s.ip + 1 } := by
  have hdelta : delta = 1 ∨ delta = -1 := hchange.imp And.right And.right
  rw [Tape.add?_eq_some hs.normal (hs.small s.head) hdelta] at hadd
  cases hadd
  refine Action.records_of_replay ⟨rfl, ?_⟩ rfl
  rw [State.cell, cellModulus]
  cases hchange with
  | inl hup =>
      obtain ⟨rfl, rfl⟩ := hup
      exact .inl ⟨rfl, by omega⟩
  | inr hdown =>
      obtain ⟨rfl, rfl⟩ := hdown
      exact .inr ⟨rfl, by omega⟩

theorem Executes.records (hs : s.Sound k) (hc : p[s.ip]? = some c) (h : Executes p s action t) :
    action.Records c s t := by
  cases h with
  | change hc' hchange hadd =>
      rw [hc] at hc'
      cases hc'
      exact records_change hs hchange hadd
  | @read first rest tape _ hp hset =>
      have hfirst := toNat_lt_cellModulus first
      have hval : ((first.toNat : Int) % cellModulus).toNat = first.toNat := by
        rw [cellModulus] at *
        omega
      rw [Tape.set?_eq_some hs.normal, hval] at hset
      cases hset
      refine Action.records_of_replay ⟨first, by rw [hp]; rfl, rfl⟩ ?_
      rw [State.replay, hp]
      rfl
  | write _ => exact Action.records_of_replay rfl rfl
  | _ => exact Action.records_of_replay trivial rfl

/-- Far from the ends of the signed word a step inside the program fails for want of input or of
the other bracket, and its state stays as it was. -/
theorem unchanged_of_error (hs : s.Sound k) (hk : k < wordMax) (hc : p[s.ip]? = some c) {e : Error}
    (h : step p s = (t, .error e)) :
    t = s ∧ (e = .inputExhausted s.ip ∨ e = .unbalancedScan s.ip) := by
  cases bracket_cases c with
  | inl hopen =>
      subst hopen
      rw [step_of_instruction (i := .loopOpen) hc] at h
      simp only [State.enterOrSkip] at h
      split at h
      · split at h
        · cases h
        · cases h
          exact ⟨rfl, .inr rfl⟩
      · cases h
  | inr hrest =>
      cases hrest with
      | inl hclose =>
          subst hclose
          rw [step_of_instruction (i := .loopClose) hc] at h
          simp only [State.jumpBack] at h
          split at h
          · cases h
          · cases h
            exact ⟨rfl, .inr rfl⟩
      | inr hplain =>
          rw [step_plain hc hplain] at h
          cases s.perform_cases hs c with
          | inl hok =>
              obtain ⟨m, -, u, action', hok, -⟩ := hok
              rw [hok] at h
              cases h
          | inr hstuck =>
              cases hstuck with
              | inl hstarved =>
                  rw [hstarved.2.2] at h
                  cases h
                  exact ⟨rfl, .inl rfl⟩
              -- The head leaves the word only after more steps than were taken.
              | inr hfar =>
                  exact absurd hfar.2.2 (Nat.not_le_of_lt hk)

end Step

/-- The actions of the first `n` steps, up to one that fails. -/
def actionsFrom (p : Program) (n : Nat) (s : State) : List Action :=
  (rowsFrom p n 0 s).map Row.action

theorem actionsFrom_concat {p : Program} {n : Nat} {s t u : State} {action : Action}
    (h : after? p n s = some t) (hstep : step p t = (u, .ok action)) :
    actionsFrom p (n + 1) s = actionsFrom p n s ++ [action] := by
  obtain ⟨c, hc⟩ := exists_char_of_next? (next?_of_ok hstep)
  rw [actionsFrom, rowsFrom_concat h hc hstep, List.map_append]
  rfl

/-- A run from `s` to `t` is the replay of its actions. -/
structure Replays (actions : List Action) (s t : State) : Prop where
  replayed : t = actions.foldl State.replay s
  output : t.output = s.output ++ actions.filterMap Action.wrote?
  pending : s.pending.map Char.toNat =
    actions.filterMap Action.took? ++ t.pending.map Char.toNat

theorem Replays.concat {actions : List Action} {s t u : State} (h : Replays actions s t)
    {action : Action} {c : Char} (hrecords : action.Records c t u) :
    Replays (actions ++ [action]) s u where
  replayed := by
    rw [List.foldl_append, ← h.replayed]
    exact hrecords.replayed
  output := by
    rw [hrecords.output, h.output, List.filterMap_append, List.append_assoc]
    cases action <;> rfl
  pending := by
    rw [h.pending, State.pending_replay hrecords.tells, ← hrecords.replayed, List.filterMap_append,
      List.append_assoc]
    cases action <;> rfl

theorem replays_after? {p : Program} {n size : Nat} {input : List Char} {t : State}
    (h : after? p n (.initial size input) = some t) :
    Replays (actionsFrom p n (.initial size input)) (.initial size input) t := by
  have hnone : Replays [] (.initial size input) (.initial size input) := ⟨rfl, rfl, rfl⟩
  refine after?_induction
    (fun n t => Replays (actionsFrom p n (.initial size input)) (.initial size input) t) hnone ?_ h
  intro k t u ht hu ih
  obtain ⟨c, hc⟩ := exists_char_of_next? hu
  obtain ⟨action, hstep⟩ := next?_eq_some_iff.mp hu
  rw [actionsFrom_concat ht hstep]
  exact ih.concat ((executes_of_step hstep).records (sound_after? ht).1 hc)

/-- Actions are faithful records. From every state that successful steps have led to, a step that
succeeds leaves that state changed as its action says and not otherwise, and a step that fails
leaves it unchanged. So the state is the replay of all actions so far: the output is what they
wrote, in order, and the input is what they took, followed by what is pending. -/
theorem actions_record_steps (p : Program) (size : Nat) (input : List Char) (n : Nat) (s : State)
    (hreached : after? p n (.initial size input) = some s) :
    (n < wordMax → ∀ c, p[s.ip]? = some c →
      (∀ t action, step p s = (t, .ok action) → action.Records c s t) ∧
      (∀ t e, step p s = (t, .error e) →
        t = s ∧ (e = .inputExhausted s.ip ∨ e = .unbalancedScan s.ip))) ∧
    s = (actionsFrom p n (.initial size input)).foldl State.replay (.initial size input) ∧
    s.output = (actionsFrom p n (.initial size input)).filterMap Action.wrote? ∧
    input.map Char.toNat =
      (actionsFrom p n (.initial size input)).filterMap Action.took? ++
        s.pending.map Char.toNat := by
  have hsound := (sound_after? hreached).1
  have hreplays := replays_after? hreached
  refine ⟨?_, hreplays.replayed, hreplays.output, hreplays.pending⟩
  intro hn c hc
  constructor
  · intro t action hstep
    exact (executes_of_step hstep).records hsound hc
  · intro t e hstep
    exact unchanged_of_error hsound hn hc hstep

/-- A read on a circle of three cells, left of the first one, then a decrement of what was read: the
rest of the input stays pending. The bracket at the end closes nothing, and the step there fails. -/
theorem actions_record_steps_stray_close :
    ∃ s t u, after? (.ofString "<,-.]") 2 (.initial 3 "ba".toList) = some s ∧
      after? (.ofString "<,-.]") 4 (.initial 3 "ba".toList) = some u ∧
      step (.ofString "<,-.]") s = (t, .ok (.changed 98 97)) ∧
      Action.Records (.changed 98 97) '-' s t ∧
      step (.ofString "<,-.]") u = (u, .error (.unbalancedScan 4)) ∧
      u.output = [97] ∧ "ba".toList.map Char.toNat = [98] ++ u.pending.map Char.toNat := by
  refine ⟨_, _, _, rfl, rfl, rfl, ?_, rfl, ?_, ?_⟩
  · exact ((actions_record_steps (.ofString "<,-.]") 3 "ba".toList 2 _ rfl).1 (by decide) '-' rfl).1
      _ _ rfl
  · exact (actions_record_steps (.ofString "<,-.]") 3 "ba".toList 4 _ rfl).2.2.1
  · exact (actions_record_steps (.ofString "<,-.]") 3 "ba".toList 4 _ rfl).2.2.2

end Brainfuck
