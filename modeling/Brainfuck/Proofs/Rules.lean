import Brainfuck.Proofs.Memory
import Brainfuck.Proofs.Runs

/-!
The steps that succeed, as one rule for each thing a step can do. A rule says which character
stands at the place, what it asks of the state, and which state it leaves. Nothing is assumed of
the program, whose brackets may be unmatched, nor of the state.

Main statement: the rules are exactly the successful steps.
-/

namespace Brainfuck

/-- The state, with the action taken, that a successful step from `s` leads to. -/
inductive Executes (p : Program) (s : State) : Action → State → Prop where
  | move {c : Char} {delta : Int} : p[s.ip]? = some c →
      (c = '>' ∧ delta = 1 ∨ c = '<' ∧ delta = -1) → fitsWord (s.head + delta) = true →
      Executes p s (.moved (s.tape.wrap (s.head + delta)))
        { s with head := s.tape.wrap (s.head + delta), ip := s.ip + 1 }
  | change {c : Char} {delta : Int} {tape : Tape} {after : Nat} : p[s.ip]? = some c →
      (c = '+' ∧ delta = 1 ∨ c = '-' ∧ delta = -1) → s.tape.add? s.head delta = some (tape, after) →
      Executes p s (.changed s.cell after) { s with tape := tape, ip := s.ip + 1 }
  | write : p[s.ip]? = some '.' →
      Executes p s (.wrote s.cell) { s with written := s.cell :: s.written, ip := s.ip + 1 }
  | read {c : Char} {rest : List Char} {tape : Tape} : p[s.ip]? = some ',' →
      s.pending = c :: rest → s.tape.set? s.head c.toNat = some tape →
      Executes p s (.took c.toNat) { s with tape := tape, pending := rest, ip := s.ip + 1 }
  | skip {close : Nat} : p[s.ip]? = some '[' → s.cell = 0 → p.close? s.ip = some close →
      Executes p s (.skippedLoop close) { s with ip := close + 1 }
  | enter : p[s.ip]? = some '[' → s.cell ≠ 0 →
      Executes p s .enteredLoop { s with ip := s.ip + 1 }
  | back {opening : Nat} : p[s.ip]? = some ']' → p.open? s.ip = some opening →
      Executes p s (.jumpedBack opening) { s with ip := opening }
  | ignore {c : Char} : p[s.ip]? = some c → isInstruction c = false →
      Executes p s .ignored { s with ip := s.ip + 1 }

theorem step_of_instruction {p : Program} {s : State} {i : Instruction}
    (hc : p[s.ip]? = some i.char) :
    step p s =
      match i with
      | .right => s.moveBy 1
      | .left => s.moveBy (-1)
      | .increment => s.changeBy 1
      | .decrement => s.changeBy (-1)
      | .write => s.writeCell
      | .read => s.readCell
      | .loopOpen => s.enterOrSkip p
      | .loopClose => s.jumpBack p := by
  have hi : Instruction.ofChar? i.char = some i := Instruction.ofChar?_eq_some_iff.mpr rfl
  simp only [step, hc, hi]
  cases i <;> rfl

theorem State.moveBy_eq_ok_iff {s t : State} {delta : Int} {action : Action} :
    s.moveBy delta = (t, .ok action) ↔
      fitsWord (s.head + delta) = true ∧
        { s with head := s.tape.wrap (s.head + delta), ip := s.ip + 1 } = t ∧
        .moved (s.tape.wrap (s.head + delta)) = action := by
  by_cases hfits : fitsWord (s.head + delta) = true
  · simp [moveBy, hfits, advance]
  · simp [moveBy, hfits, fail]

theorem State.changeBy_eq_ok_iff {s t : State} {delta : Int} {action : Action} :
    s.changeBy delta = (t, .ok action) ↔
      ∃ tape after, s.tape.add? s.head delta = some (tape, after) ∧
        { s with tape := tape, ip := s.ip + 1 } = t ∧ .changed s.cell after = action := by
  cases hadd : s.tape.add? s.head delta with
  | none => simp [changeBy, hadd, fail]
  | some added =>
      obtain ⟨tape, after⟩ := added
      simp only [changeBy, hadd, advance, Prod.mk.injEq, Except.ok.injEq]
      constructor
      · intro h
        exact ⟨tape, after, rfl, h⟩
      · rintro ⟨_, _, ⟨⟩, h⟩
        exact h

theorem State.readCell_eq_ok_iff {s t : State} {action : Action} :
    s.readCell = (t, .ok action) ↔
      ∃ c rest tape, s.pending = c :: rest ∧ s.tape.set? s.head c.toNat = some tape ∧
        { s with tape := tape, pending := rest, ip := s.ip + 1 } = t ∧ .took c.toNat = action := by
  cases hp : s.pending with
  | nil => simp [readCell, hp, fail]
  | cons c rest =>
      cases hset : s.tape.set? s.head c.toNat with
      | none => simp [readCell, hp, hset, fail]
      | some tape =>
          constructor
          · intro h
            simp only [readCell, hp, hset, advance, Prod.mk.injEq, Except.ok.injEq] at h
            exact ⟨c, rest, tape, rfl, hset, h⟩
          · rintro ⟨d, rest', tape', ⟨⟩, hset', rfl, rfl⟩
            simp only [readCell, hp, hset', advance]

theorem State.enterOrSkip_eq_ok_iff {p : Program} {s t : State} {action : Action} :
    s.enterOrSkip p = (t, .ok action) ↔
      (s.cell = 0 ∧ ∃ close, p.close? s.ip = some close ∧ { s with ip := close + 1 } = t ∧
        .skippedLoop close = action) ∨
      (s.cell ≠ 0 ∧ { s with ip := s.ip + 1 } = t ∧ .enteredLoop = action) := by
  by_cases hcell : s.cell = 0
  · cases hclose : p.close? s.ip with
    | none => simp [enterOrSkip, hcell, hclose, fail]
    | some close => simp [enterOrSkip, hcell, hclose]
  · simp [enterOrSkip, hcell, advance]

theorem State.jumpBack_eq_ok_iff {p : Program} {s t : State} {action : Action} :
    s.jumpBack p = (t, .ok action) ↔
      ∃ opening, p.open? s.ip = some opening ∧ { s with ip := opening } = t ∧
        .jumpedBack opening = action := by
  cases hopen : p.open? s.ip with
  | none => simp [jumpBack, hopen, fail]
  | some opening => simp [jumpBack, hopen]

theorem executes_of_step {p : Program} {s t : State} {action : Action}
    (h : step p s = (t, .ok action)) : Executes p s action t := by
  obtain ⟨c, hc⟩ := exists_char_of_next? (next?_of_ok h)
  cases hi : Instruction.ofChar? c with
  | none =>
      simp only [step, hc, hi] at h
      cases h
      exact .ignore hc (by simp [isInstruction, hi])
  | some i =>
      obtain rfl := Instruction.ofChar?_eq_some_iff.mp hi
      rw [step_of_instruction hc] at h
      cases i with
      | right =>
          obtain ⟨hfits, rfl, rfl⟩ := State.moveBy_eq_ok_iff.mp h
          exact .move hc (.inl ⟨rfl, rfl⟩) hfits
      | left =>
          obtain ⟨hfits, rfl, rfl⟩ := State.moveBy_eq_ok_iff.mp h
          exact .move hc (.inr ⟨rfl, rfl⟩) hfits
      | increment =>
          obtain ⟨tape, after, hadd, rfl, rfl⟩ := State.changeBy_eq_ok_iff.mp h
          exact .change hc (.inl ⟨rfl, rfl⟩) hadd
      | decrement =>
          obtain ⟨tape, after, hadd, rfl, rfl⟩ := State.changeBy_eq_ok_iff.mp h
          exact .change hc (.inr ⟨rfl, rfl⟩) hadd
      | write =>
          cases h
          exact .write hc
      | read =>
          obtain ⟨d, rest, tape, hp, hset, rfl, rfl⟩ := State.readCell_eq_ok_iff.mp h
          exact .read hc hp hset
      | loopOpen =>
          cases State.enterOrSkip_eq_ok_iff.mp h with
          | inl hskip =>
              obtain ⟨hcell, close, hclose, rfl, rfl⟩ := hskip
              exact .skip hc hcell hclose
          | inr henter =>
              obtain ⟨hcell, rfl, rfl⟩ := henter
              exact .enter hc hcell
      | loopClose =>
          obtain ⟨opening, hopen, rfl, rfl⟩ := State.jumpBack_eq_ok_iff.mp h
          exact .back hc hopen

theorem step_of_executes {p : Program} {s t : State} {action : Action}
    (h : Executes p s action t) : step p s = (t, .ok action) := by
  cases h with
  | move hc hmove hfits =>
      cases hmove with
      | inl hright =>
          obtain ⟨rfl, rfl⟩ := hright
          rw [step_of_instruction (i := .right) hc]
          exact State.moveBy_eq_ok_iff.mpr ⟨hfits, rfl, rfl⟩
      | inr hleft =>
          obtain ⟨rfl, rfl⟩ := hleft
          rw [step_of_instruction (i := .left) hc]
          exact State.moveBy_eq_ok_iff.mpr ⟨hfits, rfl, rfl⟩
  | change hc hchange hadd =>
      cases hchange with
      | inl hup =>
          obtain ⟨rfl, rfl⟩ := hup
          rw [step_of_instruction (i := .increment) hc]
          exact State.changeBy_eq_ok_iff.mpr ⟨_, _, hadd, rfl, rfl⟩
      | inr hdown =>
          obtain ⟨rfl, rfl⟩ := hdown
          rw [step_of_instruction (i := .decrement) hc]
          exact State.changeBy_eq_ok_iff.mpr ⟨_, _, hadd, rfl, rfl⟩
  | write hc =>
      rw [step_of_instruction (i := .write) hc]
      rfl
  | read hc hp hset =>
      rw [step_of_instruction (i := .read) hc]
      exact State.readCell_eq_ok_iff.mpr ⟨_, _, _, hp, hset, rfl, rfl⟩
  | skip hc hcell hclose =>
      rw [step_of_instruction (i := .loopOpen) hc]
      exact State.enterOrSkip_eq_ok_iff.mpr (.inl ⟨hcell, _, hclose, rfl, rfl⟩)
  | enter hc hcell =>
      rw [step_of_instruction (i := .loopOpen) hc]
      exact State.enterOrSkip_eq_ok_iff.mpr (.inr ⟨hcell, rfl, rfl⟩)
  | back hc hopen =>
      rw [step_of_instruction (i := .loopClose) hc]
      exact State.jumpBack_eq_ok_iff.mpr ⟨_, hopen, rfl, rfl⟩
  | @ignore c hc hi =>
      have hnone : Instruction.ofChar? c = none := by simpa [isInstruction] using hi
      simp only [step, hc, hnone]
      rfl

theorem step_eq_ok_iff {p : Program} {s t : State} {action : Action} :
    step p s = (t, .ok action) ↔ Executes p s action t :=
  ⟨executes_of_step, step_of_executes⟩

theorem next?_eq_some_iff_executes {p : Program} {s t : State} :
    next? p s = some t ↔ ∃ action, Executes p s action t := by
  simp only [next?_eq_some_iff, step_eq_ok_iff]

end Brainfuck
