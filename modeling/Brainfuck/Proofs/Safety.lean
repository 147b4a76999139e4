import Brainfuck.Machine.Table
import Brainfuck.Proofs.Steps

/-!
Safety of whole runs. A source that fails the bracket check is refused with the bracket that the
locator blames, before anything is executed. A run of any other source, observed or not and under
any control, never meets an internal error as long as it takes fewer steps than a signed word can
count: its brackets are always found, its place is never outside the program, its head stays on
the tape and within the word, and no cell update is refused. The counters of the run, which the
definitions keep as plain numbers, would fit in words: the place and the counters of a scan never
pass the length of the text.
-/

namespace Brainfuck
namespace Program

/-- The forward scan on counters that hold numbers up to `limit`. It is refused when its place or
the number of loops it has open, the one it looks for included, does not fit, and when it looks
outside the program. -/
def closeFromWithin? (p : Program) (limit : Nat) : (left ip depth : Nat) → Option (Option Nat)
  | 0, ip, depth => if ip ≤ limit ∧ depth + 1 ≤ limit then some none else none
  | left + 1, ip, depth =>
    if ip ≤ limit ∧ depth + 1 ≤ limit then
      match p[ip]? with
      | none => none
      | some c =>
        if c = '[' then
          closeFromWithin? p limit left (ip + 1) (depth + 1)
        else if c = ']' then
          match depth with
          | 0 => some (some ip)
          | depth + 1 => closeFromWithin? p limit left (ip + 1) depth
        else
          closeFromWithin? p limit left (ip + 1) depth
    else
      none

/-- The backward scan on counters that hold numbers up to `limit`, refused likewise. -/
def openBelowWithin? (p : Program) (limit : Nat) : (ip depth : Nat) → Option (Option Nat)
  | 0, depth => if depth + 1 ≤ limit then some none else none
  | ip + 1, depth =>
    if ip + 1 ≤ limit ∧ depth + 1 ≤ limit then
      match p[ip]? with
      | none => none
      | some c =>
        if c = ']' then
          openBelowWithin? p limit ip (depth + 1)
        else if c = '[' then
          match depth with
          | 0 => some (some ip)
          | depth + 1 => openBelowWithin? p limit ip depth
        else
          openBelowWithin? p limit ip depth
    else
      none

theorem closeFromWithin?_eq {p : Program} {limit left ip depth : Nat} (hlimit : p.size ≤ limit)
    (hip : ip + left ≤ p.size) (hdepth : depth + 1 + left ≤ limit) :
    p.closeFromWithin? limit left ip depth = some (p.closeFrom? left ip depth) := by
  induction left generalizing ip depth with
  | zero => rw [closeFromWithin?, if_pos (by omega), closeFrom?]
  | succ left ih =>
      have hc : p[ip]? = some p[ip] := Array.getElem?_eq_getElem (by omega)
      generalize p[ip] = c at hc
      have hfits : ip ≤ limit ∧ depth + 1 ≤ limit := by omega
      rw [closeFromWithin?.eq_def]
      simp only [if_pos hfits, hc]
      rcases bracket_cases c with rfl | rfl | hplain
      · rw [if_pos rfl, closeFrom?_open hc, ih (by omega) (by omega)]
      · rw [if_neg (by decide), if_pos rfl]
        cases depth with
        | zero => rw [closeFrom?_found hc]
        | succ depth => rw [closeFrom?_close hc, ← ih (by omega) (by omega)]
      · rw [if_neg hplain.1, if_neg hplain.2, closeFrom?_plain hc hplain,
          ih (by omega) (by omega)]

theorem openBelowWithin?_eq {p : Program} {limit ip depth : Nat} (hlimit : p.size ≤ limit)
    (hip : ip ≤ p.size) (hdepth : depth + 1 + ip ≤ limit) :
    p.openBelowWithin? limit ip depth = some (p.openBelow? ip depth) := by
  induction ip generalizing depth with
  | zero => rw [openBelowWithin?, if_pos (by omega), openBelow?]
  | succ ip ih =>
      have hc : p[ip]? = some p[ip] := Array.getElem?_eq_getElem (by omega)
      generalize p[ip] = c at hc
      have hfits : ip + 1 ≤ limit ∧ depth + 1 ≤ limit := by omega
      rw [openBelowWithin?.eq_def]
      simp only [if_pos hfits, hc]
      rcases bracket_cases c with rfl | rfl | hplain
      · rw [if_neg (by decide), if_pos rfl]
        cases depth with
        | zero => rw [openBelow?_found hc]
        | succ depth => rw [openBelow?_open hc, ← ih (by omega) (by omega)]
      · rw [if_pos rfl, openBelow?_close hc, ih (by omega) (by omega)]
      · rw [if_neg hplain.2, if_neg hplain.1, openBelow?_plain hc hplain,
          ih (by omega) (by omega)]

end Program

/-- An error that only a broken assumption of the machine itself could cause. -/
def Error.IsInternal : Error → Prop
  | .unbalancedScan _ | .crash _ => True
  | _ => False

/-- Whatever goes wrong in the monitor is a failure to write the step table. -/
structure Monitor.FailsInTable {σ : Type} (monitor : Monitor σ) : Prop where
  started : ∀ w e, (monitor.started w).2 = some e → ∃ reason, e = .table reason
  executed : ∀ w row e, (monitor.executed w row).2 = some e → ∃ reason, e = .table reason

theorem Monitor.failsInTable_silent : Monitor.silent.FailsInTable where
  started _ _ h := by cases h
  executed _ _ _ h := by cases h

theorem Sink.write_error {sink : Sink} {text : String} {e : Error}
    (h : (sink.write text).2 = some e) : e = .table "sink full" := by
  unfold write at h
  split at h
  · cases h
  · dsimp only at h
    split at h
    · cases h
    · exact (Option.some.inj h).symm

theorem Monitor.failsInTable_table : Monitor.table.FailsInTable where
  started _ _ h := ⟨_, Sink.write_error h⟩
  executed _ _ _ h := ⟨_, Sink.write_error h⟩

theorem Control.not_isInternal_of_objection? {control : Control} {steps : Nat} {e : Error}
    (h : control.objection? steps = some e) : ¬ e.IsInternal := by
  unfold objection? at h
  split at h
  · cases h
    exact id
  · split at h
    · split at h
      · cases h
        exact id
      · cases h
    · cases h

theorem not_isInternal_of_halts {p : Program} (hp : balanced p.toList = true) {control : Control}
    {n size : Nat} {input : List Char} {t : State} {e : Error}
    (ht : after? p n (.initial size input) = some t) (hn : n < wordMax)
    (h : Halts p control n t (.error e)) : ¬ e.IsInternal := by
  cases h with
  | stopped _ he => exact Control.not_isInternal_of_objection? he
  | failed hc _ hstep =>
      rcases error_cases_of_balanced hp (sound_after? ht).1 hc hstep with ⟨rfl, -⟩ | ⟨-, -, hword⟩
      · exact id
      · omega

/-- No execution ends with an internal error in as many turns as a signed word counts. -/
theorem Machine.not_isInternal_of_execute {σ : Type} {m : Machine} {control : Control}
    {monitor : Monitor σ} (hmonitor : monitor.FailsInTable) {fuel : Nat} (hfuel : fuel ≤ wordMax)
    {source input : String} {w : σ} {e : Error}
    (h : (m.execute control monitor fuel source input w).result = some (.error e)) :
    ¬ e.IsInternal := by
  cases hv : balanced source.toList with
  | false =>
      obtain ⟨blamed, hblamed⟩ := exists_unmatched? hv
      rw [execute_of_unbalanced hv, Error.ofUnbalanced, hblamed] at h
      cases h
      exact id
  | true =>
      rcases execute_error_cases hv h with hstart | ⟨w, row, hexec⟩ | ⟨n, hn, t, ht, hhalts⟩
      · obtain ⟨reason, rfl⟩ := hmonitor.started _ _ hstart
        exact id
      · obtain ⟨reason, rfl⟩ := hmonitor.executed _ _ _ hexec
        exact id
      · exact not_isInternal_of_halts hv ht (by omega) hhalts

/-- What the next step of a run needs so that it leaves no range: the head can move either way,
it is on the tape, its cell can be counted either way, there is a next place, and a scan from
here fits in counters that hold the length of the program. -/
structure State.Safe (p : Program) (s : State) : Prop where
  right : fitsWord (s.head + 1) = true
  left : fitsWord (s.head - 1) = true
  normal : s.tape.wrap s.head = s.head
  up : fitsWord (s.cell + 1) = true
  down : fitsWord (s.cell - 1) = true
  next : s.ip + 1 ≤ p.size
  close : p.closeFromWithin? p.size (p.size - (s.ip + 1)) (s.ip + 1) 0 = some (p.close? s.ip)
  opening : p.openBelowWithin? p.size s.ip 0 = some (p.open? s.ip)

theorem safe_of_sound {p : Program} {s : State} {n : Nat} (hs : s.Sound n) (hn : n < wordMax)
    (hin : s.ip < p.size) : s.Safe p where
  right := hs.fits_move (.inl rfl) (fun _ => hn)
  left := hs.fits_move (.inr rfl) (fun _ => hn)
  normal := hs.normal
  up := by
    have hcell : s.cell < cellModulus := hs.small s.head
    rw [fitsWord_iff, wordMax]
    rw [cellModulus] at hcell
    omega
  down := by
    have hcell : s.cell < cellModulus := hs.small s.head
    rw [fitsWord_iff, wordMax]
    rw [cellModulus] at hcell
    omega
  next := hin
  close := Program.closeFromWithin?_eq (Nat.le_refl _) (by omega) (by omega)
  opening := Program.openBelowWithin?_eq (Nat.le_refl _) (by omega) (by omega)

/-- Every execution is safe. A balanced source is executed without internal errors for as many
turns as a signed word counts, and before each of its steps nothing is about to leave its range.
Any other source is refused, at once and unobserved, with the bracket that the locator blames. -/
theorem execute_safe {σ : Type} (machine : Machine) (control : Control) (monitor : Monitor σ)
    (hmonitor : monitor.FailsInTable) (source input : String) (watched : σ) :
    (balanced source.toList = true →
      (∀ fuel ≤ wordMax, ∀ e,
        (machine.execute control monitor fuel source input watched).result = some (.error e) →
          ¬ e.IsInternal) ∧
      ∀ n t, after? (.ofString source) n (.initial machine.tapeSize input.toList) = some t →
        t.ip ≤ source.toList.length ∧
          (n < wordMax → t.ip < source.toList.length → t.Safe (.ofString source))) ∧
    (balanced source.toList = false →
      ∃ blamed, unmatched? source.toList = some blamed ∧
        ∀ fuel, machine.execute control monitor fuel source input watched =
          ⟨watched, some (.error (.unmatched blamed))⟩) := by
  refine ⟨fun hv => ⟨?_, ?_⟩, fun hv => ?_⟩
  · intro fuel hfuel e h
    exact Machine.not_isInternal_of_execute hmonitor hfuel h
  · intro n t ht
    rw [← Program.size_ofString]
    exact ⟨ip_le_after? hv ht, safe_of_sound (sound_after? ht).1⟩
  · obtain ⟨blamed, hblamed⟩ := exists_unmatched? hv
    refine ⟨blamed, hblamed, ?_⟩
    intro fuel
    rw [Machine.execute, if_neg (by simp [hv]), Error.ofUnbalanced, hblamed]

/-- The largest tape, entered from its far end under a step table, and a bracket too many. -/
theorem execute_safe_largest_tape :
    balanced "<+[>,]".toList = true ∧ balanced "[]]".toList = false ∧
      (∃ t, after? (.ofString "<+[>,]") 4 (.initial (18446744073709551615) []) = some t ∧
        t.Safe (.ofString "<+[>,]")) ∧
      ¬ (Error.inputExhausted 4).IsInternal ∧
      (Machine.execute ⟨18446744073709551615, 0⟩ .free .table 9 "[]]" "" (.empty none)).result =
        some (.error (.unmatched ⟨2, .closing⟩)) := by
  have hsafe := execute_safe ⟨18446744073709551615, 0⟩ .free .table Monitor.failsInTable_table
  refine ⟨by decide, by decide, ?_, ?_, ?_⟩
  · obtain ⟨-, hrun⟩ := (hsafe "<+[>,]" "" (.empty none)).1 (by decide)
    obtain ⟨t, ht, hip⟩ : ∃ t,
        after? (.ofString "<+[>,]") 4 (.initial (18446744073709551615) []) = some t ∧ t.ip = 4 :=
      ⟨_, rfl, rfl⟩
    exact ⟨t, ht, (hrun 4 t ht).2 (by decide) (by rw [hip]; decide)⟩
  · apply ((hsafe "<+[>,]" "" (.empty none)).1 (by decide)).1 9 (by decide)
    rfl
  · obtain ⟨blamed, hblamed, hrefused⟩ := (hsafe "[]]" "" (.empty none)).2 (by decide)
    cases hblamed
    rw [hrefused]

end Brainfuck
