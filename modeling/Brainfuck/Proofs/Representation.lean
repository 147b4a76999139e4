import Brainfuck.Proofs.Rows
import Brainfuck.Proofs.Rules
import Brainfuck.Proofs.Steps
import Mathlib.Data.List.Forall2

/-!
What holds of the representation of a run at every moment, whether the brackets of its program are
matched or not: the place is in the program or at its end, the head is on the tape, the tape
stores cell values only, no zeros, at its own positions, and not more of them than instructions
have written to it, the pending input is what is left of the input, and the output consists of
code points.

Main statement: every state that steps lead to is represented so, and so the text of a report
shows its code points one by one.
-/

namespace Brainfuck

/-- Every stored cell holds a value other than zero, at a position of the tape. -/
def Tape.Tidy (t : Tape) : Prop :=
  ∀ q v, t.cells[q]? = some v → 1 ≤ v ∧ v < cellModulus ∧ t.wrap q = q

namespace Tape

theorem tidy_blank (size : Nat) : (blank size).Tidy := by
  intro q v h
  simp [blank] at h

theorem Tidy.put {t : Tape} (h : t.Tidy) {position : Int} (hp : t.wrap position = position)
    {value : Nat} (hv : value < cellModulus) : (t.put position value).Tidy := by
  intro q v hq
  by_cases hzero : value = 0
  · simp only [Tape.put, hzero, if_true, Std.ExtTreeMap.getElem?_erase] at hq
    split at hq
    · cases hq
    · exact h q v hq
  · simp only [Tape.put, hzero, if_false, Std.ExtTreeMap.getElem?_insert] at hq
    split at hq
    · next heq =>
        cases hq
        rw [← Std.LawfulEqCmp.eq_of_compare heq]
        exact ⟨by omega, hv, hp⟩
    · exact h q v hq

theorem stored_of_tidy {t : Tape} (h : t.Tidy) (q : Int) :
    t.cells[q]? = if t.get q = 0 then none else some (t.get q) := by
  rw [get, Std.ExtTreeMap.getD_eq_getD_getElem?]
  cases hq : t.cells[q]? with
  | none => rfl
  | some v =>
      have hv : v ≠ 0 := Nat.ne_of_gt (h q v hq).1
      rw [Option.getD_some, if_neg hv]

theorem materialized_put_le (t : Tape) (position : Int) (value : Nat) :
    (t.put position value).materialized ≤ t.materialized + 1 := by
  rw [materialized, put]
  split
  · exact Nat.le_succ_of_le Std.ExtTreeMap.size_erase_le
  · exact Std.ExtTreeMap.size_insert_le

/-- An update is a cell value stored at a position of the tape. -/
def Stores (t : Tape) (position : Int) (t' : Tape) : Prop :=
  t.wrap position = position ∧ ∃ value < cellModulus, t' = t.put position value

theorem stores_of_set? {t t' : Tape} {position value : Int}
    (h : t.set? position value = some t') : t.Stores position t' := by
  rw [set?] at h
  split at h
  · next hp =>
      cases h
      refine ⟨hp, _, ?_, rfl⟩
      have hbound := bound_of_pos (show 0 < cellModulus by decide) value
      rw [show min cellModulus wordMax = cellModulus by decide] at hbound
      omega
  · cases h

theorem stores_of_add? {t t' : Tape} {position delta : Int} {value : Nat}
    (h : t.add? position delta = some (t', value)) :
    t.Stores position t' ∧ value = t'.get position := by
  rw [add?] at h
  split at h
  · obtain ⟨tape, hset, htape⟩ := Option.map_eq_some_iff.mp h
    cases htape
    exact ⟨stores_of_set? hset, rfl⟩
  · cases h

end Tape

/-- A character whose instruction writes to the tape. -/
def storesCell (c : Char) : Bool :=
  c == '+' || c == '-' || c == ','

section Executes

variable {p : Program} {s t : State} {action : Action}

theorem Executes.ip_le (h : Executes p s action t) : t.ip ≤ p.size := by
  cases h with
  | move hc _ _ => exact Program.lt_size_of_getElem? hc
  | change hc _ _ => exact Program.lt_size_of_getElem? hc
  | write hc => exact Program.lt_size_of_getElem? hc
  | read hc _ _ => exact Program.lt_size_of_getElem? hc
  | skip _ _ hclose => exact Program.close?_lt_size hclose
  | enter hc _ => exact Program.lt_size_of_getElem? hc
  | back hc hopen =>
      exact Nat.le_of_lt (Nat.lt_trans (Program.open?_lt hopen) (Program.lt_size_of_getElem? hc))
  | ignore hc _ => exact Program.lt_size_of_getElem? hc

theorem Executes.tape_cases (h : Executes p s action t) :
    t.tape = s.tape ∨
      s.tape.Stores s.head t.tape ∧ ∃ c, p[s.ip]? = some c ∧ storesCell c = true := by
  cases h with
  | move _ _ _ => exact .inl rfl
  | change hc hchange hadd =>
      refine .inr ⟨(Tape.stores_of_add? hadd).1, _, hc, ?_⟩
      rcases hchange with ⟨rfl, -⟩ | ⟨rfl, -⟩
      all_goals rfl
  | write _ => exact .inl rfl
  | read hc _ hset => exact .inr ⟨Tape.stores_of_set? hset, _, hc, rfl⟩
  | skip _ _ _ => exact .inl rfl
  | enter _ _ => exact .inl rfl
  | back _ _ => exact .inl rfl
  | ignore _ _ => exact .inl rfl

theorem Executes.pending_suffix (h : Executes p s action t) : t.pending <:+ s.pending := by
  cases h with
  | read _ hp _ =>
      rw [hp]
      exact List.suffix_cons _ _
  | _ => exact List.suffix_rfl

theorem Executes.output_cases (h : Executes p s action t) :
    t.output = s.output ∨ t.output = s.output ++ [s.cell] := by
  cases h with
  | write _ => exact .inr (List.reverse_cons)
  | _ => exact .inl rfl

end Executes

/-- What holds of a state after `n` steps of a program on an input and a tape of that size. -/
structure State.Represents (p : Program) (size : Nat) (input : List Char) (n : Nat) (s : State) :
    Prop where
  place : s.ip ≤ p.size
  normal : s.head = s.tape.wrap s.head
  bounded : 0 < size → 0 ≤ s.head ∧ s.head < size
  near : size = 0 → s.head.natAbs ≤ n
  stored : ∀ q v, s.tape.cells[q]? = some v → 1 ≤ v ∧ v ≤ 0x10FFFF ∧ q = s.tape.wrap q
  few : s.tape.materialized ≤
    (rowsFrom p n 0 (.initial size input)).countP fun row => storesCell row.char
  pending : s.pending <:+ input
  output : ∀ codePoint ∈ s.output, codePoint < 0x110000

section Reached

variable {p : Program} {size n : Nat} {input : List Char} {t : State}

theorem place_after? (h : after? p n (.initial size input) = some t) : t.ip ≤ p.size := by
  refine after?_induction (fun _ t => t.ip ≤ p.size) (Nat.zero_le _) ?_ h
  intro k t u _ hu _
  obtain ⟨action, hexec⟩ := next?_eq_some_iff_executes.mp hu
  exact hexec.ip_le

theorem tidy_after? (h : after? p n (.initial size input) = some t) : t.tape.Tidy := by
  refine after?_induction (fun _ t => t.tape.Tidy) (Tape.tidy_blank size) ?_ h
  intro k t u _ hu ih
  obtain ⟨action, hexec⟩ := next?_eq_some_iff_executes.mp hu
  cases hexec.tape_cases with
  | inl hsame =>
      rw [hsame]
      exact ih
  | inr hstores =>
      obtain ⟨⟨hp, value, hv, htape⟩, -⟩ := hstores
      rw [htape]
      exact ih.put hp hv

theorem materialized_after?_le (h : after? p n (.initial size input) = some t) :
    t.tape.materialized ≤
      (rowsFrom p n 0 (.initial size input)).countP fun row => storesCell row.char := by
  refine after?_induction (fun n t => t.tape.materialized ≤
    (rowsFrom p n 0 (.initial size input)).countP fun row => storesCell row.char) ?_ ?_ h
  · exact Nat.le_refl 0
  · intro k t u ht hu ih
    obtain ⟨c, hc⟩ := exists_char_of_next? hu
    obtain ⟨action, hstep⟩ := next?_eq_some_iff.mp hu
    rw [rowsFrom_concat ht hc hstep, List.countP_append]
    cases (executes_of_step hstep).tape_cases with
    | inl hsame =>
        rw [hsame]
        exact Nat.le_trans ih (Nat.le_add_right _ _)
    | inr hstores =>
        obtain ⟨⟨-, value, -, htape⟩, d, hd, hwrites⟩ := hstores
        rw [hc] at hd
        cases hd
        have hput := t.tape.materialized_put_le t.head value
        rw [htape, List.countP_singleton, if_pos hwrites]
        omega

theorem pending_after? (h : after? p n (.initial size input) = some t) : t.pending <:+ input := by
  refine after?_induction (fun _ t => t.pending <:+ input) List.suffix_rfl ?_ h
  intro k t u _ hu ih
  obtain ⟨action, hexec⟩ := next?_eq_some_iff_executes.mp hu
  exact hexec.pending_suffix.trans ih

theorem output_after?_lt (h : after? p n (.initial size input) = some t) :
    ∀ codePoint ∈ t.output, codePoint < cellModulus := by
  refine after?_induction (fun _ t => ∀ codePoint ∈ t.output, codePoint < cellModulus) ?_ ?_ h
  · simp [State.output, State.initial]
  · intro k t u ht hu ih codePoint hmem
    obtain ⟨action, hexec⟩ := next?_eq_some_iff_executes.mp hu
    cases hexec.output_cases with
    | inl hsame =>
        rw [hsame] at hmem
        exact ih codePoint hmem
    | inr hwrote =>
        rw [hwrote, List.mem_append, List.mem_singleton] at hmem
        cases hmem with
        | inl hbefore => exact ih codePoint hbefore
        | inr hcell =>
            rw [hcell]
            exact (sound_after? ht).1.small t.head

theorem represents_after? (h : after? p n (.initial size input) = some t) :
    t.Represents p size input n := by
  obtain ⟨hsound, hsize⟩ := sound_after? h
  exact
    { place := place_after? h
      normal := hsound.normal.symm
      bounded := by
        intro hpos
        have hbound := bound_of_pos hpos t.head
        rw [← hsize] at hbound
        rw [show bound t.head t.tape.size = t.head from hsound.normal] at hbound
        omega
      near := fun hzero => hsound.near (hsize.trans hzero)
      stored := by
        intro q v hq
        obtain ⟨hpos, hlt, hwrap⟩ := tidy_after? h q v hq
        rw [cellModulus] at hlt
        exact ⟨hpos, by omega, hwrap.symm⟩
      few := materialized_after?_le h
      pending := pending_after? h
      output := output_after?_lt h }

end Reached

/-- How a text shows a code point: by its own character, or by the replacement character if it is
a surrogate, which has none. -/
def Shows (codePoint : Nat) (c : Char) : Prop :=
  if 0xD800 ≤ codePoint ∧ codePoint ≤ 0xDFFF then c = '\uFFFD' else c.toNat = codePoint

theorem shows_codePointChar {codePoint : Nat} (h : codePoint < 0x110000) :
    Shows codePoint (codePointChar codePoint) := by
  rw [Shows, codePointChar]
  by_cases hvalid : codePoint.isValidChar
  · have hvalid' : codePoint < 0xD800 ∨ 0xDFFF < codePoint ∧ codePoint < 0x110000 := hvalid
    rw [if_neg (by omega), if_pos hvalid]
    rw [Char.ofNat, dif_pos hvalid]
    rfl
  · have hsurrogate : ¬ (codePoint < 0xD800 ∨ 0xDFFF < codePoint ∧ codePoint < 0x110000) := hvalid
    rw [if_pos (by omega), if_neg hvalid]

theorem State.shows_report {s : State} (h : ∀ codePoint ∈ s.output, codePoint < 0x110000)
    (steps : Nat) :
    List.Forall₂ Shows (s.report steps).codePoints (s.report steps).output.toList := by
  rw [report, String.toList_ofList, List.forall₂_map_right_iff, List.forall₂_same]
  intro codePoint hmem
  exact shows_codePointChar (h codePoint hmem)

/-- The representation invariant. It holds of every state that successful steps lead to, of
programs with unmatched brackets too. So the text of every report, from runs observed and limited
in any way, has one character for each code point, which shows it. -/
theorem representation_of_runs (machine : Machine) (source input : String) :
    (∀ n t, after? (.ofString source) n (.initial machine.tapeSize input.toList) = some t →
      t.Represents (.ofString source) machine.tapeSize input.toList n) ∧
    ∀ (σ : Type) (control : Control) (monitor : Monitor σ) (fuel : Nat) (watched : σ)
      (report : Report),
      (machine.execute control monitor fuel source input watched).result = some (.ok report) →
        (∀ codePoint ∈ report.codePoints, codePoint < 0x110000) ∧
        List.Forall₂ Shows report.codePoints report.output.toList := by
  refine ⟨fun n t => represents_after?, ?_⟩
  intro σ control monitor fuel watched report h
  obtain ⟨n, t, ht, -, rfl⟩ := Machine.exists_report_of_execute h
  have hrep := represents_after? ht
  exact ⟨hrep.output, t.shows_report hrep.output n⟩

/-- An unmatched bracket behind a wrap to the left, with input left over; and a report whose one
code point is the first surrogate, counted up from the character before it. -/
theorem representation_of_runs_surrogate :
    (∃ t, after? (.ofString "<,+]") 3 (.initial 3 "ab".toList) = some t ∧
      t.Represents (.ofString "<,+]") 3 "ab".toList 3) ∧
    (Machine.standard.execute .free .silent 4 ",+." "\uD7FF" ()).result =
      some (.ok ⟨"\uFFFD", [0xD800], 3⟩) ∧
    List.Forall₂ Shows [0xD800] "\uFFFD".toList := by
  have hrun : (Machine.standard.execute .free .silent 4 ",+." "\uD7FF" ()).result =
      some (.ok ⟨"\uFFFD", [0xD800], 3⟩) := rfl
  refine ⟨⟨_, rfl, (representation_of_runs ⟨3, 0⟩ "<,+]" "ab").1 3 _ rfl⟩, hrun, ?_⟩
  exact ((representation_of_runs .standard ",+." "\uD7FF").2 Unit .free .silent 4 () _ hrun).2

end Brainfuck
