import Brainfuck.Proofs.Budget
import Brainfuck.Proofs.Insertion
import Brainfuck.Proofs.Representation

/-!
Pairs of instructions that undo each other. Wherever such a pair stands in a program, in any nest of
loops or where a jump lands, executing it leads back to the state before it, two places further on:
a change of the cell and the change back leave the tape with the same cells stored, and a move and
the move back end on the same cell, also around the ends of a circle. So a program and the same
without the pair run side by side, and the pair is two steps of the one alone.

Main statement: a pair of inverse instructions can be left out.
-/

namespace Brainfuck

/-- The second character undoes what the first one does. -/
inductive Undoes : Char → Char → Prop where
  | upDown : Undoes '+' '-'
  | downUp : Undoes '-' '+'
  | leftRight : Undoes '<' '>'
  | rightLeft : Undoes '>' '<'

def inversePairs : List String :=
  ["+-", "-+", "<>", "><"]

theorem exists_undoes_of_mem {pair : String} (h : pair ∈ inversePairs) :
    ∃ x y, pair.toList = [x, y] ∧ Undoes x y := by
  simp only [inversePairs, List.mem_cons, List.not_mem_nil, or_false] at h
  rcases h with rfl | rfl | rfl | rfl
  · exact ⟨'+', '-', rfl, .upDown⟩
  · exact ⟨'-', '+', rfl, .downUp⟩
  · exact ⟨'<', '>', rfl, .leftRight⟩
  · exact ⟨'>', '<', rfl, .rightLeft⟩

theorem Undoes.plain {x y : Char} (h : Undoes x y) : ∀ c ∈ [x, y], IsPlain c := by
  cases h <;> simp [IsPlain]

theorem Undoes.not_read {x y : Char} (h : Undoes x y) : ∀ c ∈ [x, y], c ≠ ',' := by
  cases h <;> simp

/-- Tidy tapes of one size that read the same everywhere are one tape. -/
theorem Tape.eq_of_get_eq {t t' : Tape} (h : t.Tidy) (h' : t'.Tidy) (hsize : t.size = t'.size)
    (hget : ∀ q, t.get q = t'.get q) : t = t' := by
  have hcells : t.cells = t'.cells := by
    apply Std.ExtTreeMap.ext_getElem?
    intro q
    rw [stored_of_tidy h, stored_of_tidy h', hget q]
  cases t
  cases t'
  simp only at hsize hcells
  rw [hsize, hcells]

section Pairs

variable {p : Program} {s u v : State} {k : Nat} {delta : Int} {action action' : Action}

/-- Storing something and then what was there before changes nothing. -/
theorem Tape.put_put_get {t : Tape} (h : t.Tidy) {position : Int}
    (hp : t.wrap position = position) (hcell : t.get position < cellModulus) {value : Nat}
    (hvalue : value < cellModulus) :
    (t.put position value).put position (t.get position) = t := by
  have htidy := (h.put hp hvalue).put hp hcell
  refine Tape.eq_of_get_eq htidy h rfl ?_
  intro q
  rw [get_put, get_put]
  by_cases hq : q = position
  · rw [if_pos hq, hq]
  · rw [if_neg hq, if_neg hq]

theorem State.moveBy_undone (hs : s.Sound k) (hu : s.moveBy delta = (u, .ok action))
    (hv : u.moveBy (-delta) = (v, .ok action')) : v = s.placed (s.ip + 2) := by
  obtain ⟨-, rfl, -⟩ := moveBy_eq_ok_iff.mp hu
  obtain ⟨-, rfl, -⟩ := moveBy_eq_ok_iff.mp hv
  have hhead : s.tape.wrap (s.tape.wrap (s.head + delta) + -delta) = s.head := by
    rw [Tape.wrap, Tape.wrap, bound_bound_add, Int.add_neg_cancel_right]
    exact hs.normal
  simp only [hhead, placed]

theorem State.changeBy_undone (hs : s.Sound k) (htidy : s.tape.Tidy)
    (hdelta : delta = 1 ∨ delta = -1) (hu : s.changeBy delta = (u, .ok action))
    (hv : u.changeBy (-delta) = (v, .ok action')) : v = s.placed (s.ip + 2) := by
  have hcell := hs.small s.head
  have hup := Tape.add?_eq_some hs.normal hcell hdelta
  obtain ⟨tape, after, hadd, rfl, -⟩ := changeBy_eq_ok_iff.mp hu
  obtain ⟨tape', after', hadd', rfl, -⟩ := changeBy_eq_ok_iff.mp hv
  rw [hup] at hadd
  cases hadd
  have hvalue : ((s.tape.get s.head + delta) % cellModulus).toNat < cellModulus := by
    rw [cellModulus]
    omega
  have hback : tape' = s.tape := by
    have hdown := Tape.add?_eq_some
      (t := s.tape.put s.head ((s.tape.get s.head + delta) % cellModulus).toNat) hs.normal
      (by rw [Tape.get_put, if_pos rfl]; exact hvalue) (show -delta = 1 ∨ -delta = -1 by omega)
    rw [hdown] at hadd'
    cases hadd'
    have hsame : ((((s.tape.get s.head + delta) % cellModulus).toNat + -delta : Int) %
        cellModulus).toNat = s.tape.get s.head := by
      rw [cellModulus] at hcell ⊢
      omega
    rw [Tape.get_put, if_pos rfl, hsame]
    exact Tape.put_put_get htidy hs.normal hcell hvalue
  rw [hback]
  rfl

/-- A pair that is executed leads back to the state before it, two places further. -/
theorem placed_of_undoes {x y : Char} (h : Undoes x y) (hs : s.Sound k) (htidy : s.tape.Tidy)
    (hx : p[s.ip]? = some x) (hy : p[s.ip + 1]? = some y) (hu : next? p s = some u)
    (hv : next? p u = some v) : v = s.placed (s.ip + 2) := by
  obtain ⟨-, hip, -⟩ := next?_plain hs hx (h.plain x (by simp)) hu
  rw [← hip] at hy
  obtain ⟨action, hu⟩ := next?_eq_some_iff.mp hu
  obtain ⟨action', hv⟩ := next?_eq_some_iff.mp hv
  cases h with
  | upDown =>
      rw [step_of_instruction (i := .increment) hx] at hu
      rw [step_of_instruction (i := .decrement) hy] at hv
      exact State.changeBy_undone hs htidy (.inl rfl) hu hv
  | downUp =>
      rw [step_of_instruction (i := .decrement) hx] at hu
      rw [step_of_instruction (i := .increment) hy] at hv
      exact State.changeBy_undone hs htidy (.inr rfl) hu hv
  | leftRight =>
      rw [step_of_instruction (i := .left) hx] at hu
      rw [step_of_instruction (i := .right) hy] at hv
      exact State.moveBy_undone hs hu hv
  | rightLeft =>
      rw [step_of_instruction (i := .right) hx] at hu
      rw [step_of_instruction (i := .left) hy] at hv
      exact State.moveBy_undone hs hu hv

end Pairs

/-- `p` is `q` with two inverse instructions put in at `start`. -/
structure Program.Paired (start : Nat) (p q : Program) : Prop where
  inserted : p.Inserted start 2 q
  pair : ∃ x y, Undoes x y ∧ p[start]? = some x ∧ p[start + 1]? = some y

section Runs

variable {p q : Program} {start size n m : Nat} {input : List Char} {s t u v : State}

theorem Program.Paired.exists_char (h : p.Paired start q) {i : Nat} (hi : ¬ Stays start 2 i) :
    ∃ c, p[i]? = some c ∧ IsPlain c ∧ c ≠ ',' := by
  obtain ⟨x, y, hundoes, hx, hy⟩ := h.pair
  unfold Stays at hi
  obtain rfl | rfl : i = start ∨ i = start + 1 := by omega
  · exact ⟨x, hx, hundoes.plain x (by simp), hundoes.not_read x (by simp)⟩
  · exact ⟨y, hy, hundoes.plain y (by simp), hundoes.not_read y (by simp)⟩

theorem Program.Paired.placed (h : p.Paired start q)
    (hs : after? p n (.initial size input) = some s) (hip : s.ip = start)
    (ht : next? p s = some t) (hu : next? p t = some u) : u = s.placed (start + 2) := by
  obtain ⟨x, y, hundoes, hx, hy⟩ := h.pair
  rw [← hip] at hx hy ⊢
  exact placed_of_undoes hundoes (sound_after? hs).1 (tidy_after? hs) hx hy ht hu

theorem Program.Paired.ip_midst (h : p.Paired start q)
    (hs : after? p n (.initial size input) = some s) (hip : s.ip = start)
    (ht : next? p s = some t) : t.ip = start + 1 := by
  obtain ⟨c, hc, hplain, -⟩ := h.exists_char (i := s.ip) (by unfold Stays; omega)
  rw [(next?_plain (sound_after? hs).1 hc hplain ht).2.1, hip]

theorem closedUp_initial (start size : Nat) (input : List Char) :
    (State.initial size input).closedUp start 2 = .initial size input := by
  have hzero : closeUp start 2 0 = 0 := closeUp_of_le (Nat.zero_le start)
  change (State.initial size input).placed (closeUp start 2 0) = _
  rw [hzero]
  rfl

theorem closedUp_placed (s : State) (hip : s.ip = start) :
    (s.placed (start + 2)).closedUp start 2 = s.closedUp start 2 := by
  simp only [State.closedUp, State.placed, hip, closeUp_add (Nat.le_refl start),
    closeUp_of_le (Nat.le_refl start)]

/-- The run without the pair that belongs to `n` steps with it, up to the pair that is being
executed, and the number of steps saved. -/
inductive Shortened (p q : Program) (start size : Nat) (input : List Char) (n : Nat) (t : State) :
    Prop where
  | outside (m : Nat) : (t.ip = start ∨ Stays start 2 t.ip) →
      after? q m (.initial size input) = some (t.closedUp start 2) →
      n = m + 2 * (rowsFrom p n 0 (.initial size input)).countP (·.ip = start) →
      Shortened p q start size input n t
  | midst (m k : Nat) (s : State) : s.ip = start → after? p k (.initial size input) = some s →
      next? p s = some t → after? q m (.initial size input) = some (s.closedUp start 2) →
      n + 1 = m + 2 * (rowsFrom p n 0 (.initial size input)).countP (·.ip = start) →
      Shortened p q start size input n t

theorem shortened_after? (h : p.Paired start q) (ht : after? p n (.initial size input) = some t) :
    Shortened p q start size input n t := by
  refine after?_induction (fun n t => Shortened p q start size input n t) ?_ ?_ ht
  · refine .outside 0 ?_ ?_ rfl
    · simp only [State.initial, Stays]
      omega
    · rw [closedUp_initial]
      rfl
  · intro n t u ht hu hshort
    obtain ⟨c, hc⟩ := exists_char_of_next? hu
    obtain ⟨action, hstep⟩ := next?_eq_some_iff.mp hu
    have hcount : (rowsFrom p (n + 1) 0 (.initial size input)).countP (·.ip = start) =
        (rowsFrom p n 0 (.initial size input)).countP (·.ip = start) +
          if t.ip = start then 1 else 0 := by
      rw [rowsFrom_concat ht hc hstep, List.countP_append, List.countP_singleton]
      simp only [decide_eq_true_eq]
    cases hshort with
    | outside m hip hm hn =>
        by_cases hstart : t.ip = start
        · refine .midst m n t hstart ht hu hm ?_
          rw [hcount, if_pos hstart]
          omega
        · have hstays : Stays start 2 t.ip := hip.resolve_left hstart
          rcases stepsAlike h.inserted hc hstays with
            ⟨v, action, action', hv, hv', hlands⟩ | ⟨e, hfail, -⟩
          · rw [next?_of_ok hv] at hu
            cases hu
            refine .outside (m + 1) hlands (after?_concat hm (next?_of_ok hv')) ?_
            rw [hcount, if_neg hstart]
            omega
          · rw [next?_of_error hfail] at hu
            cases hu
    | midst m k s hip hs hnext hm hn =>
        obtain rfl := h.placed hs hip hnext hu
        have htip := h.ip_midst hs hip hnext
        refine .outside m (.inr (.inr (Nat.le_refl _))) ?_ ?_
        · rw [closedUp_placed s hip]
          exact hm
        · rw [hcount, if_neg (by omega)]
          omega

/-- No state of the run is one from which the head leaves the signed word. -/
def KeepsWord (p : Program) (size : Nat) (input : List Char) : Prop :=
  ∀ n t, after? p n (.initial size input) = some t →
    step p t ≠ t.fail (.crash .headOverflow)

theorem exists_next_of_keepsWord (hp : balanced p.toList = true) (hword : KeepsWord p size input)
    (ht : after? p n (.initial size input) = some t) {c : Char} (hc : p[t.ip]? = some c)
    (hread : c ≠ ',') : ∃ u, next? p t = some u := by
  rcases step_cases_of_balanced hp (sound_after? ht).1 hc with
    ⟨u, action, hu, -⟩ | ⟨-, hcomma⟩ | ⟨hfail, -⟩
  · exact ⟨u, next?_of_ok hu⟩
  · exact absurd hcomma hread
  · exact absurd hfail (hword n t ht)

/-- A run that comes to the pair gets past it, and to the state it came with. -/
theorem exists_past (h : p.Paired start q) (hp : balanced p.toList = true)
    (hword : KeepsWord p size input) (ht : after? p n (.initial size input) = some t)
    (hlands : t.ip = start ∨ Stays start 2 t.ip) :
    ∃ n' t', after? p n' (.initial size input) = some t' ∧
      t'.closedUp start 2 = t.closedUp start 2 ∧ Stays start 2 t'.ip := by
  rcases hlands with hip | hstays
  · obtain ⟨c, hc, -, hread⟩ := h.exists_char (i := t.ip) (by unfold Stays; omega)
    obtain ⟨u, hu⟩ := exists_next_of_keepsWord hp hword ht hc hread
    have huip := h.ip_midst ht hip hu
    have hafter := after?_concat ht hu
    obtain ⟨d, hd, -, hread'⟩ := h.exists_char (i := u.ip) (by unfold Stays; omega)
    obtain ⟨v, hv⟩ := exists_next_of_keepsWord hp hword hafter hd hread'
    obtain rfl := h.placed ht hip hu hv
    exact ⟨_, _, after?_concat hafter hv, closedUp_placed t hip, .inr (Nat.le_refl _)⟩
  · exact ⟨n, t, ht, rfl, hstays⟩

/-- Every state without the pair belongs to one with it that is about to execute the same. -/
theorem exists_after?_closedUp (h : p.Paired start q) (hp : balanced p.toList = true)
    (hword : KeepsWord p size input) (hv : after? q m (.initial size input) = some v) :
    ∃ n t, after? p n (.initial size input) = some t ∧ t.closedUp start 2 = v ∧
      Stays start 2 t.ip := by
  refine after?_induction (fun _ v => ∃ n t, after? p n (.initial size input) = some t ∧
    t.closedUp start 2 = v ∧ Stays start 2 t.ip) ?_ ?_ hv
  · obtain ⟨n, t, ht, hclosed, hstays⟩ :=
      exists_past (n := 0) (t := .initial size input) h hp hword rfl (by
        simp only [State.initial, Stays]
        omega)
    rw [closedUp_initial] at hclosed
    exact ⟨n, t, ht, hclosed, hstays⟩
  · rintro k _ v - hnext ⟨n, t, ht, rfl, hstays⟩
    obtain ⟨c, hc⟩ := exists_char_of_next? hnext
    have hc' : p[t.ip]? = some c := (h.inserted.getElem?_closeUp hstays).symm.trans hc
    rcases stepsAlike h.inserted hc' hstays with
      ⟨u, action, action', hu, hu', hlands⟩ | ⟨e, -, -, hfail⟩
    · rw [next?_of_ok hu'] at hnext
      cases hnext
      exact exists_past h hp hword (after?_concat ht (next?_of_ok hu)) hlands
    · rw [next?_of_error hfail] at hnext
      cases hnext

/-- Executed at the pair, a step fails only where the head leaves the signed word. -/
theorem overflow_of_error (h : p.Paired start q) (hp : balanced p.toList = true)
    (ht : after? p n (.initial size input) = some t) (hinside : ¬ Stays start 2 t.ip) {e : Error}
    (hstep : step p t = (u, .error e)) : e = .crash .headOverflow := by
  obtain ⟨c, hc, -, hread⟩ := h.exists_char hinside
  rcases step_cases_of_balanced hp (sound_after? ht).1 hc with
    ⟨v, action, hv, -⟩ | ⟨-, hcomma⟩ | ⟨hfail, -⟩
  · rw [hv] at hstep
    cases hstep
  · exact absurd hcomma hread
  · rw [hfail] at hstep
    cases hstep
    rfl

end Runs

section Texts

theorem toList_paired (before pair after : String) :
    (before ++ pair ++ after).toList = before.toList ++ (pair.toList ++ after.toList) := by
  rw [String.toList_append, String.toList_append, List.append_assoc]

variable {pair : String} (hpair : pair ∈ inversePairs) (before after : String)
include hpair

theorem paired_ofString :
    (Program.ofString (before ++ pair ++ after)).Paired before.toList.length
      (.ofString (before ++ after)) := by
  obtain ⟨x, y, hxy, hundoes⟩ := exists_undoes_of_mem hpair
  have hlong := toList_paired before pair after
  rw [hxy] at hlong
  refine ⟨?_, x, y, hundoes, ?_, ?_⟩
  · exact Program.inserted_of_toList hundoes.plain hlong (String.toList_append ..)
  · rw [Program.ofString, List.getElem?_toArray, hlong]
    simp
  · rw [Program.ofString, List.getElem?_toArray, hlong]
    simp

theorem balanced_paired :
    balanced (before ++ pair ++ after).toList = balanced (before ++ after).toList := by
  obtain ⟨x, y, hxy, hundoes⟩ := exists_undoes_of_mem hpair
  rw [toList_paired, hxy, String.toList_append]
  exact balancedFrom_insert hundoes.plain 0 _ _

theorem ofUnbalanced_paired {before after : String}
    (hv : balanced (before ++ pair ++ after).toList = false) :
    (Error.ofUnbalanced (before ++ pair ++ after).toList).Stays before.toList.length 2 ∧
      Error.ofUnbalanced (before ++ after).toList =
        (Error.ofUnbalanced (before ++ pair ++ after).toList).mapPlace
          (closeUp before.toList.length 2) := by
  obtain ⟨x, y, hxy, hundoes⟩ := exists_undoes_of_mem hpair
  obtain ⟨blamed, hblamed⟩ := exists_unmatched? hv
  have hshort : unmatched? (before ++ after).toList =
      some ⟨closeUp before.toList.length 2 blamed.ip, blamed.bracket⟩ := by
    rw [toList_paired, hxy, unmatched?] at hblamed
    rw [String.toList_append, unmatched?,
      unmatchedFrom?_insert hundoes.plain _ _ (Nat.zero_add _).symm (by simp), hblamed]
    rfl
  rw [Error.ofUnbalanced, Error.ofUnbalanced, hblamed, hshort]
  refine ⟨?_, rfl⟩
  rintro ip ⟨⟩
  by_contra hinside
  obtain ⟨c, hc, hplain, -⟩ := (paired_ofString hpair before after).exists_char hinside
  rw [Program.ofString, List.getElem?_toArray, getElem?_unmatched? hblamed] at hc
  obtain rfl := Option.some.inj hc
  cases hbracket : blamed.bracket with
  | opening => exact hplain.1 (by rw [hbracket]; rfl)
  | closing => exact hplain.2 (by rw [hbracket]; rfl)

end Texts

namespace Machine

/-- How many of the first `n` steps execute the character at this place. -/
def executionsAt (m : Machine) (source input : String) (n ip : Nat) : Nat :=
  (m.rows source input n).countP (·.ip = ip)

/-- The run ends because the head leaves the signed word. -/
def Overflows (m : Machine) (source input : String) : Prop :=
  m.Answers .free source input (.error (.crash .headOverflow))

def Endless (m : Machine) (source input : String) : Prop :=
  ∀ r, ¬ m.Answers .free source input r

/-- It takes an unbounded tape and as many steps as the word counts. -/
theorem Overflows.long {m : Machine} {source input : String} (h : m.Overflows source input) :
    m.tapeSize = 0 ∧ ∃ n t, wordMax ≤ n ∧ m.Reaches source input n t := by
  cases hv : balanced source.toList with
  | false =>
      have he := (answers_of_unbalanced hv).mp h
      exact absurd (Except.error.inj he).symm (Error.ofUnbalanced_ne_crash _ _)
  | true =>
      obtain ⟨n, t, c, u, ht, hc, hstep⟩ := (answers_error_iff hv).mp h
      rcases (reaches_iff.mpr ht).error_cases hv hc hstep with ⟨he, -⟩ | ⟨-, hsize, hword⟩
      · cases he
      · exact ⟨hsize, n, t, hword, reaches_iff.mpr ht⟩

theorem keepsWord_of_not_overflows {m : Machine} {source input : String}
    (hv : balanced source.toList = true) (h : ¬ m.Overflows source input) :
    KeepsWord (.ofString source) m.tapeSize input.toList := by
  intro n t ht hfail
  apply h
  cases hc : (Program.ofString source)[t.ip]? with
  | some c => exact (answers_error_iff hv).mpr ⟨n, t, c, t, ht, hc, hfail⟩
  | none =>
      rw [step_outside hc] at hfail
      cases hfail

section Pairs

variable {m : Machine} {before pair after input : String} (hpair : pair ∈ inversePairs)
include hpair

theorem answers_ok_unpaired {report : Report}
    (h : m.Answers .free (before ++ pair ++ after) input (.ok report)) :
    ∃ steps, m.Answers .free (before ++ after) input (.ok { report with steps := steps }) ∧
      report.steps = steps + 2 *
        m.executionsAt (before ++ pair ++ after) input report.steps before.toList.length := by
  have hv := balanced_of_answers_ok h
  have hpaired := paired_ofString hpair before after
  obtain ⟨t, ht, hout, hreport⟩ := (answers_ok_iff hv).mp h
  have hstays := hpaired.inserted.stays_of_outside hout
  cases shortened_after? hpaired ht with
  | outside steps _ hafter hsteps =>
      refine ⟨steps, ?_, hsteps⟩
      rw [answers_ok_iff (by rwa [← balanced_paired hpair before after])]
      refine ⟨t.closedUp before.toList.length 2, hafter, ?_, ?_⟩
      · exact (hpaired.inserted.getElem?_closeUp hstays).trans hout
      · rw [hreport]
        rfl
  | midst _ _ _ hip hs hnext =>
      have htip := hpaired.ip_midst hs hip hnext
      unfold Stays at hstays
      omega

theorem answers_error_unpaired {e : Error} (he : e ≠ .crash .headOverflow)
    (h : m.Answers .free (before ++ pair ++ after) input (.error e)) :
    e.Stays before.toList.length 2 ∧ m.Answers .free (before ++ after) input
      (.error (e.mapPlace (closeUp before.toList.length 2))) := by
  cases hv : balanced (before ++ pair ++ after).toList with
  | false =>
      rw [answers_of_unbalanced hv] at h
      cases h
      obtain ⟨hstays, heq⟩ := ofUnbalanced_paired hpair hv
      refine ⟨hstays, ?_⟩
      rw [answers_of_unbalanced (by rwa [← balanced_paired hpair before after]), heq]
  | true =>
      have hpaired := paired_ofString hpair before after
      obtain ⟨n, t, c, u, ht, hc, hstep⟩ := (answers_error_iff hv).mp h
      have hstays : Stays before.toList.length 2 t.ip := by
        by_contra hinside
        exact he (overflow_of_error hpaired hv ht hinside hstep)
      cases shortened_after? hpaired ht with
      | midst _ _ _ hip hs hnext =>
          have htip := hpaired.ip_midst hs hip hnext
          unfold Stays at hstays
          omega
      | outside steps _ hafter _ =>
          rcases stepsAlike hpaired.inserted hc hstays with
            ⟨v, action, action', hv', -, -⟩ | ⟨e', hfail, hplace, hfail'⟩
          · rw [hv'] at hstep
            cases hstep
          · rw [hfail] at hstep
            cases hstep
            refine ⟨?_, ?_⟩
            · intro ip hmem
              rw [hplace ip hmem]
              exact hstays
            · rw [answers_error_iff (by rwa [← balanced_paired hpair before after])]
              exact ⟨steps, _, c, _, hafter,
                (hpaired.inserted.getElem?_closeUp hstays).trans hc, hfail'⟩

theorem answers_ok_of_unpaired (hover : ¬ m.Overflows (before ++ pair ++ after) input)
    {report : Report} (h : m.Answers .free (before ++ after) input (.ok report)) :
    ∃ steps, m.Answers .free (before ++ pair ++ after) input
      (.ok { report with steps := steps }) := by
  have hv := balanced_of_answers_ok h
  obtain ⟨v, hafter, hout, hreport⟩ := (answers_ok_iff hv).mp h
  rw [← balanced_paired hpair before after] at hv
  have hpaired := paired_ofString hpair before after
  obtain ⟨n, t, ht, rfl, hstays⟩ :=
    exists_after?_closedUp hpaired hv (keepsWord_of_not_overflows hv hover) hafter
  refine ⟨n, (answers_ok_iff hv).mpr ⟨t, ht, ?_, ?_⟩⟩
  · exact (hpaired.inserted.getElem?_closeUp hstays).symm.trans hout
  · rw [hreport]
    rfl

theorem answers_error_of_unpaired (hover : ¬ m.Overflows (before ++ pair ++ after) input)
    {e : Error} (h : m.Answers .free (before ++ after) input (.error e)) :
    ∃ e', m.Answers .free (before ++ pair ++ after) input (.error e') ∧
      e'.mapPlace (closeUp before.toList.length 2) = e := by
  cases hv : balanced (before ++ pair ++ after).toList with
  | false =>
      rw [answers_of_unbalanced (by rwa [← balanced_paired hpair before after]),
        (ofUnbalanced_paired hpair hv).2] at h
      cases h
      exact ⟨_, (answers_of_unbalanced hv).mpr rfl, rfl⟩
  | true =>
      rw [answers_error_iff (by rwa [← balanced_paired hpair before after])] at h
      obtain ⟨k, v, c, w, hafter, hc, hstep⟩ := h
      have hpaired := paired_ofString hpair before after
      obtain ⟨n, t, ht, rfl, hstays⟩ :=
        exists_after?_closedUp hpaired hv (keepsWord_of_not_overflows hv hover) hafter
      have hc' := (hpaired.inserted.getElem?_closeUp hstays).symm.trans hc
      rcases stepsAlike hpaired.inserted hc' hstays with
        ⟨u, action, action', -, hu, -⟩ | ⟨e', hfail, -, hfail'⟩
      · rw [hu] at hstep
        cases hstep
      · rw [hfail'] at hstep
        cases hstep
        exact ⟨e', (answers_error_iff hv).mpr ⟨n, t, c, t, ht, hc', hfail⟩, rfl⟩

theorem endless_iff_unpaired (hover : ¬ m.Overflows (before ++ pair ++ after) input) :
    m.Endless (before ++ pair ++ after) input ↔ m.Endless (before ++ after) input := by
  constructor
  · rintro hendless (e | report) h
    · obtain ⟨e', h', -⟩ := answers_error_of_unpaired hpair hover h
      exact hendless _ h'
    · obtain ⟨steps, h'⟩ := answers_ok_of_unpaired hpair hover h
      exact hendless _ h'
  · rintro hendless (e | report) h
    · have he : e ≠ .crash .headOverflow := by
        rintro rfl
        exact hover h
      exact hendless _ (answers_error_unpaired hpair he h).2
    · obtain ⟨steps, h', -⟩ := answers_ok_unpaired hpair h
      exact hendless _ h'

end Pairs
end Machine

/-- Inverse instructions cancel wherever they stand. Two of them put into a source change neither
what it reports but for the steps, which are two more for each time they are executed, nor how it
fails but for the place, which is never between them and has moved if it is behind them, nor
whether it ends. This holds unless the head of the longer source leaves the signed word, which
takes an unbounded tape and as many steps as the word counts. -/
theorem answers_iff_unpaired (machine : Machine) (before pair after input : String)
    (hpair : pair ∈ inversePairs) :
    (machine.Overflows (before ++ pair ++ after) input →
      machine.tapeSize = 0 ∧
        ∃ n t, wordMax ≤ n ∧ machine.Reaches (before ++ pair ++ after) input n t) ∧
    (∀ report, machine.Answers .free (before ++ pair ++ after) input (.ok report) →
      ∃ steps,
        machine.Answers .free (before ++ after) input (.ok { report with steps := steps }) ∧
        report.steps = steps + 2 *
          machine.executionsAt (before ++ pair ++ after) input report.steps
            before.toList.length) ∧
    (¬ machine.Overflows (before ++ pair ++ after) input →
      (∀ report, machine.Answers .free (before ++ after) input (.ok report) →
        ∃ steps, machine.Answers .free (before ++ pair ++ after) input
          (.ok { report with steps := steps })) ∧
      (∀ e, machine.Answers .free (before ++ pair ++ after) input (.error e) ↔
        e.Stays before.toList.length 2 ∧
          machine.Answers .free (before ++ after) input
            (.error (e.mapPlace (closeUp before.toList.length 2)))) ∧
      (∀ e, machine.Answers .free (before ++ after) input (.error e) →
        ∃ e', machine.Answers .free (before ++ pair ++ after) input (.error e') ∧
          e'.mapPlace (closeUp before.toList.length 2) = e) ∧
      (machine.Endless (before ++ pair ++ after) input ↔
        machine.Endless (before ++ after) input)) := by
  refine ⟨Machine.Overflows.long, fun _ => Machine.answers_ok_unpaired hpair, fun hover => ?_⟩
  have hforward : ∀ e, machine.Answers .free (before ++ pair ++ after) input (.error e) →
      e.Stays before.toList.length 2 ∧ machine.Answers .free (before ++ after) input
        (.error (e.mapPlace (closeUp before.toList.length 2))) := by
    intro e h
    refine Machine.answers_error_unpaired hpair ?_ h
    rintro rfl
    exact hover h
  refine ⟨fun _ => Machine.answers_ok_of_unpaired hpair hover, fun e => ⟨hforward e, ?_⟩,
    fun _ => Machine.answers_error_of_unpaired hpair hover,
    Machine.endless_iff_unpaired hpair hover⟩
  rintro ⟨hstays, h⟩
  obtain ⟨e', h', hsame⟩ := Machine.answers_error_of_unpaired hpair hover h
  -- Neither place is between the two instructions, so one place without them is one with them.
  have heq : e' = e := Error.eq_of_mapPlace_closeUp (hforward e' h').1 hstays hsame
  rwa [← heq]

/-- A pair around the end of a circle in a loop of two rounds, one at a loop's start before a read
that fails in the second round, and one before a bracket too many. -/
theorem answers_iff_unpaired_circle :
    "<>" ∈ inversePairs ∧ "-+" ∈ inversePairs ∧ "+-" ∈ inversePairs ∧
      (∃ steps, Machine.Answers ⟨3, 0⟩ .free ",[.-]" "\x02" (.ok ⟨"\x02\x01", [2, 1], steps⟩) ∧
        14 = steps + 2 * Machine.executionsAt ⟨3, 0⟩ ",[<>.-]" "\x02" 14 2) ∧
      Machine.Answers ⟨3, 0⟩ .free "+[,.]" "x" (.error (.inputExhausted 2)) ∧
      Machine.Answers ⟨3, 0⟩ .free "[]]" "" (.error (.unmatched ⟨2, .closing⟩)) ∧
      (Machine.Endless ⟨3, 0⟩ "+[<>]" "" ↔ Machine.Endless ⟨3, 0⟩ "+[]" "") := by
  have hbounded : ∀ source input, ¬ Machine.Overflows ⟨3, 0⟩ source input := by
    intro source input h
    cases h.long.1
  refine ⟨by decide, by decide, by decide, ?_, ?_, ?_, ?_⟩
  · have hrun : Machine.Answers ⟨3, 0⟩ .free (",[" ++ "<>" ++ ".-]") "\x02"
        (.ok ⟨"\x02\x01", [2, 1], 14⟩) := ⟨15, rfl⟩
    exact (answers_iff_unpaired ⟨3, 0⟩ ",[" "<>" ".-]" "\x02" (by decide)).2.1 _ hrun
  · have hrun : Machine.Answers ⟨3, 0⟩ .free ("+[" ++ "-+" ++ ",.]") "x"
        (.error (.inputExhausted 4)) := ⟨20, rfl⟩
    obtain ⟨-, -, h⟩ := answers_iff_unpaired ⟨3, 0⟩ "+[" "-+" ",.]" "x" (by decide)
    exact (((h (hbounded _ _)).2.1 _).mp hrun).2
  · have hrun : Machine.Answers ⟨3, 0⟩ .free ("[" ++ "+-" ++ "]]") ""
        (.error (.unmatched ⟨4, .closing⟩)) := ⟨0, rfl⟩
    obtain ⟨-, -, h⟩ := answers_iff_unpaired ⟨3, 0⟩ "[" "+-" "]]" "" (by decide)
    exact (((h (hbounded _ _)).2.1 _).mp hrun).2
  · obtain ⟨-, -, h⟩ := answers_iff_unpaired ⟨3, 0⟩ "+[" "<>" "]" "" (by decide)
    exact (h (hbounded _ _)).2.2.2

end Brainfuck
