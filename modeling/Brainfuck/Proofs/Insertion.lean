import Brainfuck.Proofs.Comments
import Brainfuck.Proofs.Rules

/-!
Programs with plain text inserted. Characters that are no brackets, put in at some place, leave the
brackets matched as they were: what stands behind the insertion has moved by its length, and both
scans pass over it. So a step outside the inserted text does the same in the program without it, at
the place that remains when the insertion is taken out.
-/

namespace Brainfuck

/-- The place in a text from which `width` characters at `start` are taken out. -/
def closeUp (start width i : Nat) : Nat :=
  if i ≤ start then i else i - width

/-- The place in a text with `width` characters put in at `start`. -/
def makeRoom (start width i : Nat) : Nat :=
  if i < start then i else i + width

/-- The place is none of the `width` that are taken out at `start`. -/
def Stays (start width i : Nat) : Prop :=
  i < start ∨ start + width ≤ i

section Places

variable {start width i j : Nat}

theorem closeUp_of_le (h : i ≤ start) : closeUp start width i = i :=
  if_pos h

theorem closeUp_add (h : start ≤ i) : closeUp start width (i + width) = i := by
  unfold closeUp
  split <;> omega

theorem makeRoom_of_lt (h : i < start) : makeRoom start width i = i :=
  if_pos h

theorem makeRoom_of_le (h : start ≤ i) : makeRoom start width i = i + width :=
  if_neg (Nat.not_lt_of_le h)

theorem stays_makeRoom (start width i : Nat) : Stays start width (makeRoom start width i) := by
  unfold Stays makeRoom
  split <;> omega

theorem closeUp_makeRoom (start width i : Nat) :
    closeUp start width (makeRoom start width i) = i := by
  by_cases h : i < start
  · rw [makeRoom_of_lt h, closeUp_of_le (Nat.le_of_lt h)]
  · rw [makeRoom_of_le (Nat.le_of_not_lt h), closeUp_add (Nat.le_of_not_lt h)]

theorem Stays.makeRoom_closeUp (h : Stays start width i) :
    makeRoom start width (closeUp start width i) = i := by
  cases h with
  | inl hlt => rw [closeUp_of_le (Nat.le_of_lt hlt), makeRoom_of_lt hlt]
  | inr hle =>
      obtain ⟨k, rfl⟩ := Nat.exists_eq_add_of_le' (Nat.le_of_add_left_le hle)
      rw [closeUp_add (by omega), makeRoom_of_le (by omega)]

theorem Stays.closeUp_succ (h : Stays start width i) :
    closeUp start width (i + 1) = closeUp start width i + 1 := by
  unfold Stays at h
  unfold closeUp
  split
  · rw [if_pos (by omega)]
  · split <;> omega

theorem Stays.succ (h : Stays start width i) : i + 1 = start ∨ Stays start width (i + 1) := by
  unfold Stays at *
  omega

theorem eq_of_closeUp_eq (hi : Stays start width i) (hj : Stays start width j)
    (h : closeUp start width i = closeUp start width j) : i = j := by
  rw [← hi.makeRoom_closeUp, ← hj.makeRoom_closeUp, h]

end Places

section Texts

variable {inserted : List Char} (hplain : ∀ c ∈ inserted, IsPlain c)
include hplain

theorem balancedFrom_plain_append (depth : Nat) (after : List Char) :
    balancedFrom depth (inserted ++ after) = balancedFrom depth after := by
  induction inserted with
  | nil => rfl
  | cons c l ih =>
      obtain ⟨hc, hl⟩ := List.forall_mem_cons.mp hplain
      rw [List.cons_append, balancedFrom_plain hc, ih hl]

theorem balancedFrom_insert (depth : Nat) (before after : List Char) :
    balancedFrom depth (before ++ (inserted ++ after)) = balancedFrom depth (before ++ after) :=
  balancedFrom_append_congr (fun d => balancedFrom_plain_append hplain d after) before depth

theorem unmatchedFrom?_plain_append (ip : Nat) (opened : List Nat) (after : List Char) :
    unmatchedFrom? ip opened (inserted ++ after) =
      unmatchedFrom? (ip + inserted.length) opened after := by
  induction inserted generalizing ip with
  | nil => rfl
  | cons c l ih =>
      obtain ⟨hc, hl⟩ := List.forall_mem_cons.mp hplain
      rw [List.cons_append, unmatchedFrom?_plain hc, ih hl, List.length_cons, Nat.add_assoc,
        Nat.add_comm 1]

end Texts

/-- Behind the insertion the locator blames the same bracket, further on. -/
theorem unmatchedFrom?_closeUp {start width ip : Nat} (hip : start ≤ ip) (opened : List Nat)
    (l : List Char) :
    unmatchedFrom? ip (opened.map (closeUp start width)) l =
      (unmatchedFrom? (ip + width) opened l).map
        fun u => ⟨closeUp start width u.ip, u.bracket⟩ := by
  induction l generalizing ip opened with
  | nil => cases opened <;> simp [unmatchedFrom?]
  | cons c l ih =>
      have hnext := @ih (ip + 1) (Nat.le_succ_of_le hip)
      rw [Nat.add_right_comm] at hnext
      rcases bracket_cases c with rfl | rfl | hc
      · rw [unmatchedFrom?, unmatchedFrom?, ← hnext, List.map_cons, closeUp_add hip]
      · cases opened with
        | nil => simp [unmatchedFrom?, closeUp_add hip]
        | cons outer opened => rw [List.map_cons, unmatchedFrom?, unmatchedFrom?, hnext]
      · rw [unmatchedFrom?_plain hc, unmatchedFrom?_plain hc, hnext]

theorem unmatchedFrom?_insert {inserted : List Char} (hplain : ∀ c ∈ inserted, IsPlain c)
    {start ip : Nat} {opened : List Nat} (before after : List Char)
    (hstart : start = ip + before.length) (hopened : ∀ i ∈ opened, i < start) :
    unmatchedFrom? ip opened (before ++ after) =
      (unmatchedFrom? ip opened (before ++ (inserted ++ after))).map
        fun u => ⟨closeUp start inserted.length u.ip, u.bracket⟩ := by
  induction before generalizing ip opened with
  | nil =>
      obtain rfl : start = ip := hstart
      have hsame : opened.map (closeUp start inserted.length) = opened := by
        rw [List.map_congr_left fun i hi => closeUp_of_le (Nat.le_of_lt (hopened i hi)),
          List.map_id']
      rw [List.nil_append, List.nil_append, unmatchedFrom?_plain_append hplain,
        ← unmatchedFrom?_closeUp (Nat.le_refl start), hsame]
  | cons c before ih =>
      rw [List.length_cons] at hstart
      have hnext : start = ip + 1 + before.length := by omega
      rw [List.cons_append, List.cons_append]
      rcases bracket_cases c with rfl | rfl | hc
      · rw [unmatchedFrom?, unmatchedFrom?]
        exact ih hnext (List.forall_mem_cons.mpr ⟨by omega, hopened⟩)
      · cases opened with
        | nil =>
            have hip : closeUp start inserted.length ip = ip := closeUp_of_le (by omega)
            rw [unmatchedFrom?, unmatchedFrom?, Option.map_some, hip]
        | cons outer opened =>
            rw [unmatchedFrom?, unmatchedFrom?]
            exact ih hnext (List.forall_mem_cons.mp hopened).2
      · rw [unmatchedFrom?_plain hc, unmatchedFrom?_plain hc]
        exact ih hnext hopened

/-- The error's place, if it has one, is none of those that are taken out. -/
def Error.Stays (start width : Nat) (e : Error) : Prop :=
  ∀ ip ∈ e.place?, Brainfuck.Stays start width ip

theorem Error.eq_of_mapPlace_closeUp {start width : Nat} {e e' : Error} (he : e.Stays start width)
    (he' : e'.Stays start width)
    (h : e.mapPlace (closeUp start width) = e'.mapPlace (closeUp start width)) : e = e' := by
  apply Error.eq_of_mapPlace_eq h
  intro i hi j hj
  exact eq_of_closeUp_eq (he i hi) (he' j hj)

/-- `p` is `q` with `width` characters put in at `start`, none of them a bracket. -/
structure Program.Inserted (start width : Nat) (p q : Program) : Prop where
  size : p.size = q.size + width
  inside : start ≤ q.size
  before : ∀ i < start, p[i]? = q[i]?
  behind : ∀ i, start ≤ i → p[i + width]? = q[i]?
  plain : ∀ i, start ≤ i → i < start + width → ∃ c, p[i]? = some c ∧ IsPlain c

namespace Program.Inserted

variable {start width : Nat} {p q : Program} (h : Inserted start width p q)
include h

theorem getElem?_closeUp {i : Nat} (hi : Stays start width i) :
    q[closeUp start width i]? = p[i]? := by
  cases hi with
  | inl hlt => rw [closeUp_of_le (Nat.le_of_lt hlt), h.before i hlt]
  | inr hle =>
      obtain ⟨k, rfl⟩ := Nat.exists_eq_add_of_le' (Nat.le_of_add_left_le hle)
      rw [closeUp_add (by omega), h.behind k (by omega)]

theorem stays_of_outside {i : Nat} (hi : p[i]? = none) : Stays start width i := by
  by_contra hgone
  unfold Stays at hgone
  obtain ⟨c, hc, -⟩ := h.plain i (by omega) (by omega)
  rw [hi] at hc
  cases hc

/-- Behind the insertion the forward scan is the one without it, further on. -/
theorem closeFrom?_behind (left : Nat) {i : Nat} (hi : start ≤ i) (depth : Nat) :
    p.closeFrom? left (i + width) depth =
      (q.closeFrom? left i depth).map (makeRoom start width) := by
  induction left generalizing i depth with
  | zero => rfl
  | succ left ih =>
      have hget := h.behind i hi
      have hnext := @ih (i + 1) (Nat.le_succ_of_le hi)
      rw [Nat.add_right_comm] at hnext
      cases hc : q[i]? with
      | none =>
          rw [hc] at hget
          simp only [closeFrom?, hc, hget, hnext]
      | some c =>
          rw [hc] at hget
          rcases bracket_cases c with rfl | rfl | hplain
          · rw [closeFrom?_open hget, closeFrom?_open hc, hnext]
          · cases depth with
            | zero =>
                rw [closeFrom?_found hget, closeFrom?_found hc, Option.map_some,
                  makeRoom_of_le hi]
            | succ depth => rw [closeFrom?_close hget, closeFrom?_close hc, hnext]
          · rw [closeFrom?_plain hget hplain, closeFrom?_plain hc hplain, hnext]

/-- The forward scan passes over what remains of the insertion. -/
theorem closeFrom?_inserted (left k : Nat) (hk : k ≤ width) (depth : Nat) :
    p.closeFrom? (k + left) (start + (width - k)) depth =
      p.closeFrom? left (start + width) depth := by
  induction k with
  | zero => rw [Nat.zero_add, Nat.sub_zero]
  | succ k ih =>
      obtain ⟨c, hc, hplain⟩ := h.plain (start + (width - (k + 1))) (by omega) (by omega)
      rw [Nat.add_right_comm, closeFrom?_plain hc hplain, ← ih (by omega)]
      congr 1
      omega

theorem closeFrom?_before (left k : Nat) {i : Nat} (hi : i + k = start) (depth : Nat) :
    p.closeFrom? (k + (width + left)) i depth =
      (q.closeFrom? (k + left) i depth).map (makeRoom start width) := by
  induction k generalizing i depth with
  | zero =>
      obtain rfl : i = start := by omega
      have hover := h.closeFrom?_inserted left width (Nat.le_refl _) depth
      rw [Nat.sub_self, Nat.add_zero] at hover
      rw [Nat.zero_add, Nat.zero_add, hover, h.closeFrom?_behind left (Nat.le_refl _)]
  | succ k ih =>
      have hget := h.before i (by omega)
      have hnext := @ih (i + 1) (by omega)
      obtain ⟨c, hc⟩ : ∃ c, q[i]? = some c := by
        have hinside := h.inside
        exact ⟨_, Array.getElem?_eq_getElem (by omega)⟩
      rw [hc] at hget
      rw [Nat.add_right_comm, Nat.add_right_comm k 1 left]
      rcases bracket_cases c with rfl | rfl | hplain
      · rw [closeFrom?_open hget, closeFrom?_open hc, hnext]
      · cases depth with
        | zero =>
            rw [closeFrom?_found hget, closeFrom?_found hc, Option.map_some,
              makeRoom_of_lt (by omega)]
        | succ depth => rw [closeFrom?_close hget, closeFrom?_close hc, hnext]
      · rw [closeFrom?_plain hget hplain, closeFrom?_plain hc hplain, hnext]

/-- A loop that opens outside the insertion closes outside it, at the place that remains. -/
theorem close?_eq {i : Nat} (hi : Stays start width i) :
    p.close? i = (q.close? (closeUp start width i)).map (makeRoom start width) := by
  have hsize := h.size
  have hinside := h.inside
  rw [close?, close?]
  cases hi with
  | inl hlt =>
      rw [closeUp_of_le (Nat.le_of_lt hlt)]
      have hscan :=
        h.closeFrom?_before (q.size - start) (start - (i + 1)) (i := i + 1) (by omega) 0
      rw [show start - (i + 1) + (width + (q.size - start)) = p.size - (i + 1) by omega,
        show start - (i + 1) + (q.size - start) = q.size - (i + 1) by omega] at hscan
      exact hscan
  | inr hle =>
      obtain ⟨k, rfl⟩ := Nat.exists_eq_add_of_le' (Nat.le_of_add_left_le hle)
      rw [closeUp_add (by omega), Nat.add_right_comm, ← h.closeFrom?_behind _ (by omega)]
      congr 1
      omega

theorem openBelow?_before {i : Nat} (hi : i ≤ start) (depth : Nat) :
    p.openBelow? i depth = (q.openBelow? i depth).map (makeRoom start width) := by
  induction i generalizing depth with
  | zero => rfl
  | succ i ih =>
      have hget := h.before i hi
      have hnext := ih (Nat.le_of_lt hi)
      cases hc : q[i]? with
      | none =>
          rw [hc] at hget
          simp only [openBelow?, hc, hget, hnext]
      | some c =>
          rw [hc] at hget
          rcases bracket_cases c with rfl | rfl | hplain
          · cases depth with
            | zero =>
                rw [openBelow?_found hget, openBelow?_found hc, Option.map_some,
                  makeRoom_of_lt hi]
            | succ depth => rw [openBelow?_open hget, openBelow?_open hc, hnext]
          · rw [openBelow?_close hget, openBelow?_close hc, hnext]
          · rw [openBelow?_plain hget hplain, openBelow?_plain hc hplain, hnext]

theorem openBelow?_inserted (k : Nat) (hk : k ≤ width) (depth : Nat) :
    p.openBelow? (start + k) depth = p.openBelow? start depth := by
  induction k with
  | zero => rfl
  | succ k ih =>
      obtain ⟨c, hc, hplain⟩ := h.plain (start + k) (by omega) (by omega)
      rw [← Nat.add_assoc, openBelow?_plain hc hplain, ih (by omega)]

theorem openBelow?_behind (k : Nat) (depth : Nat) :
    p.openBelow? (start + k + width) depth =
      (q.openBelow? (start + k) depth).map (makeRoom start width) := by
  induction k generalizing depth with
  | zero =>
      rw [Nat.add_zero, h.openBelow?_inserted width (Nat.le_refl _),
        h.openBelow?_before (Nat.le_refl _)]
  | succ k ih =>
      have hget := h.behind (start + k) (by omega)
      rw [← Nat.add_assoc, Nat.add_right_comm (start + k) 1 width]
      cases hc : q[start + k]? with
      | none =>
          rw [hc] at hget
          simp only [openBelow?, hc, hget, ih]
      | some c =>
          rw [hc] at hget
          rcases bracket_cases c with rfl | rfl | hplain
          · cases depth with
            | zero =>
                rw [openBelow?_found hget, openBelow?_found hc, Option.map_some,
                  makeRoom_of_le (by omega)]
            | succ depth => rw [openBelow?_open hget, openBelow?_open hc, ih]
          · rw [openBelow?_close hget, openBelow?_close hc, ih]
          · rw [openBelow?_plain hget hplain, openBelow?_plain hc hplain, ih]

/-- A loop that closes outside the insertion opens outside it, at the place that remains. -/
theorem open?_eq {i : Nat} (hi : Stays start width i) :
    p.open? i = (q.open? (closeUp start width i)).map (makeRoom start width) := by
  rw [open?, open?]
  cases hi with
  | inl hlt =>
      rw [closeUp_of_le (Nat.le_of_lt hlt), h.openBelow?_before (Nat.le_of_lt hlt)]
  | inr hle =>
      obtain ⟨k, rfl⟩ := Nat.exists_eq_add_of_le hle
      have hplace : start + width + k = start + k + width := by omega
      rw [hplace, closeUp_add (by omega), h.openBelow?_behind k]

end Program.Inserted

theorem Program.inserted_of_toList {p q : Program} {before inserted after : List Char}
    (hplain : ∀ c ∈ inserted, IsPlain c) (hp : p.toList = before ++ (inserted ++ after))
    (hq : q.toList = before ++ after) : p.Inserted before.length inserted.length q where
  size := by
    rw [← Array.length_toList, ← Array.length_toList, hp, hq]
    simp only [List.length_append]
    omega
  inside := by
    rw [← Array.length_toList, hq, List.length_append]
    exact Nat.le_add_right _ _
  before i hi := by
    rw [← Array.getElem?_toList, ← Array.getElem?_toList, hp, hq, List.getElem?_append_left hi,
      List.getElem?_append_left hi]
  behind i hi := by
    rw [← Array.getElem?_toList, ← Array.getElem?_toList, hp, hq,
      List.getElem?_append_right (by omega), List.getElem?_append_right (by omega),
      List.getElem?_append_right hi]
    congr 1
    omega
  plain i hi hlt := by
    have hin : i - before.length < inserted.length := by omega
    refine ⟨inserted[i - before.length], ?_, hplain _ (List.getElem_mem hin)⟩
    rw [← Array.getElem?_toList, hp, List.getElem?_append_right hi,
      List.getElem?_append_left hin, List.getElem?_eq_getElem hin]

/-- The state of the program without the insertion that belongs to a state. -/
def State.closedUp (start width : Nat) (s : State) : State :=
  s.placed (closeUp start width s.ip)

section Steps

variable {start width : Nat} {p q : Program} {s : State}

/-- What the two programs do from corresponding states: they go on to corresponding states, and
never into the midst of the insertion, or they fail alike. -/
def StepsAlike (start width : Nat) (s : State) (a a' : Attempt) : Prop :=
  (∃ (t : State) (action action' : Action), a = (t, .ok action) ∧
      a' = (t.closedUp start width, .ok action') ∧ (t.ip = start ∨ Stays start width t.ip)) ∨
    ∃ e : Error, a = s.fail e ∧ (∀ ip ∈ e.place?, ip = s.ip) ∧
      a' = (s.closedUp start width).fail (e.mapPlace (closeUp start width))

theorem StepsAlike.advance (hs : Stays start width s.ip) {t : State} (action : Action) :
    StepsAlike start width s (t.placed (s.ip + 1), .ok action)
      (t.placed (closeUp start width s.ip + 1), .ok action) := by
  refine .inl ⟨_, action, action, rfl, ?_, hs.succ⟩
  rw [← hs.closeUp_succ]
  rfl

theorem StepsAlike.enterOrSkip (h : p.Inserted start width q) (hs : Stays start width s.ip) :
    StepsAlike start width s (s.enterOrSkip p) ((s.closedUp start width).enterOrSkip q) := by
  have hclose := h.close?_eq hs
  by_cases hcell : s.cell = 0
  · have hcell' : (s.closedUp start width).cell = 0 := hcell
    rw [State.enterOrSkip, State.enterOrSkip, if_pos hcell, if_pos hcell']
    cases hq : q.close? (closeUp start width s.ip) with
    | none =>
        have hq' : q.close? (s.closedUp start width).ip = none := hq
        rw [hq, Option.map_none] at hclose
        rw [hclose, hq']
        exact .inr ⟨.unbalancedScan s.ip, rfl, by simp [Error.place?], rfl⟩
    | some j =>
        have hq' : q.close? (s.closedUp start width).ip = some j := hq
        rw [hq, Option.map_some] at hclose
        rw [hclose, hq']
        have hstays := stays_makeRoom start width j
        refine .inl ⟨_, _, .skippedLoop j, rfl, ?_, hstays.succ⟩
        simp only [State.closedUp, State.placed, hstays.closeUp_succ, closeUp_makeRoom]
  · have hcell' : (s.closedUp start width).cell ≠ 0 := hcell
    rw [State.enterOrSkip, State.enterOrSkip, if_neg hcell, if_neg hcell']
    exact .advance hs .enteredLoop

theorem StepsAlike.jumpBack (h : p.Inserted start width q) (hs : Stays start width s.ip) :
    StepsAlike start width s (s.jumpBack p) ((s.closedUp start width).jumpBack q) := by
  have hopen := h.open?_eq hs
  rw [State.jumpBack, State.jumpBack]
  cases hq : q.open? (closeUp start width s.ip) with
  | none =>
      have hq' : q.open? (s.closedUp start width).ip = none := hq
      rw [hq, Option.map_none] at hopen
      rw [hopen, hq']
      exact .inr ⟨.unbalancedScan s.ip, rfl, by simp [Error.place?], rfl⟩
  | some i =>
      have hq' : q.open? (s.closedUp start width).ip = some i := hq
      rw [hq, Option.map_some] at hopen
      rw [hopen, hq']
      refine .inl ⟨_, _, .jumpedBack i, rfl, ?_, .inr (stays_makeRoom start width i)⟩
      simp only [State.closedUp, State.placed, closeUp_makeRoom]

theorem stepsAlike (h : p.Inserted start width q) {c : Char} (hc : p[s.ip]? = some c)
    (hs : Stays start width s.ip) :
    StepsAlike start width s (step p s) (step q (s.closedUp start width)) := by
  have hc' : q[(s.closedUp start width).ip]? = some c := (h.getElem?_closeUp hs).trans hc
  rcases bracket_cases c with rfl | rfl | hplain
  · rw [step_of_instruction (i := .loopOpen) hc, step_of_instruction (i := .loopOpen) hc']
    exact .enterOrSkip h hs
  · rw [step_of_instruction (i := .loopClose) hc, step_of_instruction (i := .loopClose) hc']
    exact .jumpBack h hs
  · cases hi : isInstruction c with
    | false =>
        rw [(step_comment hc hi).1, (step_comment hc' hi).1]
        exact .advance hs .ignored
    | true =>
        rw [step_plain hc hplain, step_plain hc' hplain]
        rcases s.placeFree_perform hplain hi with ⟨t, action, -, hall⟩ | ⟨e, hall⟩
        · rw [show s.perform c = _ from hall s.ip,
            show (s.closedUp start width).perform c = _ from hall _]
          exact .advance hs action
        · refine .inr ⟨e.mapPlace fun _ => s.ip, hall s.ip, ?_, ?_⟩
          · rw [Error.place?_mapPlace]
            simp
          · rw [Error.mapPlace_mapPlace]
            exact hall _

end Steps
end Brainfuck
