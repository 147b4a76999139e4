import Brainfuck.Proofs.Rows
import Brainfuck.Proofs.Rules
import Brainfuck.Proofs.Steps
import Mathlib.Data.Int.ModEq

/-!
Where the head is. Every move brings the head back into the circle at once; what this leaves after
many moves is what one remainder of their sum leaves. So the position of the head is a matter of
the moves to the right less those to the left, whatever was executed between them and in whichever
order they came. Nothing is assumed of the program, whose brackets may be unmatched.

Main statement: the head stands on the cell of the net displacement. Of the same moves every order
ends on the same cell, and as many moves in one direction as the circle has cells end where they
began.
-/

namespace Brainfuck

/-- What bounding leaves on a circle, said without division: it is the one place of the circle that
differs from the number by whole turns. -/
theorem bound_eq_iff_modEq {boundary : Nat} (hpos : 0 < boundary) {n v : Int} :
    bound n boundary = v ↔
      0 ≤ v ∧ v < min boundary wordMax ∧ v ≡ n [ZMOD (min boundary wordMax : Nat)] := by
  constructor
  · rintro rfl
    obtain ⟨hnonneg, hlt⟩ := bound_of_pos hpos n
    refine ⟨hnonneg, hlt, ?_⟩
    rw [bound, if_neg (by omega)]
    exact Int.mod_modEq n _
  · rintro ⟨hnonneg, hlt, hmod⟩
    rw [bound, if_neg (by omega)]
    exact Eq.trans hmod.symm (Int.emod_eq_of_lt hnonneg (by omega))

theorem bound_add_mul {boundary : Nat} (hpos : 0 < boundary) (n turns : Int) :
    bound (n + (min boundary wordMax : Nat) * turns) boundary = bound n boundary := by
  rw [bound, bound, if_neg (by omega), if_neg (by omega)]
  exact Int.add_mul_emod_self_left n _ turns

/-- A character that moves the head. -/
def isMove (c : Char) : Bool :=
  c == '>' || c == '<'

/-- The moves to the right less the moves to the left. -/
def displacement (cs : List Char) : Int :=
  cs.count '>' - cs.count '<'

theorem displacement_append (cs ds : List Char) :
    displacement (cs ++ ds) = displacement cs + displacement ds := by
  simp only [displacement, List.count_append]
  omega

theorem displacement_cons (c : Char) (cs : List Char) :
    displacement (c :: cs) = displacement [c] + displacement cs :=
  displacement_append [c] cs

theorem displacement_of_not_isMove {c : Char} (h : isMove c = false) : displacement [c] = 0 := by
  simp only [isMove, Bool.or_eq_false_iff, beq_eq_false_iff_ne] at h
  simp [displacement, h.1, h.2]

theorem displacement_of_isMove {c : Char} (h : isMove c = true) :
    c = '>' ∧ displacement [c] = 1 ∨ c = '<' ∧ displacement [c] = -1 := by
  simp only [isMove, Bool.or_eq_true, beq_iff_eq] at h
  rcases h with rfl | rfl
  · exact .inl ⟨rfl, rfl⟩
  · exact .inr ⟨rfl, rfl⟩

/-- Only moves count. -/
theorem displacement_filter (cs : List Char) :
    displacement (cs.filter isMove) = displacement cs := by
  have hright : (cs.filter isMove).count '>' = cs.count '>' := List.count_filter rfl
  have hleft : (cs.filter isMove).count '<' = cs.count '<' := List.count_filter rfl
  rw [displacement, hright, hleft, displacement]

theorem displacement_perm {cs ds : List Char} (h : cs.Perm ds) :
    displacement cs = displacement ds := by
  rw [displacement, h.count_eq, h.count_eq, displacement]

theorem displacement_replicate (n : Nat) (c : Char) :
    displacement (List.replicate n c) = n * displacement [c] := by
  induction n with
  | zero => simp [displacement]
  | succ n ih =>
      rw [List.replicate_succ, displacement_cons, ih, Nat.cast_succ, Int.add_mul, Int.one_mul,
        Int.add_comm]

theorem fitsWord_displacement {cs : List Char} (h : cs.length ≤ wordMax) :
    fitsWord (displacement cs) = true := by
  have hright : cs.count '>' ≤ cs.length := List.count_le_length
  have hleft : cs.count '<' ≤ cs.length := List.count_le_length
  rw [fitsWord_iff, displacement]
  omega

/-- The characters that the first `n` steps execute, up to one that fails. -/
def executedFrom (p : Program) (n : Nat) (s : State) : List Char :=
  (rowsFrom p n 0 s).map Row.char

section Runs

variable {p : Program} {s t u : State} {k n : Nat} {c : Char}

theorem length_executedFrom (h : after? p n s = some t) : (executedFrom p n s).length = n := by
  rw [executedFrom, List.length_map, length_rowsFrom h]

theorem executedFrom_concat (h : after? p n s = some t) (hc : p[t.ip]? = some c)
    (hu : next? p t = some u) : executedFrom p (n + 1) s = executedFrom p n s ++ [c] := by
  obtain ⟨action, hstep⟩ := next?_eq_some_iff.mp hu
  rw [executedFrom, rowsFrom_concat h hc hstep, List.map_append]
  rfl

theorem State.Sound.stays (hs : s.Sound k) {cs : List Char} (h : displacement cs = 0) :
    bound (s.head + displacement cs) s.tape.size = s.head := by
  rw [h, Int.add_zero]
  exact hs.normal

/-- One step takes the head as far as its character says. -/
theorem head_next? (hs : s.Sound k) (hc : p[s.ip]? = some c) (h : next? p s = some t) :
    t.head = bound (s.head + displacement [c]) s.tape.size := by
  obtain ⟨action, hexec⟩ := next?_eq_some_iff_executes.mp h
  cases hexec with
  | move hc' hmove _ =>
      obtain rfl := Option.some.inj (hc.symm.trans hc')
      rcases hmove with ⟨rfl, rfl⟩ | ⟨rfl, rfl⟩
      all_goals rfl
  | change hc' hchange _ =>
      obtain rfl := Option.some.inj (hc.symm.trans hc')
      rcases hchange with ⟨rfl, -⟩ | ⟨rfl, -⟩
      all_goals exact (hs.stays rfl).symm
  | ignore hc' hignored =>
      obtain rfl := Option.some.inj (hc.symm.trans hc')
      cases hmove : isMove c with
      | false => exact (hs.stays (displacement_of_not_isMove hmove)).symm
      | true =>
          rcases displacement_of_isMove hmove with ⟨rfl, -⟩ | ⟨rfl, -⟩
          all_goals cases hignored
  | write hc' | read hc' _ _ | skip hc' _ _ | enter hc' _ | back hc' _ =>
      obtain rfl := Option.some.inj (hc.symm.trans hc')
      exact (hs.stays rfl).symm

/-- A run takes the head as far as all its characters say together. -/
theorem head_after? (hs : s.Sound k) (h : after? p n s = some t) :
    t.head = bound (s.head + displacement (executedFrom p n s)) s.tape.size := by
  have hbegin : s.head = bound (s.head + displacement (executedFrom p 0 s)) s.tape.size :=
    (hs.stays rfl).symm
  -- The remainder taken at every step is taken again at the next one, where it makes no difference.
  have hrun := after?_induction (fun n t => t.Sound (k + n) ∧ t.tape.size = s.tape.size ∧
    t.head = bound (s.head + displacement (executedFrom p n s)) s.tape.size)
    ⟨hs, rfl, hbegin⟩ ?_ h
  · exact hrun.2.2
  · rintro m t u ht hu ⟨hsound, hsize, hhead⟩
    obtain ⟨c, hc⟩ := exists_char_of_next? hu
    obtain ⟨hsound', hsize'⟩ := sound_next? hsound hu
    refine ⟨hsound', hsize'.trans hsize, ?_⟩
    rw [head_next? hsound hc hu, hsize, hhead, bound_bound_add, executedFrom_concat ht hc hu,
      displacement_append, Int.add_assoc]

theorem next?_of_isMove (hs : s.Sound k) (hc : p[s.ip]? = some c) (hmove : isMove c = true)
    (hk : s.tape.size = 0 → k < wordMax) :
    next? p s =
      some { s with head := bound (s.head + displacement [c]) s.tape.size, ip := s.ip + 1 } := by
  have hdelta := displacement_of_isMove hmove
  have hfits := hs.fits_move (hdelta.imp And.right And.right) hk
  exact next?_eq_some_iff_executes.mpr ⟨_, .move hc hdelta hfits⟩

/-- A stretch of moves is gone through to its end, and nothing but the place and the head is changed
on the way. -/
theorem after?_moves {moves : List Char} (hs : s.Sound k) (hmoves : ∀ c ∈ moves, isMove c = true)
    (hspells : p.Spells s.ip moves) (hk : s.tape.size = 0 → k + moves.length ≤ wordMax) :
    after? p moves.length s =
      some { s with
        head := bound (s.head + displacement moves) s.tape.size, ip := s.ip + moves.length } := by
  induction moves generalizing s k with
  | nil =>
      rw [hs.stays rfl]
      rfl
  | cons c moves ih =>
      rw [List.length_cons] at hk
      have hfirst : s.tape.size = 0 → k < wordMax := by
        intro hsize
        have hlength := hk hsize
        omega
      have hleft : s.tape.size = 0 → k + 1 + moves.length ≤ wordMax := by
        intro hsize
        have hlength := hk hsize
        omega
      have hnext := next?_of_isMove hs hspells.1 (hmoves c (List.mem_cons_self ..)) hfirst
      have hrest := ih (sound_next? hs hnext).1
        (fun d hd => hmoves d (List.mem_cons_of_mem c hd)) hspells.2 hleft
      have hhead : bound (bound (s.head + displacement [c]) s.tape.size + displacement moves)
          s.tape.size = bound (s.head + displacement (c :: moves)) s.tape.size := by
        rw [bound_bound_add, displacement_cons c moves, Int.add_assoc]
      have hip : s.ip + 1 + moves.length = s.ip + (moves.length + 1) := by omega
      dsimp only at hrest
      rw [hhead, hip] at hrest
      exact after?_cons hnext hrest

/-- A full turn in one direction comes back to where it began. -/
theorem State.Sound.bound_turn (hs : s.Sound k) (hsize : 0 < s.tape.size) (c : Char) :
    bound (s.head + displacement (List.replicate (min s.tape.size wordMax) c)) s.tape.size =
      s.head := by
  rw [displacement_replicate, bound_add_mul hsize]
  exact hs.normal

theorem after?_turn (hs : s.Sound k) (hsize : 0 < s.tape.size) (hmove : isMove c = true)
    (hspells : p.Spells s.ip (List.replicate (min s.tape.size wordMax) c)) :
    after? p (min s.tape.size wordMax) s =
      some { s with ip := s.ip + min s.tape.size wordMax } := by
  have hmoves : ∀ d ∈ List.replicate (min s.tape.size wordMax) c, isMove d = true := by
    intro d hd
    rw [List.eq_of_mem_replicate hd]
    exact hmove
  have hrun := after?_moves hs hmoves hspells (fun hzero => by omega)
  rw [hs.bound_turn hsize, List.length_replicate] at hrun
  exact hrun

theorem head_eq_of_turn (hs : s.Sound k) (hsize : 0 < s.tape.size) (h : after? p n s = some t)
    (hmoves : (executedFrom p n s).filter isMove = List.replicate (min s.tape.size wordMax) c) :
    t.head = s.head := by
  rw [head_after? hs h, ← displacement_filter, hmoves, hs.bound_turn hsize]

theorem head_eq_of_perm {p' : Program} {s' t' : State} {k' n' : Nat} (hs : s.Sound k)
    (hs' : s'.Sound k') (hsize : s.tape.size = s'.tape.size) (hhead : s.head = s'.head)
    (h : after? p n s = some t) (h' : after? p' n' s' = some t')
    (hmoves : ((executedFrom p n s).filter isMove).Perm
      ((executedFrom p' n' s').filter isMove)) : t.head = t'.head := by
  have hsum := displacement_perm hmoves
  rw [displacement_filter, displacement_filter] at hsum
  rw [head_after? hs h, head_after? hs' h', hsize, hhead, hsum]

end Runs

/-- `n` steps of the program, on a tape of that size and on some input, lead to the state. -/
def Reached (size : Nat) (p : Program) (n : Nat) (s : State) : Prop :=
  ∃ input, after? p n (.initial size input) = some s

theorem Reached.sound {size n : Nat} {p : Program} {s : State} (h : Reached size p n s) :
    s.Sound n ∧ s.tape.size = size := by
  obtain ⟨input, hafter⟩ := h
  exact sound_after? hafter

/-- The head depends on the net displacement alone. A boundary of zero leaves a number as it is, any
other brings it to the one place of the circle that is congruent to it. After any steps the head
is where the boundary of its tape brings the moves to the right less those to the left, and this
number fits in a word if the number of steps does. So the same moves end on the same cell in every
order, whatever else is executed between them; a stretch of moves is gone through to its end; and as
many moves in one direction as the circle has cells end on the cell where they began. -/
theorem head_follows_displacement (size : Nat) :
    (∀ n : Int, bound n 0 = n ∧ ∀ boundary : Nat, 0 < boundary → ∀ v, bound n boundary = v ↔
      0 ≤ v ∧ v < min boundary wordMax ∧ v ≡ n [ZMOD (min boundary wordMax : Nat)]) ∧
    (∀ p input n t, after? p n (.initial size input) = some t →
      t.head = bound (displacement (executedFrom p n (.initial size input))) size ∧
      (n ≤ wordMax → fitsWord (displacement (executedFrom p n (.initial size input))) = true)) ∧
    (∀ p p' n n' s s', Reached size p n s → Reached size p' n' s' → s.head = s'.head →
      ∀ m m' t t', after? p m s = some t → after? p' m' s' = some t' →
        ((executedFrom p m s).filter isMove).Perm ((executedFrom p' m' s').filter isMove) →
          t.head = t'.head) ∧
    (∀ p n s, Reached size p n s → ∀ moves, (∀ c ∈ moves, isMove c = true) →
      p.Spells s.ip moves → (size = 0 → n + moves.length ≤ wordMax) →
        after? p moves.length s =
          some { s with
            head := bound (s.head + displacement moves) size, ip := s.ip + moves.length }) ∧
    (0 < size → ∀ p n s, Reached size p n s → ∀ c, isMove c = true →
      (p.Spells s.ip (List.replicate (min size wordMax) c) →
        after? p (min size wordMax) s = some { s with ip := s.ip + min size wordMax }) ∧
      ∀ m t, after? p m s = some t →
        (executedFrom p m s).filter isMove = List.replicate (min size wordMax) c →
          t.head = s.head) := by
  refine ⟨fun n => ⟨if_pos rfl, fun _ hpos _ => bound_eq_iff_modEq hpos⟩, ?_, ?_, ?_, ?_⟩
  · intro p input n t h
    refine ⟨?_, ?_⟩
    · rw [head_after? (State.sound_initial size input) h, State.initial, Int.zero_add]
      rfl
    · intro hn
      apply fitsWord_displacement
      rw [length_executedFrom h]
      exact hn
  · intro p p' n n' s s' hs hs' hhead m m' t t' h h' hmoves
    have hsize := hs.sound.2.trans hs'.sound.2.symm
    exact head_eq_of_perm hs.sound.1 hs'.sound.1 hsize hhead h h' hmoves
  · intro p n s hs moves hmoves hspells hn
    obtain ⟨hsound, rfl⟩ := hs.sound
    exact after?_moves hsound hmoves hspells hn
  · intro hpos p n s hs c hmove
    obtain ⟨hsound, rfl⟩ := hs.sound
    exact ⟨after?_turn hsound hpos hmove, fun m t => head_eq_of_turn hsound hpos⟩

/-- Left of the first cell of the largest tape; two orders of the same moves, one of them in a loop;
moves past the first cell of the unbounded tape; a full turn from the last cell of a circle, and one
with other instructions in between. -/
theorem head_follows_displacement_around :
    (∃ t, after? (.ofString "<<>") 3 (.initial 18446744073709551615 []) = some t ∧
      t.head = 9223372036854775806 ∧ fitsWord (-1) = true) ∧
    (∃ t t', after? (.ofString "+[>]<") 6 (.initial 3 []) = some t ∧
      after? (.ofString "<>]") 2 (.initial 3 []) = some t' ∧ t.head = t'.head) ∧
    after? (.ofString "><<") 3 (.initial 0 []) =
      some { State.initial 0 [] with head := -1, ip := 3 } ∧
    (∃ s, after? (.ofString "<+>>>") 2 (.initial 3 []) = some s ∧ s.head = 2 ∧
      after? (.ofString "<+>>>") 3 s = some { s with ip := 5 }) ∧
    ∃ t, after? (.ofString "<.<+<]") 5 (.initial 3 []) = some t ∧ t.head = 0 := by
  refine ⟨⟨_, rfl, ?_, ?_⟩, ⟨_, _, rfl, rfl, ?_⟩, ?_, ⟨_, rfl, rfl, ?_⟩, ⟨_, rfl, ?_⟩⟩
  · rw [((head_follows_displacement 18446744073709551615).2.1 (.ofString "<<>") [] 3 _ rfl).1]
    exact (((head_follows_displacement 0).1 _).2 18446744073709551615 (by decide) _).mpr
      ⟨by decide, by decide, by decide⟩
  · exact ((head_follows_displacement 18446744073709551615).2.1 (.ofString "<<>") [] 3 _ rfl).2
      (by decide)
  · exact (head_follows_displacement 3).2.2.1 (.ofString "+[>]<") (.ofString "<>]") 0 0 _ _
      ⟨[], rfl⟩ ⟨[], rfl⟩ rfl 6 2 _ _ rfl rfl (.swap '<' '>' [])
  · exact (head_follows_displacement 0).2.2.2.1 (.ofString "><<") 0 _ ⟨[], rfl⟩ ['>', '<', '<']
      (by simp [isMove]) ⟨rfl, rfl, rfl, trivial⟩ (by decide)
  · exact ((head_follows_displacement 3).2.2.2.2 (by decide) (.ofString "<+>>>") 2 _ ⟨[], rfl⟩ '>'
      rfl).1 ⟨rfl, rfl, rfl, trivial⟩
  · exact ((head_follows_displacement 3).2.2.2.2 (by decide) (.ofString "<.<+<]") 0 _ ⟨[], rfl⟩ '<'
      rfl).2 5 _ rfl rfl

end Brainfuck
