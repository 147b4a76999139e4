import Brainfuck.Instruction
import Brainfuck.Proofs.Scans

/-!
Programs without their comments. Stripping keeps the characters that spell an instruction, and
the rank of a position is the number of those before it: where its character stands afterwards.
Stripping a balanced text leaves it balanced, it strips the body of every loop, and the bracket
to blame for an unbalanced text is the same one at its rank.
-/

namespace Brainfuck

/-- The characters that are code; all others are comments. -/
def codeChars : List Char :=
  ['>', '<', '+', '-', '.', ',', '[', ']']

/-- The text without its comments. -/
def strip (l : List Char) : List Char :=
  l.filter (· ∈ codeChars)

/-- Number of instructions before a position. -/
def rank (l : List Char) (i : Nat) : Nat :=
  (strip (l.take i)).length

/-- The machine reads just these characters as instructions. -/
theorem mem_codeChars_iff {c : Char} : c ∈ codeChars ↔ isInstruction c = true := by
  unfold isInstruction Instruction.ofChar?
  split
  case h_9 hright hleft hup hdown hwrite hread hopen hclose =>
    simpa [codeChars] using ⟨hright, hleft, hup, hdown, hwrite, hread, hopen, hclose⟩
  all_goals simp [codeChars]

theorem strip_eq_filter (l : List Char) : strip l = l.filter isInstruction := by
  apply List.filter_congr
  intro c _
  rw [Bool.eq_iff_iff, decide_eq_true_iff, mem_codeChars_iff]

theorem strip_append (l₁ l₂ : List Char) : strip (l₁ ++ l₂) = strip l₁ ++ strip l₂ :=
  List.filter_append l₁ l₂

theorem strip_cons_of_instruction {c : Char} (hc : isInstruction c = true) (l : List Char) :
    strip (c :: l) = c :: strip l := by
  rw [strip_eq_filter, strip_eq_filter, List.filter_cons_of_pos hc]

theorem strip_cons_of_comment {c : Char} (hc : isInstruction c = false) (l : List Char) :
    strip (c :: l) = strip l := by
  rw [strip_eq_filter, strip_eq_filter, List.filter_cons_of_neg (by simp [hc])]

theorem length_strip_concat_of_instruction {c : Char} (hc : isInstruction c = true)
    (l : List Char) : (strip (l ++ [c])).length = (strip l).length + 1 := by
  rw [strip_append, strip_cons_of_instruction hc, List.length_append]
  rfl

theorem length_strip_concat_of_comment {c : Char} (hc : isInstruction c = false)
    (l : List Char) : (strip (l ++ [c])).length = (strip l).length := by
  rw [strip_append, strip_cons_of_comment hc, List.length_append]
  rfl

theorem isInstruction_open : isInstruction '[' = true :=
  rfl

theorem isInstruction_close : isInstruction ']' = true :=
  rfl

theorem rank_of_length_le {l : List Char} {i : Nat} (h : l.length ≤ i) :
    rank l i = (strip l).length := by
  rw [rank, List.take_of_length_le h]

theorem rank_append_length (before after : List Char) :
    rank (before ++ after) before.length = (strip before).length := by
  rw [rank, List.take_left]

theorem rank_succ_of_instruction {l : List Char} {i : Nat} {c : Char} (h : l[i]? = some c)
    (hc : isInstruction c = true) : rank l (i + 1) = rank l i + 1 := by
  simp [rank, strip_eq_filter, List.take_add_one, h, hc]

theorem rank_succ_of_comment {l : List Char} {i : Nat} {c : Char} (h : l[i]? = some c)
    (hc : isInstruction c = false) : rank l (i + 1) = rank l i := by
  simp [rank, strip_eq_filter, List.take_add_one, h, hc]

theorem rank_mono (l : List Char) {i j : Nat} (h : i ≤ j) : rank l i ≤ rank l j := by
  apply List.Sublist.length_le
  apply List.Sublist.filter
  exact (List.take_prefix_take_left h).sublist

theorem rank_lt {l : List Char} {i j : Nat} {c : Char} (hi : l[i]? = some c)
    (hc : isInstruction c = true) (h : i < j) : rank l i < rank l j := by
  have hmono := rank_mono l h
  rw [rank_succ_of_instruction hi hc] at hmono
  exact hmono

theorem rank_injective {l : List Char} {i j : Nat} {c d : Char} (hi : l[i]? = some c)
    (hc : isInstruction c = true) (hj : l[j]? = some d) (hd : isInstruction d = true)
    (h : rank l i = rank l j) : i = j := by
  rcases Nat.lt_trichotomy i j with hlt | heq | hlt
  · have := rank_lt hi hc hlt
    omega
  · exact heq
  · have := rank_lt hj hd hlt
    omega

theorem getElem?_strip_rank {l : List Char} {i : Nat} {c : Char} (h : l[i]? = some c)
    (hc : isInstruction c = true) : (strip l)[rank l i]? = some c := by
  obtain ⟨hi, rfl⟩ := List.getElem?_eq_some_iff.mp h
  have hstrip : strip l = strip (l.take i) ++ l[i] :: strip (l.drop (i + 1)) :=
    calc strip l = strip (l.take i ++ l[i] :: l.drop (i + 1)) := by
          rw [List.getElem_cons_drop, List.take_append_drop]
      _ = strip (l.take i) ++ l[i] :: strip (l.drop (i + 1)) := by
          rw [strip_append, strip_cons_of_instruction hc]
  rw [hstrip, rank]
  simp

theorem balancedFrom_strip (depth : Nat) (l : List Char) :
    balancedFrom depth (strip l) = balancedFrom depth l := by
  induction l generalizing depth with
  | nil => rfl
  | cons c l ih =>
      rcases bracket_cases c with rfl | rfl | hc
      · rw [strip_cons_of_instruction isInstruction_open, balancedFrom_open, balancedFrom_open, ih]
      · rw [strip_cons_of_instruction isInstruction_close]
        cases depth with
        | zero => rw [balancedFrom_close_zero, balancedFrom_close_zero]
        | succ depth => rw [balancedFrom_close, balancedFrom_close, ih]
      · rw [balancedFrom_plain hc]
        cases hi : isInstruction c with
        | true => rw [strip_cons_of_instruction hi, balancedFrom_plain hc, ih]
        | false => rw [strip_cons_of_comment hi, ih]

theorem balanced_strip (l : List Char) : balanced (strip l) = balanced l :=
  balancedFrom_strip 0 l

/-- The locator blames the same bracket in the stripped text. The text is split at the place
reached, so that the ranks of the open loops refer to the whole of it. -/
theorem unmatchedFrom?_strip (before after : List Char) (opened : List Nat) :
    unmatchedFrom? (strip before).length (opened.map (rank (before ++ after))) (strip after) =
      (unmatchedFrom? before.length opened after).map
        fun u => ⟨rank (before ++ after) u.ip, u.bracket⟩ := by
  induction after generalizing before opened with
  | nil => cases opened <;> simp [strip, unmatchedFrom?]
  | cons c after ih =>
      have hrank := rank_append_length before (c :: after)
      have hnext := ih (before ++ [c])
      rw [List.append_assoc, List.singleton_append, List.length_append] at hnext
      rcases bracket_cases c with rfl | rfl | hc
      · have hopen := hnext (before.length :: opened)
        rw [length_strip_concat_of_instruction isInstruction_open, List.map_cons, hrank] at hopen
        rw [strip_cons_of_instruction isInstruction_open, unmatchedFrom?, unmatchedFrom?, hopen]
        rfl
      · rw [length_strip_concat_of_instruction isInstruction_close] at hnext
        rw [strip_cons_of_instruction isInstruction_close]
        cases opened with
        | nil => simp [unmatchedFrom?, hrank]
        | cons outer opened =>
            rw [List.map_cons, unmatchedFrom?, unmatchedFrom?, hnext]
            rfl
      · rw [unmatchedFrom?_plain hc]
        cases hi : isInstruction c with
        | true =>
            rw [length_strip_concat_of_instruction hi] at hnext
            rw [strip_cons_of_instruction hi, unmatchedFrom?_plain hc, hnext]
            rfl
        | false =>
            rw [length_strip_concat_of_comment hi] at hnext
            rw [strip_cons_of_comment hi, hnext]
            rfl

theorem unmatched?_strip (l : List Char) :
    unmatched? (strip l) = (unmatched? l).map fun u => ⟨rank l u.ip, u.bracket⟩ :=
  unmatchedFrom?_strip [] l []

def Bracket.char : Bracket → Char
  | .opening => '['
  | .closing => ']'

theorem Bracket.isInstruction_char (b : Bracket) : isInstruction b.char = true := by
  cases b <;> rfl

theorem getElem?_unmatchedFrom? (before after : List Char) {opened : List Nat} {u : Unmatched}
    (hopened : ∀ i ∈ opened, (before ++ after)[i]? = some '[')
    (h : unmatchedFrom? before.length opened after = some u) :
    (before ++ after)[u.ip]? = some u.bracket.char := by
  induction after generalizing before opened with
  | nil =>
      rw [unmatchedFrom?, Option.map_eq_some_iff] at h
      obtain ⟨i, hi, rfl⟩ := h
      exact hopened i (List.mem_of_head? hi)
  | cons c after ih =>
      have hhere : (before ++ c :: after)[before.length]? = some c := by simp
      have hnext := @ih (before ++ [c])
      rw [List.append_assoc, List.singleton_append, List.length_append] at hnext
      rcases bracket_cases c with rfl | rfl | hc
      · rw [unmatchedFrom?] at h
        exact hnext (List.forall_mem_cons.mpr ⟨hhere, hopened⟩) h
      · cases opened with
        | nil =>
            rw [unmatchedFrom?] at h
            cases h
            exact hhere
        | cons outer opened =>
            rw [unmatchedFrom?] at h
            exact hnext (List.forall_mem_cons.mp hopened).2 h
      · rw [unmatchedFrom?_plain hc] at h
        exact hnext hopened h

theorem getElem?_unmatched? {l : List Char} {u : Unmatched} (h : unmatched? l = some u) :
    l[u.ip]? = some u.bracket.char :=
  getElem?_unmatchedFrom? [] l (by simp) h

def Block.strip : Block → Block
  | done => done
  | leaf c plain rest => if isInstruction c then leaf c plain rest.strip else rest.strip
  | loop body rest => loop body.strip rest.strip

theorem Block.text_strip (b : Block) : b.strip.text = Brainfuck.strip b.text := by
  induction b with
  | done => rfl
  | leaf c plain rest ih =>
      cases hc : isInstruction c with
      | true => simp only [Block.strip, hc, if_true, text, strip_cons_of_instruction hc, ih]
      | false =>
          rw [text, strip_cons_of_comment hc, ← ih, Block.strip, hc]
          rfl
  | loop body rest ihb ihr =>
      rw [Block.strip, text, text, strip_cons_of_instruction isInstruction_open, strip_append,
        strip_cons_of_instruction isInstruction_close, ihb, ihr]

namespace Program

def strip (p : Program) : Program :=
  (Brainfuck.strip p.toList).toArray

theorem getElem?_strip {p : Program} {i : Nat} {c : Char} (h : p[i]? = some c)
    (hc : isInstruction c = true) : p.strip[rank p.toList i]? = some c := by
  rw [← Array.getElem?_toList] at h
  simpa [strip] using getElem?_strip_rank h hc

theorem getElem?_strip_outside {p : Program} {i : Nat} (h : p[i]? = none) :
    p.strip[rank p.toList i]? = none := by
  have hlength : p.toList.length ≤ i := Array.getElem?_eq_none_iff.mp h
  rw [rank_of_length_le hlength]
  simp [strip]

theorem spells_strip {p : Program} {i : Nat} {l : List Char} (h : p.Spells i l) :
    p.strip.Spells (rank p.toList i) (Brainfuck.strip l) ∧
      rank p.toList (i + l.length) = rank p.toList i + (Brainfuck.strip l).length := by
  induction l generalizing i with
  | nil => exact ⟨trivial, rfl⟩
  | cons c l ih =>
      obtain ⟨hc, hrest⟩ := h
      have hlist : p.toList[i]? = some c := by rwa [Array.getElem?_toList]
      obtain ⟨hspells, hrank⟩ := ih hrest
      rw [Nat.add_right_comm] at hrank
      cases hi : isInstruction c with
      | true =>
          rw [rank_succ_of_instruction hlist hi] at hspells hrank
          rw [strip_cons_of_instruction hi]
          refine ⟨⟨getElem?_strip hc hi, hspells⟩, ?_⟩
          rw [List.length_cons, List.length_cons, ← Nat.add_assoc, hrank]
          omega
      | false =>
          rw [rank_succ_of_comment hlist hi] at hspells hrank
          rw [strip_cons_of_comment hi]
          exact ⟨hspells, hrank⟩

end Program
end Brainfuck
