import Brainfuck.Proofs.Blocks

/-!
The grammar of balanced texts, and the place where a text leaves it. The check is one reading of
the text with a counter, the locator one with the positions of the open loops, and the grammar
knows neither. Counting brackets joins them: with some loops open, a text closes them all exactly
when no part of it from the left closes more than there is to close, and the whole closes as many.

Main statement: the check accepts the texts of the grammar and no others, and the bracket that the
locator blames is the one before which the text is in the grammar, or else the one behind which it
is.
-/

namespace Brainfuck

/-- The texts derived by `S → ε | c S | [ S ] S`, where `c` is no bracket. -/
inductive Derivable : List Char → Prop where
  | empty : Derivable []
  | plain {c : Char} {rest : List Char} : IsPlain c → Derivable rest → Derivable (c :: rest)
  | loop {body rest : List Char} : Derivable body → Derivable rest →
      Derivable ('[' :: (body ++ ']' :: rest))

theorem Block.derivable_text (b : Block) : Derivable b.text := by
  induction b with
  | done => exact .empty
  | leaf c plain rest ih => exact .plain plain ih
  | loop body rest ihb ihr => exact .loop ihb ihr

theorem Derivable.exists_block {l : List Char} (h : Derivable l) : ∃ b : Block, b.text = l := by
  induction h with
  | empty => exact ⟨.done, rfl⟩
  | plain hc _ ih =>
      obtain ⟨b, hb⟩ := ih
      exact ⟨.leaf _ hc b, by rw [Block.text, hb]⟩
  | loop _ _ ihb ihr =>
      obtain ⟨body, hbody⟩ := ihb
      obtain ⟨rest, hrest⟩ := ihr
      exact ⟨.loop body rest, by rw [Block.text, hbody, hrest]⟩

theorem balanced_iff_derivable (l : List Char) : balanced l = true ↔ Derivable l := by
  rw [Block.balanced_iff_exists_parse?]
  constructor
  · intro h
    obtain ⟨b, hb⟩ := h
    rw [← Block.text_of_parse? hb]
    exact b.derivable_text
  · intro h
    obtain ⟨b, hb⟩ := h.exists_block
    exact ⟨b, Block.parse?_eq_some_iff.mpr hb⟩

/-- With `depth` loops open, no part of the text from its left end has more closing brackets than
there are loops to close. -/
def ClosesOpened (depth : Nat) (l : List Char) : Prop :=
  ∀ part, part <+: l → part.count ']' ≤ depth + part.count '['

theorem closesOpened_nil (depth : Nat) : ClosesOpened depth [] := by
  intro part hpart
  rw [List.prefix_nil.mp hpart]
  exact Nat.zero_le _

/-- A prefix of a text is empty or starts with its first character. -/
theorem closesOpened_cons (depth : Nat) (c : Char) (l : List Char) :
    ClosesOpened depth (c :: l) ↔
      ∀ part, part <+: l → (c :: part).count ']' ≤ depth + (c :: part).count '[' := by
  constructor
  · intro h part hpart
    exact h (c :: part) ((List.prefix_cons_inj c).mpr hpart)
  · intro h part hpart
    cases List.prefix_cons_iff.mp hpart with
    | inl hempty =>
        rw [hempty]
        exact Nat.zero_le _
    | inr hcons =>
        obtain ⟨rest, hpart, hrest⟩ := hcons
        rw [hpart]
        exact h rest hrest

theorem closesOpened_open (depth : Nat) (l : List Char) :
    ClosesOpened depth ('[' :: l) ↔ ClosesOpened (depth + 1) l := by
  rw [closesOpened_cons]
  simp [ClosesOpened, Nat.add_right_comm depth 1, Nat.add_assoc depth]

theorem closesOpened_close (depth : Nat) (l : List Char) :
    ClosesOpened (depth + 1) (']' :: l) ↔ ClosesOpened depth l := by
  rw [closesOpened_cons]
  simp [ClosesOpened, Nat.add_right_comm depth 1]

theorem not_closesOpened_close (l : List Char) : ¬ ClosesOpened 0 (']' :: l) := by
  intro h
  have hfirst := (closesOpened_cons 0 ']' l).mp h [] List.nil_prefix
  simp at hfirst

theorem count_bracket_plain {c : Char} (hc : IsPlain c) (l : List Char) :
    (c :: l).count ']' = l.count ']' ∧ (c :: l).count '[' = l.count '[' :=
  ⟨List.count_cons_of_ne hc.2, List.count_cons_of_ne hc.1⟩

theorem closesOpened_plain {c : Char} (hc : IsPlain c) (depth : Nat) (l : List Char) :
    ClosesOpened depth (c :: l) ↔ ClosesOpened depth l := by
  rw [closesOpened_cons]
  simp only [ClosesOpened, count_bracket_plain hc]

theorem balancedFrom_iff_counts (depth : Nat) (l : List Char) :
    balancedFrom depth l = true ↔
      ClosesOpened depth l ∧ l.count ']' = depth + l.count '[' := by
  induction l generalizing depth with
  | nil =>
      cases depth with
      | zero => simp [balancedFrom, closesOpened_nil]
      | succ depth => simp [balancedFrom]
  | cons c l ih =>
      rcases bracket_cases c with rfl | rfl | hc
      · rw [balancedFrom_open, ih, closesOpened_open]
        simp [Nat.add_right_comm depth 1, Nat.add_assoc depth]
      · cases depth with
        | zero => simp [balancedFrom_close_zero, not_closesOpened_close]
        | succ depth =>
            rw [balancedFrom_close, ih, closesOpened_close]
            simp [Nat.add_right_comm depth 1]
      · rw [balancedFrom_plain hc, ih, closesOpened_plain hc]
        simp only [count_bracket_plain hc]

/-- A closing bracket is blamed when what is read before it has closed all open loops. -/
theorem unmatchedFrom?_eq_closing_iff (ip : Nat) (opened : List Nat) (l : List Char) (i : Nat) :
    unmatchedFrom? ip opened l = some ⟨i, .closing⟩ ↔
      ∃ k, ip + k = i ∧ l[k]? = some ']' ∧ balancedFrom opened.length (l.take k) = true := by
  induction l generalizing ip opened with
  | nil => cases opened <;> simp [unmatchedFrom?]
  | cons c l ih =>
      have hplace (k : Nat) : ip + 1 + k = ip + (k + 1) := Nat.add_right_comm ip 1 k
      -- Either the first character is meant, or the rest is read from the next position on.
      rw [← Nat.or_exists_add_one]
      rcases bracket_cases c with rfl | rfl | hc
      · rw [unmatchedFrom?, ih]
        simp [balancedFrom_open, hplace]
      · cases opened with
        | nil => simp [unmatchedFrom?, balancedFrom_close_zero, balancedFrom]
        | cons outer opened =>
            rw [unmatchedFrom?, ih]
            simp [balancedFrom_close, balancedFrom, hplace]
      · rw [unmatchedFrom?_plain hc, ih]
        simp [balancedFrom_plain hc, hc.2, hplace]

/-- An opening bracket is blamed when what is read behind it closes all loops opened there, so that
it is the innermost one left: it stands in the text, or it is one of the loops open from before and
the text closes all those further in. -/
theorem unmatchedFrom?_eq_opening_iff (ip : Nat) (opened : List Nat) (l : List Char) (i : Nat) :
    unmatchedFrom? ip opened l = some ⟨i, .opening⟩ ↔
      ClosesOpened opened.length l ∧
        ((∃ k, ip + k = i ∧ l[k]? = some '[' ∧ balanced (l.drop (k + 1)) = true) ∨
          ∃ j, opened[j]? = some i ∧ balancedFrom j l = true) := by
  induction l generalizing ip opened with
  | nil =>
      rw [← Nat.or_exists_add_one (p := fun j => opened[j]? = some i ∧ _)]
      cases opened <;> simp [unmatchedFrom?, closesOpened_nil, balancedFrom]
  | cons c l ih =>
      have hplace (k : Nat) : ip + 1 + k = ip + (k + 1) := Nat.add_right_comm ip 1 k
      rw [← Nat.or_exists_add_one (p := fun k => ip + k = i ∧ _)]
      rcases bracket_cases c with rfl | rfl | hc
      · rw [unmatchedFrom?, ih, ← Nat.or_exists_add_one (p := fun j => (ip :: opened)[j]? = _ ∧ _)]
        simp [balancedFrom_open, closesOpened_open, balanced, hplace, or_assoc, or_left_comm]
      · cases opened with
        | nil => simp [unmatchedFrom?, not_closesOpened_close]
        | cons outer opened =>
            rw [unmatchedFrom?, ih,
              ← Nat.or_exists_add_one (p := fun j => (outer :: opened)[j]? = _ ∧ _)]
            simp [balancedFrom_close, closesOpened_close, hplace, balancedFrom_close_zero]
      · rw [unmatchedFrom?_plain hc, ih]
        simp [balancedFrom_plain hc, closesOpened_plain hc, hc.1, hplace]

/-- The bracket check is the grammar, and the locator is exact. A text passes the check exactly when
it is derived by the grammar, and exactly then no bracket is blamed. A closing bracket is blamed
exactly when the text before it never closes more than it opens and closes as much as it opens. An
opening bracket is blamed exactly when the whole text never closes more than it opens and what
stands behind the bracket is itself in the grammar. -/
theorem brackets_are_grammar (source : String) :
    (balanced source.toList = true ↔ Derivable source.toList) ∧
      (balanced source.toList = true ↔ unmatched? source.toList = none) ∧
      (∀ ip, unmatched? source.toList = some ⟨ip, .closing⟩ ↔
        source.toList[ip]? = some ']' ∧ ClosesOpened 0 (source.toList.take ip) ∧
          (source.toList.take ip).count ']' = (source.toList.take ip).count '[') ∧
      ∀ ip, unmatched? source.toList = some ⟨ip, .opening⟩ ↔
        ClosesOpened 0 source.toList ∧ source.toList[ip]? = some '[' ∧
          Derivable (source.toList.drop (ip + 1)) := by
  refine ⟨balanced_iff_derivable _, ?_, ?_, ?_⟩
  · exact (unmatchedFrom?_eq_none_iff 0 [] _).symm
  · intro ip
    rw [unmatched?, unmatchedFrom?_eq_closing_iff]
    simp [balancedFrom_iff_counts]
  · intro ip
    rw [unmatched?, unmatchedFrom?_eq_opening_iff]
    simp [balanced_iff_derivable]

end Brainfuck
