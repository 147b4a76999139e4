import Brainfuck.Brackets

/-!
Texts as sequences of items. A block is what a balanced text spells: characters that are no
bracket, and loops around blocks. The reader goes through a text from its right end, so that
the blocks to the right of an opening bracket are known when it is met; it accepts exactly the
texts that pass the bracket check, and every text of a block is read back as that block alone.
-/

namespace Brainfuck

/-- The character is no bracket. -/
def IsPlain (c : Char) : Prop :=
  c ≠ '[' ∧ c ≠ ']'

instance (c : Char) : Decidable (IsPlain c) :=
  inferInstanceAs (Decidable (_ ∧ _))

theorem bracket_cases (c : Char) : c = '[' ∨ c = ']' ∨ IsPlain c := by
  by_cases ho : c = '['
  · exact .inl ho
  · by_cases hc : c = ']'
    · exact .inr (.inl hc)
    · exact .inr (.inr ⟨ho, hc⟩)

theorem balancedFrom_open (depth : Nat) (l : List Char) :
    balancedFrom depth ('[' :: l) = balancedFrom (depth + 1) l := by
  simp [balancedFrom]

theorem balancedFrom_close (depth : Nat) (l : List Char) :
    balancedFrom (depth + 1) (']' :: l) = balancedFrom depth l := by
  simp [balancedFrom]

theorem balancedFrom_close_zero (l : List Char) : balancedFrom 0 (']' :: l) = false := by
  simp [balancedFrom]

theorem balancedFrom_plain {c : Char} (hc : IsPlain c) (depth : Nat) (l : List Char) :
    balancedFrom depth (c :: l) = balancedFrom depth l := by
  rw [balancedFrom.eq_def]
  split <;> simp_all [IsPlain]

/-- Texts that are judged alike at every depth are judged alike behind any text. -/
theorem balancedFrom_append_congr {l₁ l₂ : List Char}
    (h : ∀ depth, balancedFrom depth l₁ = balancedFrom depth l₂) (before : List Char)
    (depth : Nat) : balancedFrom depth (before ++ l₁) = balancedFrom depth (before ++ l₂) := by
  induction before generalizing depth with
  | nil => exact h depth
  | cons c before ih =>
      rw [List.cons_append, List.cons_append]
      rcases bracket_cases c with rfl | rfl | hc
      · rw [balancedFrom_open, balancedFrom_open, ih]
      · cases depth with
        | zero => rw [balancedFrom_close_zero, balancedFrom_close_zero]
        | succ depth => rw [balancedFrom_close, balancedFrom_close, ih]
      · rw [balancedFrom_plain hc, balancedFrom_plain hc, ih]

theorem unmatchedFrom?_plain {c : Char} (hc : IsPlain c) (ip : Nat) (opened : List Nat)
    (l : List Char) :
    unmatchedFrom? ip opened (c :: l) = unmatchedFrom? (ip + 1) opened l := by
  rw [unmatchedFrom?.eq_def]
  split <;> simp_all [IsPlain]

theorem unmatchedFrom?_eq_none_iff (ip : Nat) (opened : List Nat) (l : List Char) :
    unmatchedFrom? ip opened l = none ↔ balancedFrom opened.length l = true := by
  induction l generalizing ip opened with
  | nil => cases opened <;> simp [unmatchedFrom?, balancedFrom]
  | cons c l ih =>
      rcases bracket_cases c with rfl | rfl | hc
      · simp [unmatchedFrom?, balancedFrom_open, ih]
      · cases opened with
        | nil => simp [unmatchedFrom?, balancedFrom_close_zero]
        | cons outer opened => simp [unmatchedFrom?, balancedFrom_close, ih]
      · rw [unmatchedFrom?_plain hc, balancedFrom_plain hc, ih]

theorem exists_unmatched? {l : List Char} (h : balanced l = false) :
    ∃ blamed, unmatched? l = some blamed := by
  cases hu : unmatched? l with
  | some blamed => exact ⟨blamed, rfl⟩
  | none =>
      rw [unmatched?, unmatchedFrom?_eq_none_iff] at hu
      rw [balanced] at h
      simp [h] at hu

theorem balanced_eq_false {l : List Char} {u : Unmatched} (h : unmatched? l = some u) :
    balanced l = false := by
  cases hv : balanced l with
  | false => rfl
  | true =>
      have hnone : unmatched? l = none := (unmatchedFrom?_eq_none_iff 0 [] l).mpr hv
      rw [hnone] at h
      cases h

/-- A sequence of items, each a character that is no bracket or a loop around a block. -/
inductive Block where
  | done
  | leaf (c : Char) (plain : IsPlain c) (rest : Block)
  | loop (body rest : Block)
deriving DecidableEq

namespace Block

def text : Block → List Char
  | done => []
  | leaf c _ rest => c :: rest.text
  | loop body rest => '[' :: (body.text ++ ']' :: rest.text)

theorem length_text_leaf (c : Char) (plain : IsPlain c) (rest : Block) :
    (leaf c plain rest).text.length = 1 + rest.text.length := by
  rw [text, List.length_cons, Nat.add_comm]

theorem length_text_loop (body rest : Block) :
    (loop body rest).text.length = body.text.length + 2 + rest.text.length := by
  simp [text]
  omega

def append : Block → Block → Block
  | done, b => b
  | leaf c plain rest, b => leaf c plain (rest.append b)
  | loop body rest, b => loop body (rest.append b)

theorem append_done (b : Block) : b.append done = b := by
  induction b with
  | done => rfl
  | leaf c plain rest ih => simp only [append, ih]
  | loop body rest _ ih => simp only [append, ih]

/-- Reads a text from its right end: the block it starts with, then one block behind each
closing bracket that no loop of the text has taken, outermost last. -/
def layers? : List Char → Option (Block × List Block)
  | [] => some (done, [])
  | c :: rest =>
    match layers? rest with
    | none => none
    | some (inner, outer) =>
      if hc : c = ']' then
        some (done, inner :: outer)
      else if ho : c = '[' then
        match outer with
        | [] => none
        | next :: outer => some (loop inner next, outer)
      else
        some (leaf c ⟨ho, hc⟩ inner, outer)

/-- The block that a text spells. -/
def parse? (l : List Char) : Option Block :=
  match layers? l with
  | some (b, []) => some b
  | _ => none

theorem layers?_close (l : List Char) :
    layers? (']' :: l) = (layers? l).map fun r => (done, r.1 :: r.2) := by
  rw [layers?]
  cases layers? l <;> rfl

theorem layers?_open {l : List Char} {inner next : Block} {outer : List Block}
    (h : layers? l = some (inner, next :: outer)) :
    layers? ('[' :: l) = some (loop inner next, outer) := by
  simp [layers?, h]

theorem layers?_plain {c : Char} (hc : IsPlain c) (l : List Char) :
    layers? (c :: l) = (layers? l).map fun r => (leaf c hc r.1, r.2) := by
  rw [layers?]
  cases layers? l with
  | none => rfl
  | some r => simp [hc.1, hc.2]

/-- The text that the layers of a reading spell together. -/
def spelled (b : Block) (outer : List Block) : List Char :=
  b.text ++ outer.flatMap fun next => ']' :: next.text

theorem spelled_of_layers? {l : List Char} {b : Block} {outer : List Block}
    (h : layers? l = some (b, outer)) : spelled b outer = l := by
  induction l generalizing b outer with
  | nil =>
      simp only [layers?, Option.some.injEq, Prod.mk.injEq] at h
      obtain ⟨rfl, rfl⟩ := h
      rfl
  | cons c l ih =>
      rw [layers?] at h
      split at h
      · cases h
      · next inner below hl =>
          have hinner := ih hl
          split at h
          · next hc =>
              simp only [Option.some.injEq, Prod.mk.injEq] at h
              obtain ⟨rfl, rfl⟩ := h
              simp [spelled, text, hc, ← hinner]
          · split at h
            · next ho =>
                split at h
                · cases h
                · simp only [Option.some.injEq, Prod.mk.injEq] at h
                  obtain ⟨rfl, rfl⟩ := h
                  simp [spelled, text, ho, ← hinner]
            · simp only [Option.some.injEq, Prod.mk.injEq] at h
              obtain ⟨rfl, rfl⟩ := h
              simp [spelled, text, ← hinner]

theorem layers?_text_append (b : Block) (l : List Char) :
    layers? (b.text ++ l) = (layers? l).map fun r => (b.append r.1, r.2) := by
  induction b generalizing l with
  | done => simp [text, append]
  | leaf c plain rest ih =>
      simp only [text, List.cons_append, layers?_plain plain, ih, Option.map_map]
      rfl
  | loop body rest ihb ihr =>
      cases hl : layers? l with
      | none =>
          have hin : layers? (body.text ++ ']' :: (rest.text ++ l)) = none := by
            rw [ihb, layers?_close, ihr, hl]
            rfl
          simp only [text, List.cons_append, List.append_assoc, Option.map_none]
          rw [layers?, hin]
      | some r =>
          have hin : layers? (body.text ++ ']' :: (rest.text ++ l)) =
              some (body, rest.append r.1 :: r.2) := by
            rw [ihb, layers?_close, ihr, hl]
            simp [append_done]
          simp only [text, List.cons_append, List.append_assoc, Option.map_some]
          exact layers?_open hin

theorem parse?_text (b : Block) : parse? b.text = some b := by
  have h := layers?_text_append b []
  simp only [List.append_nil, layers?, Option.map_some, append_done] at h
  simp only [parse?, h]

theorem text_of_parse? {l : List Char} {b : Block} (h : parse? l = some b) : b.text = l := by
  rw [parse?] at h
  split at h
  · next b' hl =>
      cases h
      simpa [spelled] using spelled_of_layers? hl
  · cases h

theorem parse?_eq_some_iff {l : List Char} {b : Block} : parse? l = some b ↔ b.text = l :=
  ⟨text_of_parse?, fun h => h ▸ parse?_text b⟩

/-- With `depth` loops open the check goes through exactly when the reading leaves that many
closing brackets to them. -/
theorem balancedFrom_iff_layers? (depth : Nat) (l : List Char) :
    balancedFrom depth l = true ↔ (layers? l).map (·.2.length) = some depth := by
  induction l generalizing depth with
  | nil => cases depth <;> simp [balancedFrom, layers?]
  | cons c l ih =>
      rcases bracket_cases c with rfl | rfl | hc
      · rw [balancedFrom_open, ih]
        cases hl : layers? l with
        | none => simp [layers?, hl]
        | some r =>
            obtain ⟨inner, _ | ⟨next, outer⟩⟩ := r
            · simp [layers?, hl]
            · simp [layers?_open hl]
      · rw [layers?_close, Option.map_map]
        cases depth with
        | zero => cases layers? l <;> simp [balancedFrom_close_zero]
        | succ depth =>
            rw [balancedFrom_close, ih]
            cases layers? l <;> simp
      · rw [balancedFrom_plain hc, ih, layers?_plain hc, Option.map_map]
        rfl

theorem balanced_iff_exists_parse? (l : List Char) :
    balanced l = true ↔ ∃ b, parse? l = some b := by
  rw [balanced, balancedFrom_iff_layers?, parse?]
  rcases layers? l with _ | ⟨b, _ | ⟨next, outer⟩⟩ <;> simp

theorem exists_body_of_open {b : Block} {before after : List Char}
    (h : b.text = before ++ '[' :: after) :
    ∃ (body : Block) (rest : List Char), after = body.text ++ ']' :: rest := by
  induction b generalizing before after with
  | done => simp [text] at h
  | leaf c plain rest ih =>
      cases before with
      | nil =>
          simp only [text, List.nil_append, List.cons.injEq] at h
          exact absurd h.1 plain.1
      | cons d before =>
          simp only [text, List.cons_append, List.cons.injEq] at h
          exact ih h.2
  | loop body rest ihb ihr =>
      cases before with
      | nil =>
          simp only [text, List.nil_append, List.cons.injEq, true_and] at h
          exact ⟨body, rest.text, h.symm⟩
      | cons d before =>
          simp only [text, List.cons_append, List.cons.injEq] at h
          obtain ⟨m, hbefore, hm⟩ | ⟨m, hbody, hm⟩ := List.append_eq_append_iff.mp h.2
          · cases m with
            | nil => simp at hm
            | cons d m =>
                simp only [List.cons_append, List.cons.injEq] at hm
                exact ihr hm.2
          · cases m with
            | nil => simp at hm
            | cons d m =>
                simp only [List.cons_append, List.cons.injEq] at hm
                obtain ⟨rfl, rfl⟩ := hm
                obtain ⟨inner, between, rfl⟩ := ihb hbody
                exact ⟨inner, between ++ ']' :: rest.text, by simp⟩

theorem exists_body_of_close {b : Block} {before after : List Char}
    (h : b.text = before ++ ']' :: after) :
    ∃ (first : List Char) (body : Block), before = first ++ '[' :: body.text := by
  induction b generalizing before after with
  | done => simp [text] at h
  | leaf c plain rest ih =>
      cases before with
      | nil =>
          simp only [text, List.nil_append, List.cons.injEq] at h
          exact absurd h.1 plain.2
      | cons d before =>
          simp only [text, List.cons_append, List.cons.injEq] at h
          obtain ⟨first, body, rfl⟩ := ih h.2
          exact ⟨d :: first, body, rfl⟩
  | loop body rest ihb ihr =>
      cases before with
      | nil => simp [text] at h
      | cons d before =>
          simp only [text, List.cons_append, List.cons.injEq] at h
          obtain ⟨rfl, h⟩ := h
          obtain ⟨m, hbefore, hm⟩ | ⟨m, hbody, hm⟩ := List.append_eq_append_iff.mp h
          · cases m with
            | nil => exact ⟨[], body, by simp [hbefore]⟩
            | cons d m =>
                simp only [List.cons_append, List.cons.injEq] at hm
                obtain ⟨first, inner, rfl⟩ := ihr hm.2
                exact ⟨'[' :: (body.text ++ d :: first), inner, by simp [hbefore]⟩
          · cases m with
            | nil => exact ⟨[], body, by simpa using hbody.symm⟩
            | cons d m =>
                simp only [List.cons_append, List.cons.injEq] at hm
                obtain ⟨rfl, -⟩ := hm
                obtain ⟨first, inner, rfl⟩ := ihb hbody
                exact ⟨'[' :: first, inner, rfl⟩

end Block
end Brainfuck
