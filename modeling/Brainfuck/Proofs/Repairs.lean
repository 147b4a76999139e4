import Brainfuck.Proofs.Grammar
import Brainfuck.Proofs.Strip
import Mathlib.Data.Finset.Card
import Mathlib.Order.Lattice.Nat

/-!
Repairing a text by deleting brackets. A text is judged by the number of its brackets that have no
partner: deleting any one character lowers it by at most one, since it shifts the depth at which the
rest is read by at most one, and a text is balanced when it has come down to zero. The bracket that
the locator blames is one of those without a partner, and the others keep theirs when it is gone.

Main statement: deleting the blamed bracket, again and again, repairs a text with as few deletions
as any set of deletions needs.
-/

namespace Brainfuck

/-- The number of brackets without a partner in a text that is read with `depth` loops open, which
count as well if they stay open. -/
def unpairedFrom : (depth : Nat) → List Char → Nat
  | depth, [] => depth
  | depth, '[' :: rest => unpairedFrom (depth + 1) rest
  | 0, ']' :: rest => unpairedFrom 0 rest + 1
  | depth + 1, ']' :: rest => unpairedFrom depth rest
  | depth, _ :: rest => unpairedFrom depth rest

def unpaired (l : List Char) : Nat :=
  unpairedFrom 0 l

theorem unpairedFrom_open (depth : Nat) (l : List Char) :
    unpairedFrom depth ('[' :: l) = unpairedFrom (depth + 1) l := by
  simp [unpairedFrom]

theorem unpairedFrom_close_zero (l : List Char) :
    unpairedFrom 0 (']' :: l) = unpairedFrom 0 l + 1 := by
  simp [unpairedFrom]

theorem unpairedFrom_close (depth : Nat) (l : List Char) :
    unpairedFrom (depth + 1) (']' :: l) = unpairedFrom depth l := by
  simp [unpairedFrom]

theorem unpairedFrom_plain {c : Char} (hc : IsPlain c) (depth : Nat) (l : List Char) :
    unpairedFrom depth (c :: l) = unpairedFrom depth l := by
  rw [unpairedFrom.eq_def]
  split <;> simp_all [IsPlain]

/-- A text that closes just the loops it finds on top leaves those below to what follows. -/
theorem unpairedFrom_append_of_balancedFrom {k : Nat} {l : List Char}
    (h : balancedFrom k l = true) (depth : Nat) (rest : List Char) :
    unpairedFrom (depth + k) (l ++ rest) = unpairedFrom depth rest := by
  induction l generalizing k with
  | nil =>
      obtain rfl : k = 0 := by simpa [balancedFrom] using h
      rfl
  | cons c l ih =>
      rw [List.cons_append]
      rcases bracket_cases c with rfl | rfl | hc
      · rw [balancedFrom_open] at h
        rw [unpairedFrom_open, ← ih h]
        rfl
      · cases k with
        | zero =>
            rw [balancedFrom_close_zero] at h
            cases h
        | succ k =>
            rw [balancedFrom_close] at h
            rw [← Nat.add_assoc, unpairedFrom_close, ih h]
      · rw [balancedFrom_plain hc] at h
        rw [unpairedFrom_plain hc, ih h]

/-- A text that never closes too much only changes the depth for what follows. -/
theorem ClosesOpened.exists_depth {depth : Nat} {l : List Char} (h : ClosesOpened depth l) :
    ∃ depth', ∀ rest, unpairedFrom depth (l ++ rest) = unpairedFrom depth' rest := by
  induction l generalizing depth with
  | nil => exact ⟨depth, fun rest => rfl⟩
  | cons c l ih =>
      rcases bracket_cases c with rfl | rfl | hc
      · obtain ⟨depth', hrest⟩ := ih ((closesOpened_open depth l).mp h)
        exact ⟨depth', fun rest => (unpairedFrom_open depth _).trans (hrest rest)⟩
      · cases depth with
        | zero => exact absurd h (not_closesOpened_close l)
        | succ depth =>
            obtain ⟨depth', hrest⟩ := ih ((closesOpened_close depth l).mp h)
            exact ⟨depth', fun rest => (unpairedFrom_close depth _).trans (hrest rest)⟩
      · obtain ⟨depth', hrest⟩ := ih ((closesOpened_plain hc depth l).mp h)
        exact ⟨depth', fun rest => (unpairedFrom_plain hc depth _).trans (hrest rest)⟩

/-- A balanced text leaves all loops open that were open before it. -/
theorem unpairedFrom_of_balanced {l : List Char} (h : balanced l = true) (depth : Nat) :
    unpairedFrom depth l = depth := by
  have hend := unpairedFrom_append_of_balancedFrom h depth []
  rw [List.append_nil] at hend
  exact hend

theorem unpaired_stray_close {before : List Char} (h : balanced before = true)
    (after : List Char) : unpaired (before ++ after) + 1 = unpaired (before ++ ']' :: after) := by
  have hread : ∀ rest, unpaired (before ++ rest) = unpairedFrom 0 rest :=
    unpairedFrom_append_of_balancedFrom h 0
  rw [hread, hread, unpairedFrom_close_zero]

theorem unpaired_open_left {before after : List Char} (hbefore : ClosesOpened 0 before)
    (hafter : balanced after = true) :
    unpaired (before ++ after) + 1 = unpaired (before ++ '[' :: after) := by
  obtain ⟨depth, hread⟩ := hbefore.exists_depth
  rw [unpaired, unpaired, hread, hread, unpairedFrom_open, unpairedFrom_of_balanced hafter,
    unpairedFrom_of_balanced hafter]

/-- The blamed bracket has no partner, and all other brackets keep theirs without it. -/
theorem unpaired_eraseIdx {l : List Char} {u : Unmatched} (h : unmatched? l = some u) :
    unpaired (l.eraseIdx u.ip) + 1 = unpaired l := by
  obtain ⟨ip, bracket⟩ := u
  have hget : l[ip]? = some bracket.char := getElem?_unmatched? h
  have hsplit : l = l.take ip ++ bracket.char :: l.drop (ip + 1) := by
    obtain ⟨hip, hchar⟩ := List.getElem?_eq_some_iff.mp hget
    rw [← hchar, List.getElem_cons_drop, List.take_append_drop]
  rw [List.eraseIdx_eq_take_drop_succ]
  cases bracket with
  | closing =>
      obtain ⟨k, hk, -, hbefore⟩ := (unmatchedFrom?_eq_closing_iff 0 [] l ip).mp h
      rw [Nat.zero_add] at hk
      rw [hk] at hbefore
      exact (unpaired_stray_close hbefore _).trans (congrArg unpaired hsplit.symm)
  | opening =>
      obtain ⟨hcloses, ⟨k, hk, -, hbehind⟩ | ⟨j, hj, -⟩⟩ :=
        (unmatchedFrom?_eq_opening_iff 0 [] l ip).mp h
      · rw [Nat.zero_add] at hk
        rw [hk] at hbehind
        have hbefore : ClosesOpened 0 (l.take ip) := fun part hpart =>
          hcloses part (hpart.trans (List.take_prefix ip l))
        exact (unpaired_open_left hbefore hbehind).trans (congrArg unpaired hsplit.symm)
      · cases hj

/-- The text from position `ip` on without the characters at the deleted positions. -/
def deleteFrom (deleted : Finset Nat) : (ip : Nat) → List Char → List Char
  | _, [] => []
  | ip, c :: rest =>
    if ip ∈ deleted then deleteFrom deleted (ip + 1) rest
    else c :: deleteFrom deleted (ip + 1) rest

def delete (deleted : Finset Nat) (l : List Char) : List Char :=
  deleteFrom deleted 0 l

/-- At every one of the positions stands a bracket. -/
def OnlyBrackets (l : List Char) (positions : Finset Nat) : Prop :=
  ∀ i ∈ positions, l[i]? = some '[' ∨ l[i]? = some ']'

/-- Deleting these brackets leaves a balanced text. -/
structure Repairs (l : List Char) (deleted : Finset Nat) : Prop where
  brackets : OnlyBrackets l deleted
  balances : balanced (delete deleted l) = true

/-- The least number of brackets whose deletion leaves a balanced text. -/
noncomputable def leastDeletions (l : List Char) : Nat :=
  sInf {n | ∃ deleted, Repairs l deleted ∧ deleted.card = n}

section Deletions

variable {deleted : Finset Nat} {ip : Nat} {c : Char} {l : List Char}

theorem deleteFrom_of_mem (h : ip ∈ deleted) (c : Char) (l : List Char) :
    deleteFrom deleted ip (c :: l) = deleteFrom deleted (ip + 1) l := by
  rw [deleteFrom, if_pos h]

theorem deleteFrom_of_not_mem (h : ip ∉ deleted) (c : Char) (l : List Char) :
    deleteFrom deleted ip (c :: l) = c :: deleteFrom deleted (ip + 1) l := by
  rw [deleteFrom, if_neg h]

theorem deleteFrom_empty (ip : Nat) (l : List Char) : deleteFrom ∅ ip l = l := by
  induction l generalizing ip with
  | nil => rfl
  | cons c l ih => rw [deleteFrom_of_not_mem (Finset.notMem_empty ip), ih]

/-- Positions that are passed already do not matter. -/
theorem deleteFrom_insert_of_lt {i : Nat} (h : i < ip) (l : List Char) :
    deleteFrom (insert i deleted) ip l = deleteFrom deleted ip l := by
  induction l generalizing ip with
  | nil => rfl
  | cons c l ih =>
      have hmem : ip ∈ insert i deleted ↔ ip ∈ deleted :=
        Finset.mem_insert.trans (or_iff_right (Nat.ne_of_gt h))
      simp only [deleteFrom, hmem, ih (Nat.lt_succ_of_lt h)]

/-- Erasing a character that is left is deleting it where it stood at first. -/
theorem exists_deleteFrom_insert {i : Nat} (h : (deleteFrom deleted ip l)[i]? = some c) :
    ∃ k, ip + k ∉ deleted ∧ l[k]? = some c ∧
      deleteFrom (insert (ip + k) deleted) ip l = (deleteFrom deleted ip l).eraseIdx i := by
  induction l generalizing ip i with
  | nil => cases h
  | cons d l ih =>
      have hplace (k : Nat) : ip + 1 + k = ip + (k + 1) := Nat.add_right_comm ip 1 k
      by_cases hmem : ip ∈ deleted
      · rw [deleteFrom_of_mem hmem] at h ⊢
        obtain ⟨k, hk, hget, hdelete⟩ := ih h
        rw [hplace] at hk hdelete
        exact ⟨k + 1, hk, hget, by
          rw [deleteFrom_of_mem (Finset.mem_insert_of_mem hmem), hdelete]⟩
      · rw [deleteFrom_of_not_mem hmem] at h ⊢
        cases i with
        | zero =>
            refine ⟨0, hmem, h, ?_⟩
            rw [Nat.add_zero, deleteFrom_of_mem (Finset.mem_insert_self ip deleted),
              deleteFrom_insert_of_lt (Nat.lt_succ_self ip)]
            rfl
        | succ i =>
            obtain ⟨k, hk, hget, hdelete⟩ := ih h
            rw [hplace] at hk hdelete
            have hhere : ip ∉ insert (ip + (k + 1)) deleted := by
              rw [Finset.mem_insert, or_iff_right (by omega)]
              exact hmem
            exact ⟨k + 1, hk, hget, by rw [deleteFrom_of_not_mem hhere, hdelete]; rfl⟩

/-- The number of deletions from a position on. -/
def deletionsFrom (deleted : Finset Nat) (ip : Nat) : Nat :=
  (deleted.filter (ip ≤ ·)).card

theorem deletionsFrom_zero (deleted : Finset Nat) : deletionsFrom deleted 0 = deleted.card := by
  rw [deletionsFrom, Finset.filter_true_of_mem (fun i _ => Nat.zero_le i)]

theorem deletionsFrom_of_mem (h : ip ∈ deleted) :
    deletionsFrom deleted ip = deletionsFrom deleted (ip + 1) + 1 := by
  have hinsert : deleted.filter (ip ≤ ·) = insert ip (deleted.filter (ip + 1 ≤ ·)) := by
    ext i
    simp only [Finset.mem_filter, Finset.mem_insert]
    constructor
    · intro hi
      by_cases heq : i = ip
      · exact .inl heq
      · exact .inr ⟨hi.1, by omega⟩
    · intro hi
      cases hi with
      | inl heq => exact ⟨heq ▸ h, Nat.le_of_eq heq.symm⟩
      | inr hi => exact ⟨hi.1, by omega⟩
  rw [deletionsFrom, hinsert, Finset.card_insert_of_notMem (by simp)]
  rfl

theorem deletionsFrom_of_not_mem (h : ip ∉ deleted) :
    deletionsFrom deleted ip = deletionsFrom deleted (ip + 1) := by
  have hsame : ∀ i ∈ deleted, (ip ≤ i ↔ ip + 1 ≤ i) := by
    intro i hi
    have hne : i ≠ ip := fun heq => h (heq ▸ hi)
    omega
  rw [deletionsFrom, deletionsFrom, Finset.filter_congr hsame]

/-- Every deletion mends at most one bracket. The text and what is left of it are read side by side:
a bracket that only one of the readings meets shifts its depth by one, and one deletion pays for
it. -/
theorem unpairedFrom_le {depth' : Nat}
    (h : balancedFrom depth' (deleteFrom deleted ip l) = true) (depth : Nat) :
    unpairedFrom depth l ≤
      deletionsFrom deleted ip + ((depth - depth') + (depth' - depth)) := by
  induction l generalizing ip depth depth' with
  | nil =>
      obtain rfl : depth' = 0 := by simpa [deleteFrom, balancedFrom] using h
      rw [unpairedFrom]
      omega
  | cons c l ih =>
      by_cases hmem : ip ∈ deleted
      · rw [deleteFrom_of_mem hmem] at h
        rw [deletionsFrom_of_mem hmem]
        rcases bracket_cases c with rfl | rfl | hc
        · have hrest := ih h (depth + 1)
          rw [unpairedFrom_open]
          omega
        · cases depth with
          | zero =>
              have hrest := ih h 0
              rw [unpairedFrom_close_zero]
              omega
          | succ depth =>
              have hrest := ih h depth
              rw [unpairedFrom_close]
              omega
        · have hrest := ih h depth
          rw [unpairedFrom_plain hc]
          omega
      · rw [deleteFrom_of_not_mem hmem] at h
        rw [deletionsFrom_of_not_mem hmem]
        rcases bracket_cases c with rfl | rfl | hc
        · rw [balancedFrom_open] at h
          have hrest := ih h (depth + 1)
          rw [unpairedFrom_open]
          omega
        · cases depth' with
          | zero =>
              rw [balancedFrom_close_zero] at h
              cases h
          | succ depth' =>
              rw [balancedFrom_close] at h
              cases depth with
              | zero =>
                  have hrest := ih h 0
                  rw [unpairedFrom_close_zero]
                  omega
              | succ depth =>
                  have hrest := ih h depth
                  rw [unpairedFrom_close]
                  omega
        · rw [balancedFrom_plain hc] at h
          rw [unpairedFrom_plain hc]
          exact ih h depth

theorem unpaired_le_card (h : balanced (delete deleted l) = true) :
    unpaired l ≤ deleted.card := by
  have hle := unpairedFrom_le h 0
  rw [deletionsFrom_zero] at hle
  exact hle

end Deletions

theorem unpaired_eq_zero_iff (l : List Char) : unpaired l = 0 ↔ balanced l = true := by
  constructor
  · intro h
    cases hv : balanced l with
    | true => rfl
    | false =>
        obtain ⟨u, hu⟩ := exists_unmatched? hv
        have hless := unpaired_eraseIdx hu
        omega
  · intro h
    exact unpairedFrom_of_balanced h 0

/-- The text without the bracket that is blamed, if one is. -/
def mend? (l : List Char) : Option (List Char) :=
  (unmatched? l).map fun u => l.eraseIdx u.ip

/-- The text after `n` times the bracket was deleted that was blamed then. -/
def mended? : Nat → List Char → Option (List Char)
  | 0, l => some l
  | n + 1, l => (mended? n l).bind mend?

section Mending

variable {n : Nat} {l t : List Char}

theorem unpaired_mend? (h : mend? l = some t) : unpaired t + 1 = unpaired l := by
  obtain ⟨u, hu, rfl⟩ := Option.map_eq_some_iff.mp h
  exact unpaired_eraseIdx hu

theorem unpaired_mended? (h : mended? n l = some t) : unpaired t + n = unpaired l := by
  induction n generalizing t with
  | zero =>
      cases h
      rfl
  | succ n ih =>
      obtain ⟨s, hs, ht⟩ := Option.bind_eq_some_iff.mp h
      have hbefore := ih hs
      have hlast := unpaired_mend? ht
      omega

theorem exists_mended? (h : n ≤ unpaired l) : ∃ t, mended? n l = some t := by
  induction n with
  | zero => exact ⟨l, rfl⟩
  | succ n ih =>
      obtain ⟨s, hs⟩ := ih (Nat.le_of_lt h)
      have hleft := unpaired_mended? hs
      have hv : balanced s = false := by
        rw [← Bool.not_eq_true, ← unpaired_eq_zero_iff]
        omega
      obtain ⟨u, hu⟩ := exists_unmatched? hv
      exact ⟨_, Option.bind_eq_some_iff.mpr ⟨s, hs, Option.map_eq_some_iff.mpr ⟨u, hu, rfl⟩⟩⟩

/-- The deletions that were made one after the other, as a set of positions of the first text. -/
theorem exists_deleted_of_mended? (h : mended? n l = some t) :
    ∃ deleted, OnlyBrackets l deleted ∧ deleted.card = n ∧ delete deleted l = t := by
  induction n generalizing t with
  | zero =>
      cases h
      exact ⟨∅, fun i hi => absurd hi (Finset.notMem_empty i), rfl, deleteFrom_empty 0 l⟩
  | succ n ih =>
      obtain ⟨s, hs, ht⟩ := Option.bind_eq_some_iff.mp h
      obtain ⟨u, hu, rfl⟩ := Option.map_eq_some_iff.mp ht
      obtain ⟨deleted, hbrackets, hcard, rfl⟩ := ih hs
      obtain ⟨k, hk, hget, hdelete⟩ := exists_deleteFrom_insert (getElem?_unmatched? hu)
      rw [Nat.zero_add] at hk hdelete
      refine ⟨insert k deleted, ?_, ?_, hdelete⟩
      · intro i hi
        cases Finset.mem_insert.mp hi with
        | inl heq =>
            rw [heq, hget]
            cases u.bracket with
            | opening => exact .inl rfl
            | closing => exact .inr rfl
        | inr hi => exact hbrackets i hi
      · rw [Finset.card_insert_of_notMem hk, hcard]

end Mending

theorem isLeast_unpaired (l : List Char) :
    IsLeast {n | ∃ deleted, Repairs l deleted ∧ deleted.card = n} (unpaired l) := by
  constructor
  · obtain ⟨t, ht⟩ := exists_mended? (Nat.le_refl (unpaired l))
    obtain ⟨deleted, hbrackets, hcard, rfl⟩ := exists_deleted_of_mended? ht
    have hleft := unpaired_mended? ht
    have hbalances := (unpaired_eq_zero_iff _).mp (Nat.add_eq_right.mp hleft)
    exact ⟨deleted, ⟨hbrackets, hbalances⟩, hcard⟩
  · intro n hn
    obtain ⟨deleted, hrepairs, rfl⟩ := hn
    exact unpaired_le_card hrepairs.balances

theorem leastDeletions_eq (l : List Char) : leastDeletions l = unpaired l :=
  (isLeast_unpaired l).csInf_eq

/-- Deleting the blamed bracket always makes progress. It brings the least number of deletions that
repair the text down by one. Repeated, it can be done just as often as that number says, and the
text is balanced after the last time and not before. The deletions that were made are some brackets
of the text, each counted once, and no repair by fewer brackets exists. -/
theorem blamed_brackets_repair (source : List Char) :
    (∀ u, unmatched? source = some u →
      leastDeletions (source.eraseIdx u.ip) + 1 = leastDeletions source) ∧
    (∀ n, (∃ t, mended? n source = some t) ↔ n ≤ leastDeletions source) ∧
    (∀ n t, mended? n source = some t →
      (balanced t = true ↔ n = leastDeletions source) ∧
      ∃ deleted, OnlyBrackets source deleted ∧ deleted.card = n ∧ delete deleted source = t) ∧
    ∀ deleted, Repairs source deleted → leastDeletions source ≤ deleted.card := by
  simp only [leastDeletions_eq]
  refine ⟨fun u => unpaired_eraseIdx, ?_, ?_, ?_⟩
  · intro n
    constructor
    · intro h
      obtain ⟨t, ht⟩ := h
      have hleft := unpaired_mended? ht
      omega
    · exact exists_mended?
  · intro n t ht
    refine ⟨?_, exists_deleted_of_mended? ht⟩
    have hleft := unpaired_mended? ht
    rw [← unpaired_eq_zero_iff]
    omega
  · intro deleted h
    exact unpaired_le_card h.balances

/-- A stray closing bracket, then two loops of which only the inner one is closed: two deletions,
of which the second finds the outer one. -/
theorem blamed_brackets_repair_two :
    leastDeletions "a][[c]".toList = 2 ∧ leastDeletions "a[[c]".toList + 1 = 2 ∧
      mended? 2 "a][[c]".toList = some "a[c]".toList ∧
      ∀ deleted, Repairs "a][[c]".toList deleted → 2 ≤ deleted.card := by
  obtain ⟨hless, -, hends, hleast⟩ := blamed_brackets_repair "a][[c]".toList
  have hmended : mended? 2 "a][[c]".toList = some "a[c]".toList := by decide
  have htwo := ((hends 2 _ hmended).1).mp (by decide)
  have hnext := hless ⟨1, .closing⟩ (by decide)
  rw [← htwo] at hnext hleast
  exact ⟨htwo.symm, hnext, hmended, hleast⟩

end Brainfuck
