import Brainfuck.Proofs.Representation
import Mathlib.Data.Finset.Card
import Mathlib.Algebra.Ring.Int.Defs

/-!
Updates of a tape, one after another. A tape stores no zeros, so a value may be there because it
was stored or be absent because it was taken back to zero; whatever the way to it, a cell reads as
the value last set there with everything added since, counted modulo the number of code points. An
update at a position outside the circle, or one that adds up to no word, is refused and leaves the
tape as it was.

Main statement: after any updates a blank tape is the total function that the accepted ones
describe, and it stores as many cells as that function has values other than zero.
-/

namespace Brainfuck

inductive Tape.Update where
  | set (position value : Int)
  | add (position delta : Int)

namespace Tape
namespace Update

def position : Update → Int
  | set position _ => position
  | add position _ => position

/-- The number that the update would leave at its position if cells had no bounds. -/
def result (t : Tape) : Update → Int
  | set _ value => value
  | add position delta => t.get position + delta

/-- The update is at a position outside the circle, or it adds up to no signed 64-bit word. -/
def Refused (t : Tape) : Update → Prop
  | set position _ => t.wrap position ≠ position
  | add position delta =>
      t.wrap position ≠ position ∨
        ¬ (-2 ^ 63 ≤ t.get position + delta ∧ t.get position + delta < 2 ^ 63)

/-- The value that the update sets at a position, if it sets one there. -/
def valueAt (q : Int) : Update → Option Int
  | set position value => if position = q then some value else none
  | add _ _ => none

/-- What the update adds at a position. -/
def deltaAt (q : Int) : Update → Int
  | set _ _ => 0
  | add position delta => if position = q then delta else 0

end Update

/-- The value last set at a position, or zero. -/
def lastSet (q : Int) (us : List Update) : Int :=
  (us.reverse.findSome? (Update.valueAt q)).getD 0

/-- What was added at a position since a value was last set there. -/
def addedSince (q : Int) (us : List Update) : Int :=
  ((us.reverse.takeWhile fun u => (u.valueAt q).isNone).map (Update.deltaAt q)).sum

theorem lastSet_add_addedSince_concat (q : Int) (us : List Update) (u : Update) :
    lastSet q (us ++ [u]) + addedSince q (us ++ [u]) =
      (u.valueAt q).getD (lastSet q us + addedSince q us + u.deltaAt q) := by
  simp only [lastSet, addedSince, List.reverse_append, List.reverse_singleton, List.singleton_append,
    List.findSome?_cons, List.takeWhile_cons]
  cases hvalue : u.valueAt q with
  | some value =>
      simp only [Option.getD_some, Option.isNone_some, Bool.false_eq_true, if_false, List.map_nil,
        List.sum_nil, Int.add_zero]
  | none =>
      simp only [Option.getD_none, Option.isNone_none, if_true, List.map_cons, List.sum_cons]
      omega

/-- The tape after an update; none if the update is refused. -/
def update? (t : Tape) : Update → Option Tape
  | .set position value => t.set? position value
  | .add position delta => (t.add? position delta).map Prod.fst

/-- The tape after updates, of which each that is refused leaves the tape as it is. -/
def updated (t : Tape) (us : List Update) : Tape :=
  us.foldl (fun t u => (t.update? u).getD t) t

/-- The updates that are not refused, in order. -/
def accepted (t : Tape) : List Update → List Update
  | [] => []
  | u :: rest =>
    match t.update? u with
    | some t' => u :: t'.accepted rest
    | none => t.accepted rest

theorem updated_concat (t : Tape) (us : List Update) (u : Update) :
    t.updated (us ++ [u]) = ((t.updated us).update? u).getD (t.updated us) := by
  rw [updated, List.foldl_append]
  rfl

theorem accepted_concat (t : Tape) (us : List Update) (u : Update) :
    t.accepted (us ++ [u]) =
      t.accepted us ++ if ((t.updated us).update? u).isSome then [u] else [] := by
  induction us generalizing t with
  | nil =>
      rw [List.nil_append, accepted, accepted, updated, List.foldl_nil, List.nil_append]
      cases t.update? u <;> rfl
  | cons first us ih =>
      rw [List.cons_append, accepted, accepted, updated, List.foldl_cons]
      cases t.update? first with
      | none => exact ih t
      | some t' =>
          rw [List.cons_append]
          exact congrArg (first :: ·) (ih t')

section Update

variable {t t' : Tape} {u : Update}

theorem update?_of_refused (h : u.Refused t) : t.update? u = none := by
  cases u with
  | set position value => exact if_neg h
  | add position delta =>
      rw [update?, add?]
      split
      · next hfits =>
          rw [fitsWord_iff, wordMax] at hfits
          cases h with
          | inl houtside =>
              rw [set?, if_neg houtside]
              rfl
          | inr hword => exact absurd ⟨by omega, by omega⟩ hword
      · rfl

theorem update?_of_not_refused (h : ¬ u.Refused t) :
    t.wrap u.position = u.position ∧
      t.update? u = some (t.put u.position (u.result t % cellModulus).toNat) := by
  cases u with
  | set position value =>
      have hinside : t.wrap position = position := not_not.mp h
      exact ⟨hinside, set?_eq_some hinside value⟩
  | add position delta =>
      obtain ⟨hinside, hword⟩ := not_or.mp h
      have hfits : fitsWord (t.get position + delta) = true := by
        rw [fitsWord_iff, wordMax]
        omega
      refine ⟨not_not.mp hinside, ?_⟩
      rw [update?, add?, if_pos hfits, set?_eq_some (not_not.mp hinside)]
      rfl

theorem update?_eq_none_iff : t.update? u = none ↔ u.Refused t := by
  constructor
  · intro hnone
    by_contra h
    rw [(update?_of_not_refused h).2] at hnone
    cases hnone
  · exact update?_of_refused

theorem eq_put_of_update? (h : t.update? u = some t') :
    t.wrap u.position = u.position ∧ t' = t.put u.position (u.result t % cellModulus).toNat := by
  have haccepted : ¬ u.Refused t := by
    intro hrefused
    rw [update?_of_refused hrefused] at h
    cases h
  obtain ⟨hinside, hput⟩ := update?_of_not_refused haccepted
  rw [h] at hput
  cases hput
  exact ⟨hinside, rfl⟩

theorem get_of_update? (h : t.update? u = some t') (q : Int) :
    (t'.get q : Int) = if q = u.position then u.result t % cellModulus else t.get q := by
  obtain ⟨-, rfl⟩ := eq_put_of_update? h
  rw [get_put]
  split
  · exact Int.toNat_of_nonneg (Int.emod_nonneg _ (by decide))
  · rfl

theorem Tidy.update (ht : t.Tidy) (h : t.update? u = some t') : t'.Tidy := by
  obtain ⟨hinside, rfl⟩ := eq_put_of_update? h
  apply ht.put hinside
  rw [cellModulus]
  omega

end Update

/-- Every cell reads as the updates left it. -/
def Reflects (t : Tape) (us : List Update) : Prop :=
  ∀ q, (t.get q : Int) = (lastSet q us + addedSince q us) % cellModulus

theorem reflects_blank (size : Nat) : (blank size).Reflects [] := by
  intro q
  simp [get, blank, lastSet, addedSince]

theorem Reflects.update {t t' : Tape} {us : List Update} {u : Update} (ht : t.Reflects us)
    (h : t.update? u = some t') : t'.Reflects (us ++ [u]) := by
  intro q
  rw [get_of_update? h, lastSet_add_addedSince_concat]
  cases u with
  | set position value =>
      by_cases hq : position = q
      · simp only [Update.position, Update.result, Update.valueAt, hq, if_true, Option.getD_some]
      · simp only [Update.position, Update.valueAt, Update.deltaAt, hq, Ne.symm hq, if_false,
          Option.getD_none, Int.add_zero]
        exact ht q
  | add position delta =>
      by_cases hq : position = q
      · simp only [Update.position, Update.result, Update.valueAt, Update.deltaAt, hq, if_true,
          Option.getD_none]
        rw [ht q, Int.emod_add_emod]
      · simp only [Update.position, Update.valueAt, Update.deltaAt, hq, Ne.symm hq, if_false,
          Option.getD_none, Int.add_zero]
        exact ht q

theorem Reflects.updated {t : Tape} {done : List Update} (ht : t.Reflects done)
    (us : List Update) : (t.updated us).Reflects (done ++ t.accepted us) := by
  induction us generalizing t done with
  | nil =>
      rw [accepted, List.append_nil]
      exact ht
  | cons u us ih =>
      rw [Tape.updated, List.foldl_cons, accepted]
      cases h : t.update? u with
      | none => exact ih ht
      | some t' =>
          have hrest := ih (ht.update h)
          rw [List.append_assoc] at hrest
          exact hrest

theorem Tidy.updated {t : Tape} (ht : t.Tidy) (us : List Update) : (t.updated us).Tidy := by
  induction us generalizing t with
  | nil => exact ht
  | cons u us ih =>
      rw [Tape.updated, List.foldl_cons]
      cases h : t.update? u with
      | none => exact ih ht
      | some t' => exact ih (ht.update h)

/-- A tape that stores no zeros stores what it does not read as zero. -/
theorem Tidy.mem_keys_iff {t : Tape} (ht : t.Tidy) (q : Int) :
    q ∈ t.cells.keys ↔ t.get q ≠ 0 := by
  rw [Std.ExtTreeMap.mem_keys, ← Std.ExtTreeMap.isSome_getElem?_iff_mem, stored_of_tidy ht]
  by_cases hzero : t.get q = 0 <;> simp [hzero]

theorem Tidy.exists_support {t : Tape} (ht : t.Tidy) :
    ∃ positions : Finset Int,
      (∀ q, q ∈ positions ↔ t.get q ≠ 0) ∧ t.materialized = positions.card := by
  -- The keys are listed without repetition, so there are as many positions as stored cells.
  refine ⟨t.cells.keys.toFinset, ?_, ?_⟩
  · intro q
    rw [List.mem_toFinset]
    exact ht.mem_keys_iff q
  · rw [List.toFinset_card_of_nodup Std.ExtTreeMap.nodup_keys, Std.ExtTreeMap.length_keys]
    rfl

/-- The sparse tape refines a total function. After any updates of a blank tape every cell reads as
the value last set there plus everything added since, modulo the number of code points. An update is
refused just when it breaks a rule of the tape, and then nothing changes; any other is the next one
that counts. An addition that is not refused tells the new value of its cell, which the machine
records, and as many cells are stored as do not read as zero. -/
theorem updated_refines_function (size : Nat) (us : List Update) (t : Tape)
    (ht : t = (blank size).updated us) :
    (∀ q, (t.get q : Int) = (lastSet q ((blank size).accepted us) +
      addedSince q ((blank size).accepted us)) % 0x110000) ∧
    (∀ u, t.update? u = none ↔ u.Refused t) ∧
    (∀ u, u.Refused t → (blank size).updated (us ++ [u]) = t ∧
      (blank size).accepted (us ++ [u]) = (blank size).accepted us) ∧
    (∀ u t', t.update? u = some t' → (blank size).updated (us ++ [u]) = t' ∧
      (blank size).accepted (us ++ [u]) = (blank size).accepted us ++ [u]) ∧
    (∀ (position delta : Int) (t' : Tape), t.update? (.add position delta) = some t' →
      t.add? position delta = some (t', t'.get position)) ∧
    (∀ (s : State) (delta : Int) (t' : Tape) (value : Nat), s.tape = t →
      t.add? s.head delta = some (t', value) →
      s.changeBy delta = ({ s with tape := t', ip := s.ip + 1 },
        .ok (.changed (t.get s.head) (t'.get s.head)))) ∧
    ∃ positions : Finset Int,
      (∀ q, q ∈ positions ↔ t.get q ≠ 0) ∧ t.materialized = positions.card := by
  have hreflects := (reflects_blank size).updated us
  have htidy := (tidy_blank size).updated us
  rw [← ht] at hreflects htidy
  refine ⟨hreflects, fun u => update?_eq_none_iff, ?_, ?_, ?_, ?_, htidy.exists_support⟩
  · intro u hrefused
    rw [updated_concat, accepted_concat, ← ht, update?_of_refused hrefused]
    exact ⟨rfl, List.append_nil _⟩
  · intro u t' h
    rw [updated_concat, accepted_concat, ← ht, h]
    exact ⟨rfl, rfl⟩
  · intro position delta t' h
    obtain ⟨⟨tape, value⟩, hadd, rfl⟩ := Option.map_eq_some_iff.mp h
    rw [hadd, (stores_of_add? hadd).2]
  · intro s delta t' value hs hadd
    subst hs
    rw [(stores_of_add? hadd).2] at hadd
    exact State.changeBy_eq_ok_iff.mpr ⟨t', _, hadd, rfl, rfl⟩

/-- The least word set on a circle of four, and something added to it. An addition outside the
circle and one that overflows are refused; a cell that was counted up and down again is no longer
stored. -/
theorem updated_refines_function_extremes :
    ∃ t, t = (blank 4).updated [.set 1 (-9223372036854775808), .add 1 5, .add 4 1,
        .add 1 9223372036854775807, .add 2 1, .add 2 (-1)] ∧
      t.get 1 = 524293 ∧ t.update? (.add 4 1) = none ∧
      t.update? (.add 1 9223372036854775807) = none ∧ t.materialized = 1 ∧
      ∃ positions : Finset Int,
        (∀ q, q ∈ positions ↔ t.get q ≠ 0) ∧ t.materialized = positions.card := by
  obtain ⟨t, ht⟩ : ∃ t, t = (blank 4).updated [.set 1 (-9223372036854775808), .add 1 5, .add 4 1,
    .add 1 9223372036854775807, .add 2 1, .add 2 (-1)] := ⟨_, rfl⟩
  obtain ⟨-, hrefuses, -, -, -, -, hsupport⟩ := updated_refines_function 4 _ t ht
  have hone : t.get 1 = 524293 := by
    rw [ht]
    decide +kernel
  have hcircle : t.size = 4 := by
    rw [ht]
    decide +kernel
  have hcount : t.materialized = 1 := by
    rw [ht]
    decide +kernel
  refine ⟨t, ht, hone, ?_, ?_, hcount, hsupport⟩
  · refine (hrefuses _).mpr (.inl ?_)
    rw [wrap, hcircle]
    decide
  · refine (hrefuses _).mpr (.inr ?_)
    rw [hone]
    omega

end Tape
end Brainfuck
