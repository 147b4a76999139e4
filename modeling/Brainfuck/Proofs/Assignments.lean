import Brainfuck.Proofs.ConfigLines

/-!
A config file as a whole, without a state that is carried from line to line. A line stands in the
section that counts if the nearest heading above it names that section; there it is an assignment if
it has a known name before an equals sign. What the lines read so far amount to is what these
descriptions say of them, and one more line adds at most its own assignment.

Main statement: the first assignment of a bad value is the error of a config file; if there is none,
the last assignment of each key is its value.
-/

namespace Brainfuck

theorem Layer.get?_set (l : Layer) (key key' : Key) (n : Nat) :
    (l.set key n).get? key' = if key' = key then some n else l.get? key' := by
  cases key <;> cases key' <;> rfl

theorem Key.name_injective {key key' : Key} (h : key.name.toList = key'.name.toList) :
    key = key' := by
  have hname := Config.ofName?_eq_some_iff.mpr (String.toList_inj.mp h)
  rw [Config.ofName?_eq_some_iff.mpr rfl] at hname
  exact Option.some.inj hname

namespace Config

open Text

/-- The lines of a text up to their comments, without the blanks around them. -/
def cleanLines (content : String) : List (List Char) :=
  (lines content.toList).map clean

/-- The nearest heading above line `i`, counted from zero, names the section that counts. -/
def InMachine (ls : List (List Char)) (i : Nat) : Prop :=
  ∃ j < i, (∃ heading, ls[j]? = some heading ∧ NamesMachine heading) ∧
    ∀ k, j < k → k < i → ∀ line, ls[k]? = some line → ¬ IsHeading line

/-- Line `i`, counted from zero, assigns the value to the key. -/
def AssignsAt (ls : List (List Char)) (i : Nat) (key : Key) (value : List Char) : Prop :=
  ∃ line, ls[i]? = some line ∧ ¬ IsHeading line ∧ InMachine ls i ∧
    Assigns line key.name.toList value

/-- The error is the first assignment of a bad value, with its line counted from one. -/
def FirstBad (ls : List (List Char)) (e : InvalidValue) : Prop :=
  ∃ i, e.line = i + 1 ∧ AssignsAt ls i e.key e.value.toList ∧ Bad e.value.toList ∧
    ∀ i' key value, i' < i → AssignsAt ls i' key value → ¬ Bad value

/-- What the last assignment of the key is read as; nothing if there is none. -/
def LastValue (ls : List (List Char)) (key : Key) : Option Nat → Prop
  | some n => ∃ i value, AssignsAt ls i key value ∧ Reads value n ∧
      ∀ i' value', AssignsAt ls i' key value' → i' ≤ i
  | none => ∀ i value, ¬ AssignsAt ls i key value

section Prefix

variable {ls : List (List Char)} {i : Nat} {key : Key} {value : List Char}

theorem inMachine_append (more : List (List Char)) (hi : i ≤ ls.length) :
    InMachine (ls ++ more) i ↔ InMachine ls i := by
  have hget (k : Nat) (hk : k < i) : (ls ++ more)[k]? = ls[k]? :=
    List.getElem?_append_left (Nat.lt_of_lt_of_le hk hi)
  constructor
  · intro h
    obtain ⟨j, hj, hnames, hnone⟩ := h
    rw [hget j hj] at hnames
    refine ⟨j, hj, hnames, ?_⟩
    intro k hjk hki
    rw [← hget k hki]
    exact hnone k hjk hki
  · intro h
    obtain ⟨j, hj, hnames, hnone⟩ := h
    rw [← hget j hj] at hnames
    refine ⟨j, hj, hnames, ?_⟩
    intro k hjk hki
    rw [hget k hki]
    exact hnone k hjk hki

theorem AssignsAt.lt_length (h : AssignsAt ls i key value) : i < ls.length := by
  obtain ⟨line, hline, -⟩ := h
  exact (List.getElem?_eq_some_iff.mp hline).1

theorem assignsAt_append (more : List (List Char)) (hi : i < ls.length) :
    AssignsAt (ls ++ more) i key value ↔ AssignsAt ls i key value := by
  simp only [AssignsAt, inMachine_append more (Nat.le_of_lt hi), List.getElem?_append_left hi]

/-- One more line adds at most the assignment that it is itself. -/
theorem assignsAt_concat (line : List Char) :
    AssignsAt (ls ++ [line]) i key value ↔
      AssignsAt ls i key value ∨
        i = ls.length ∧ ¬ IsHeading line ∧ InMachine ls ls.length ∧
          Assigns line key.name.toList value := by
  by_cases hi : i < ls.length
  · rw [assignsAt_append [line] hi]
    exact (or_iff_left fun hlast => absurd hlast.1 (Nat.ne_of_lt hi)).symm
  · constructor
    · intro h
      have hlt := h.lt_length
      rw [List.length_append, List.length_singleton] at hlt
      obtain rfl : i = ls.length := by omega
      obtain ⟨line', hline, hheading, hmachine, hassigns⟩ := h
      rw [List.getElem?_concat_length] at hline
      cases hline
      exact .inr ⟨rfl, hheading, (inMachine_append _ (Nat.le_refl _)).mp hmachine, hassigns⟩
    · intro h
      cases h with
      | inl hbefore => exact absurd hbefore.lt_length hi
      | inr hlast =>
          obtain ⟨rfl, hheading, hmachine, hassigns⟩ := hlast
          exact ⟨line, List.getElem?_concat_length, hheading,
            (inMachine_append _ (Nat.le_refl _)).mpr hmachine, hassigns⟩

/-- Below one more line the section is the one that the line starts, or else the one it is in. -/
theorem inMachine_concat (line : List Char) :
    InMachine (ls ++ [line]) (ls.length + 1) ↔
      NamesMachine line ∨ ¬ IsHeading line ∧ InMachine ls ls.length := by
  have hlast : (ls ++ [line])[ls.length]? = some line := List.getElem?_concat_length
  constructor
  · intro h
    -- The nearest heading is the last line, or no heading and the nearest one is further up.
    obtain ⟨j, hj, hnames, hnone⟩ := h
    by_cases hjlast : j = ls.length
    · subst hjlast
      obtain ⟨heading, hheading, hnames⟩ := hnames
      rw [hlast] at hheading
      cases hheading
      exact .inl hnames
    · have hj' : j < ls.length := by omega
      refine .inr ⟨hnone ls.length hj' (Nat.lt_succ_self _) line hlast, ?_⟩
      rw [← inMachine_append [line] (Nat.le_refl _)]
      exact ⟨j, hj', hnames, fun k hjk hk => hnone k hjk (Nat.lt_succ_of_lt hk)⟩
  · intro h
    cases h with
    | inl hnames =>
        exact ⟨ls.length, Nat.lt_succ_self _, ⟨line, hlast, hnames⟩, fun k hjk hk => by omega⟩
    | inr hinside =>
        obtain ⟨hheading, hmachine⟩ := hinside
        rw [← inMachine_append [line] (Nat.le_refl _)] at hmachine
        obtain ⟨j, hj, hnames, hnone⟩ := hmachine
        refine ⟨j, Nat.lt_succ_of_lt hj, hnames, ?_⟩
        intro k hjk hk line' hline
        by_cases hklast : k = ls.length
        · subst hklast
          rw [hlast] at hline
          cases hline
          exact hheading
        · exact hnone k hjk (by omega) line' hline

theorem FirstBad.append {e : InvalidValue} (h : FirstBad ls e) (more : List (List Char)) :
    FirstBad (ls ++ more) e := by
  obtain ⟨i, hline, hassigns, hbad, hfirst⟩ := h
  have hi := hassigns.lt_length
  refine ⟨i, hline, (assignsAt_append more hi).mpr hassigns, hbad, ?_⟩
  intro i' key value hi' hassigns'
  exact hfirst i' key value hi' ((assignsAt_append more (Nat.lt_trans hi' hi)).mp hassigns')

theorem LastValue.congr {ls' : List (List Char)} {last : Option Nat} (h : LastValue ls key last)
    (hsame : ∀ i value, AssignsAt ls' i key value ↔ AssignsAt ls i key value) :
    LastValue ls' key last := by
  cases last with
  | none => exact fun i value hassigns => h i value ((hsame i value).mp hassigns)
  | some n =>
      obtain ⟨i, value, hassigns, hreads, hle⟩ := h
      refine ⟨i, value, (hsame i value).mpr hassigns, hreads, ?_⟩
      exact fun i' value' hassigns' => hle i' value' ((hsame i' value').mp hassigns')

end Prefix

/-- The lines so far amount to this progress, and none of them assigns a bad value. -/
structure Sums (ls : List (List Char)) (p : Progress) : Prop where
  opened : p.inMachine = true ↔ InMachine ls ls.length
  good : ∀ i key value, AssignsAt ls i key value → ¬ Bad value
  last : ∀ key, LastValue ls key (p.layer.get? key)

/-- What reading the lines came to is their first bad assignment, or else what they amount to. -/
def Describes (ls : List (List Char)) : Except InvalidValue Progress → Prop
  | .ok p => Sums ls p
  | .error e => FirstBad ls e

theorem sums_nil : Sums [] ⟨false, .empty⟩ where
  opened := by
    constructor
    · intro h
      cases h
    · intro h
      obtain ⟨j, hj, -⟩ := h
      exact absurd hj (Nat.not_lt_zero j)
  good i key value h := absurd h.lt_length (Nat.not_lt_zero i)
  last key := by
    have hnone : Layer.empty.get? key = none := by cases key <;> rfl
    rw [hnone]
    exact fun i value h => absurd h.lt_length (Nat.not_lt_zero i)

section Step

variable {ls : List (List Char)} {p : Progress} {line : List Char}

/-- A line that is no assignment changes at most the section. -/
theorem Sums.unassigned (h : Sums ls p) {opened : Bool}
    (hopened : opened = true ↔ InMachine (ls ++ [line]) (ls.length + 1))
    (hnone : ∀ i key value, AssignsAt (ls ++ [line]) i key value ↔ AssignsAt ls i key value) :
    Sums (ls ++ [line]) { p with inMachine := opened } where
  opened := by
    rw [List.length_append, List.length_singleton]
    exact hopened
  good i key value hassigns := h.good i key value ((hnone i key value).mp hassigns)
  last key := (h.last key).congr fun i value => hnone i key value

theorem Sums.heading (h : Sums ls p) {inside : List Char}
    (hline : line = '[' :: (inside ++ [']'])) :
    Sums (ls ++ [line]) { p with inMachine := decide (trim inside = "machine".toList) } := by
  have hheading : IsHeading line := isHeading_iff.mpr ⟨inside, hline⟩
  apply h.unassigned
  · rw [inMachine_concat, or_iff_left (fun hinside => absurd hheading hinside.1), hline,
      namesMachine_iff, decide_eq_true_eq]
  · intro i key value
    rw [assignsAt_concat, or_iff_left (fun hlast => absurd hheading hlast.2.1)]

theorem Sums.opened_concat (h : Sums ls p) (hheading : ¬ IsHeading line) :
    p.inMachine = true ↔ InMachine (ls ++ [line]) (ls.length + 1) := by
  rw [inMachine_concat, or_iff_right (fun hnames => hheading hnames.isHeading), h.opened]
  exact (and_iff_right hheading).symm

theorem Sums.passed (h : Sums ls p) (hheading : ¬ IsHeading line)
    (hnone : p.inMachine = true → ∀ (key : Key) value, ¬ Assigns line key.name.toList value) :
    Sums (ls ++ [line]) p := by
  apply h.unassigned (h.opened_concat hheading)
  intro i key value
  rw [assignsAt_concat, or_iff_left]
  intro hlast
  exact hnone (h.opened.mpr hlast.2.2.1) key value hlast.2.2.2

section Assigned

variable {key : Key} {value : List Char} (h : Sums ls p) (hheading : ¬ IsHeading line)
  (hp : p.inMachine = true) (hassigns : Assigns line key.name.toList value)
include h hheading hp hassigns

theorem Sums.assignsAt_last : AssignsAt (ls ++ [line]) ls.length key value :=
  (assignsAt_concat line).mpr (.inr ⟨rfl, hheading, h.opened.mp hp, hassigns⟩)

theorem Sums.assigned {n : Nat} (hreads : Reads value n) :
    Sums (ls ++ [line]) { p with layer := p.layer.set key n } where
  opened := by
    rw [List.length_append, List.length_singleton]
    exact h.opened_concat hheading
  good i key' value' hassigns' := by
    cases (assignsAt_concat line).mp hassigns' with
    | inl hbefore => exact h.good i key' value' hbefore
    | inr hlast =>
        obtain ⟨-, rfl⟩ := hassigns.unique hlast.2.2.2
        exact fun hbad => hbad n hreads
  last key' := by
    have hthis := h.assignsAt_last hheading hp hassigns
    rw [Layer.get?_set]
    by_cases hkey : key' = key
    · subst hkey
      rw [if_pos rfl]
      refine ⟨ls.length, value, hthis, hreads, ?_⟩
      intro i' value' hassigns'
      have hlt := hassigns'.lt_length
      rw [List.length_append, List.length_singleton] at hlt
      omega
    · rw [if_neg hkey]
      have hsame (i : Nat) (value' : List Char) :
          AssignsAt (ls ++ [line]) i key' value' ↔ AssignsAt ls i key' value' := by
        rw [assignsAt_concat, or_iff_left]
        intro hlast
        obtain ⟨hname, -⟩ := hassigns.unique hlast.2.2.2
        exact hkey (Key.name_injective hname).symm
      exact (h.last key').congr hsame

theorem Sums.firstBad (hbad : Bad value) :
    FirstBad (ls ++ [line]) ⟨key, String.ofList value, ls.length + 1⟩ := by
  refine ⟨ls.length, rfl, ?_, ?_, ?_⟩
  · rw [String.toList_ofList]
    exact h.assignsAt_last hheading hp hassigns
  · rw [String.toList_ofList]
    exact hbad
  · intro i' key' value' hi' hassigns'
    exact h.good i' key' value' ((assignsAt_append [line] hi').mp hassigns')

end Assigned

theorem Sums.step (h : Sums ls p) {r : Except InvalidValue Progress}
    (hline : LineRead (ls.length + 1) p line r) : Describes (ls ++ [line]) r := by
  cases hline with
  | heading hinside => exact h.heading hinside
  | passed hheading hnone => exact h.passed hheading hnone
  | assigned hheading hp hassigns hreads => exact h.assigned hheading hp hassigns hreads
  | bad hheading hp hassigns hbad => exact h.firstBad hheading hp hassigns hbad

end Step

theorem Sums.run {done : List (List Char)} {p : Progress} (h : Sums done p)
    (ls : List (List Char)) :
    Describes (done ++ ls.map clean) (readLines (done.length + 1) p ls) := by
  induction ls generalizing done p with
  | nil =>
      rw [readLines, List.map_nil, List.append_nil]
      exact h
  | cons line ls ih =>
      have hsplit : done ++ (line :: ls).map clean = done ++ [clean line] ++ ls.map clean := by
        rw [List.map_cons, List.append_assoc, List.singleton_append]
      rw [readLines, hsplit]
      cases hread : readLine (done.length + 1) p line with
      | error e =>
          have hbad : FirstBad (done ++ [clean line]) e := h.step (readLine_eq_iff.mp hread)
          exact hbad.append _
      | ok p' =>
          have hsums : Sums (done ++ [clean line]) p' := h.step (readLine_eq_iff.mp hread)
          have hrest := ih hsums
          rw [List.length_append, List.length_singleton] at hrest
          exact hrest

theorem firstBad_of_parse {content : String} {e : InvalidValue} (h : parse content = .error e) :
    FirstBad (cleanLines content) e := by
  have hrun := sums_nil.run (lines content.toList)
  rw [List.length_nil, Nat.zero_add, parse_eq_error_iff.mp h] at hrun
  exact hrun

theorem sums_of_parse {content : String} {layer : Layer} (h : parse content = .ok layer) :
    ∃ opened, Sums (cleanLines content) ⟨opened, layer⟩ := by
  obtain ⟨opened, hread⟩ := parse_eq_ok_iff.mp h
  have hrun := sums_nil.run (lines content.toList)
  rw [List.length_nil, Nat.zero_add, hread] at hrun
  exact ⟨opened, hrun⟩

/-- A config file is its first bad line, or else its last assignments. Reading it fails if and only
if an assignment in it has a bad value, and the error names key, value and line of the first one. If
there is none, it gives the layer that has, for each key, the value of its last assignment and
nothing without one. A heading always has both its brackets to take its name from between them. -/
theorem parse_first_bad_or_last (content : String) :
    ((∃ e, parse content = .error e) ↔
      ∃ i key value, AssignsAt (cleanLines content) i key value ∧ Bad value) ∧
    (∀ e, parse content = .error e → FirstBad (cleanLines content) e) ∧
    ((∀ i key value, AssignsAt (cleanLines content) i key value → ¬ Bad value) →
      ∃ layer, parse content = .ok layer ∧
        ∀ key, LastValue (cleanLines content) key (layer.get? key)) ∧
    (∀ line ∈ cleanLines content, IsHeading line →
      ∃ inside, line = '[' :: (inside ++ [']']) ∧ heading? line = some inside) := by
  refine ⟨⟨?_, ?_⟩, fun e => firstBad_of_parse, ?_, ?_⟩
  · intro h
    obtain ⟨e, he⟩ := h
    obtain ⟨i, -, hassigns, hbad, -⟩ := firstBad_of_parse he
    exact ⟨i, e.key, e.value.toList, hassigns, hbad⟩
  · intro h
    obtain ⟨i, key, value, hassigns, hbad⟩ := h
    cases hparse : parse content with
    | error e => exact ⟨e, rfl⟩
    | ok layer =>
        obtain ⟨opened, hsums⟩ := sums_of_parse hparse
        exact absurd hbad (hsums.good i key value hassigns)
  · intro hgood
    cases hparse : parse content with
    | error e =>
        obtain ⟨i, -, hassigns, hbad, -⟩ := firstBad_of_parse hparse
        exact absurd hbad (hgood i e.key e.value.toList hassigns)
    | ok layer =>
        obtain ⟨opened, hsums⟩ := sums_of_parse hparse
        exact ⟨layer, rfl, hsums.last⟩
  · intro line _ hheading
    obtain ⟨inside, rfl⟩ := isHeading_iff.mp hheading
    exact ⟨inside, rfl, heading?_of_brackets inside⟩

/-- Assignments outside the section do not count, good or bad. Inside it the first bad value is
reported, though a second one follows; without bad values the later of two assignments counts, also
where the section was left in between. -/
theorem parse_first_bad_or_last_sections :
    (parse "max_steps = x\n[machine]\nloop_max = 1x\nmax_steps = y" = .error ⟨.loopMax, "1x", 3⟩ ∧
      FirstBad (cleanLines "max_steps = x\n[machine]\nloop_max = 1x\nmax_steps = y")
        ⟨.loopMax, "1x", 3⟩) ∧
    parse "[machine]\ntape_size = 1\n[x]\nloop_max = y\n[ machine ]\ntape_size = \"+2\"" =
      .ok ⟨some 2, none, none, none⟩ ∧
    ∀ key, LastValue (cleanLines
      "[machine]\ntape_size = 1\n[x]\nloop_max = y\n[ machine ]\ntape_size = \"+2\"") key
      (Layer.get? ⟨some 2, none, none, none⟩ key) := by
  have hbad : parse "max_steps = x\n[machine]\nloop_max = 1x\nmax_steps = y" =
      .error ⟨.loopMax, "1x", 3⟩ := rfl
  have hlayer : parse
      "[machine]\ntape_size = 1\n[x]\nloop_max = y\n[ machine ]\ntape_size = \"+2\"" =
        .ok ⟨some 2, none, none, none⟩ := rfl
  refine ⟨⟨hbad, (parse_first_bad_or_last _).2.1 _ hbad⟩, hlayer, ?_⟩
  obtain ⟨herror, -, hlast, -⟩ := parse_first_bad_or_last
    "[machine]\ntape_size = 1\n[x]\nloop_max = y\n[ machine ]\ntape_size = \"+2\""
  obtain ⟨layer, hparse, hvalues⟩ := hlast fun i key value hassigns hvalue => by
    obtain ⟨e, he⟩ := herror.mpr ⟨i, key, value, hassigns, hvalue⟩
    rw [hlayer] at he
    cases he
  rw [hlayer] at hparse
  cases hparse
  exact hvalues

end Config
end Brainfuck
