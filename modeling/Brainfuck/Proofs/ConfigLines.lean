import Brainfuck.Config.File
import Brainfuck.Proofs.Numerals

/-!
What one line of a config file can be: a heading, an assignment of a value to a name, or neither.
Each is said of the cleaned line as a text put together from its parts, and the readers of the
config file are shown to take such texts apart again.

Main statement: the rules for what reading a line comes to are exactly its readings.
-/

namespace Brainfuck.Config

open Text

/-- The line starts a section. -/
def IsHeading (cleaned : List Char) : Prop :=
  cleaned.head? = some '[' ∧ cleaned.getLast? = some ']'

/-- The line starts the section that counts: the blanks around its name apart, it is the word
between square brackets. -/
def NamesMachine (cleaned : List Char) : Prop :=
  ∃ inside, cleaned = '[' :: (inside ++ [']']) ∧ trim inside = "machine".toList

/-- The name stands before the first equals sign and the value behind it. Blanks around either are
left out, and then the quotes around the value. -/
def Assigns (cleaned name value : List Char) : Prop :=
  ∃ front back, cleaned = front ++ '=' :: back ∧ '=' ∉ front ∧
    name = trim front ∧ value = stripWhile (· == '"') (trim back)

/-- The value is a numeral of `n`, underscores apart. -/
def Reads (value : List Char) (n : Nat) : Prop :=
  Denotes (value.filter (· != '_')) n

/-- The value is no numeral. -/
def Bad (value : List Char) : Prop :=
  ∀ n, ¬ Reads value n

theorem readValue?_eq_some_iff {value : List Char} {n : Nat} :
    readValue? value = some n ↔ Reads value n :=
  readNumeral?_eq_some_iff

theorem readValue?_eq_none_iff {value : List Char} : readValue? value = none ↔ Bad value :=
  readNumeral?_eq_none_iff

/-- A line that begins and ends with the brackets has room for both, whatever is between them. -/
theorem isHeading_iff {cleaned : List Char} :
    IsHeading cleaned ↔ ∃ inside, cleaned = '[' :: (inside ++ [']']) := by
  constructor
  · intro h
    obtain ⟨rest, rfl⟩ := List.head?_eq_some_iff.mp h.1
    cases hrest : rest.getLast? with
    | none =>
        obtain rfl := List.getLast?_eq_none_iff.mp hrest
        exact absurd h.2 (by decide)
    | some c =>
        obtain ⟨inside, rfl⟩ := List.getLast?_eq_some_iff.mp hrest
        have hlast := h.2
        rw [← List.cons_append, List.getLast?_concat] at hlast
        cases hlast
        exact ⟨inside, rfl⟩
  · intro h
    obtain ⟨inside, rfl⟩ := h
    exact ⟨rfl, by rw [← List.cons_append, List.getLast?_concat]⟩

theorem NamesMachine.isHeading {cleaned : List Char} (h : NamesMachine cleaned) :
    IsHeading cleaned := by
  obtain ⟨inside, hcleaned, -⟩ := h
  exact isHeading_iff.mpr ⟨inside, hcleaned⟩

theorem namesMachine_iff {inside : List Char} :
    NamesMachine ('[' :: (inside ++ [']'])) ↔ trim inside = "machine".toList := by
  constructor
  · intro h
    obtain ⟨inside', heq, hname⟩ := h
    rw [List.cons.injEq, List.append_cancel_right_eq] at heq
    rw [heq.2]
    exact hname
  · intro h
    exact ⟨inside, rfl, h⟩

theorem heading?_of_brackets (inside : List Char) :
    heading? ('[' :: (inside ++ [']'])) = some inside := by
  rw [heading?, if_pos]
  · rw [List.drop_one, List.tail_cons, List.dropLast_concat]
  · rw [← List.cons_append, List.getLast?_concat]
    rfl

theorem heading?_of_not_isHeading {cleaned : List Char} (h : ¬ IsHeading cleaned) :
    heading? cleaned = none := by
  apply if_neg
  rw [Bool.and_eq_true, beq_iff_eq, beq_iff_eq]
  exact h

theorem assignment?_of_parts {front : List Char} (hfront : '=' ∉ front) (back : List Char) :
    assignment? (front ++ '=' :: back) =
      some (trim front, stripWhile (· == '"') (trim back)) := by
  have hpass : ∀ c ∈ front, (c != '=') = true := by
    intro c hc
    rw [bne_iff_ne]
    exact fun heq => hfront (heq ▸ hc)
  have hstop : ¬ ('=' != '=') = true := by decide
  rw [assignment?, if_pos (by simp), List.takeWhile_append_of_pos hpass,
    List.dropWhile_append_of_pos hpass, List.takeWhile_cons_of_neg (p := (· != '=')) hstop,
    List.dropWhile_cons_of_neg (p := (· != '=')) hstop, List.append_nil, List.drop_one,
    List.tail_cons]

theorem assignment?_eq_some_iff {cleaned name value : List Char} :
    assignment? cleaned = some (name, value) ↔ Assigns cleaned name value := by
  constructor
  · intro h
    by_cases hmem : '=' ∈ cleaned
    · obtain ⟨front, back, rfl, hfront⟩ := List.eq_append_cons_of_mem hmem
      rw [assignment?_of_parts hfront] at h
      cases h
      exact ⟨front, back, rfl, hfront, rfl, rfl⟩
    · rw [assignment?, if_neg (by simpa using hmem)] at h
      cases h
  · intro h
    obtain ⟨front, back, rfl, hfront, rfl, rfl⟩ := h
    exact assignment?_of_parts hfront back

theorem Assigns.unique {cleaned name name' value value' : List Char}
    (h : Assigns cleaned name value) (h' : Assigns cleaned name' value') :
    name = name' ∧ value = value' := by
  have hsame := assignment?_eq_some_iff.mpr h
  rw [assignment?_eq_some_iff.mpr h'] at hsame
  cases hsame
  exact ⟨rfl, rfl⟩

theorem ofName?_eq_some_iff {name : String} {key : Key} :
    Key.ofName? name = some key ↔ name = key.name := by
  constructor
  · intro h
    have hname := List.find?_some h
    exact (of_decide_eq_true hname).symm
  · intro h
    subst h
    cases key <;> rfl

/-- What reading a cleaned line of that number comes to, one rule for each thing the line can be: a
heading, nothing that counts, an assignment of a number, or one of a value that is none. -/
inductive LineRead (number : Nat) (p : Progress) (cleaned : List Char) :
    Except InvalidValue Progress → Prop where
  | heading {inside : List Char} : cleaned = '[' :: (inside ++ [']']) →
      LineRead number p cleaned
        (.ok { p with inMachine := decide (trim inside = "machine".toList) })
  | passed : ¬ IsHeading cleaned →
      (p.inMachine = true → ∀ (key : Key) value, ¬ Assigns cleaned key.name.toList value) →
      LineRead number p cleaned (.ok p)
  | assigned {key : Key} {value : List Char} {n : Nat} : ¬ IsHeading cleaned → p.inMachine = true →
      Assigns cleaned key.name.toList value → Reads value n →
      LineRead number p cleaned (.ok { p with layer := p.layer.set key n })
  | bad {key : Key} {value : List Char} : ¬ IsHeading cleaned → p.inMachine = true →
      Assigns cleaned key.name.toList value → Bad value →
      LineRead number p cleaned (.error ⟨key, String.ofList value, number⟩)

/-- Every line falls under some rule. -/
theorem exists_lineRead (number : Nat) (p : Progress) (cleaned : List Char) :
    ∃ r, LineRead number p cleaned r := by
  by_cases hheading : IsHeading cleaned
  · obtain ⟨inside, hinside⟩ := isHeading_iff.mp hheading
    exact ⟨_, .heading hinside⟩
  · by_cases hcounts :
        p.inMachine = true ∧ ∃ (key : Key) (value : _), Assigns cleaned key.name.toList value
    · obtain ⟨hp, key, value, hassigns⟩ := hcounts
      by_cases hreads : ∃ n, Reads value n
      · obtain ⟨n, hn⟩ := hreads
        exact ⟨_, .assigned hheading hp hassigns hn⟩
      · exact ⟨_, .bad hheading hp hassigns (not_exists.mp hreads)⟩
    · refine ⟨_, .passed hheading ?_⟩
      intro hp key value hassigns
      exact hcounts ⟨hp, key, value, hassigns⟩

section ReadLine

variable {number : Nat} {p : Progress} {line : List Char} {r : Except InvalidValue Progress}

theorem readLine_heading {inside : List Char} (h : clean line = '[' :: (inside ++ [']'])) :
    readLine number p line =
      .ok { p with inMachine := decide (trim inside = "machine".toList) } := by
  have hname : (String.ofList (trim inside) = "machine") = (trim inside = "machine".toList) := by
    rw [← String.toList_inj, String.toList_ofList]
  simp only [readLine, h, heading?_of_brackets, hname]

theorem readLine_passed (h : ¬ IsHeading (clean line))
    (hnone : p.inMachine = true →
      ∀ (key : Key) value, ¬ Assigns (clean line) key.name.toList value) :
    readLine number p line = .ok p := by
  simp only [readLine, heading?_of_not_isHeading h]
  split
  · next hp =>
      cases hassign : assignment? (clean line) with
      | none => rfl
      | some parts =>
          obtain ⟨name, value⟩ := parts
          cases hkey : Key.ofName? (String.ofList name) with
          | none => simp only [hkey]
          | some key =>
              have hname : name = key.name.toList := by
                rw [← ofName?_eq_some_iff.mp hkey, String.toList_ofList]
              subst hname
              exact absurd (assignment?_eq_some_iff.mp hassign) (hnone hp key value)
  · rfl

theorem readLine_assignment {key : Key} {value : List Char} (h : ¬ IsHeading (clean line))
    (hp : p.inMachine = true) (hassigns : Assigns (clean line) key.name.toList value) :
    readLine number p line =
      match readValue? value with
      | some n => .ok { p with layer := p.layer.set key n }
      | none => .error ⟨key, String.ofList value, number⟩ := by
  have hassign := assignment?_eq_some_iff.mpr hassigns
  have hkey : Key.ofName? (String.ofList key.name.toList) = some key := by
    rw [String.ofList_toList]
    exact ofName?_eq_some_iff.mpr rfl
  cases hvalue : readValue? value with
  | some n => simp only [readLine, heading?_of_not_isHeading h, hp, if_true, hassign, hkey, hvalue]
  | none => simp only [readLine, heading?_of_not_isHeading h, hp, if_true, hassign, hkey, hvalue]

theorem readLine_of_lineRead (h : LineRead number p (clean line) r) :
    readLine number p line = r := by
  cases h with
  | heading hinside => exact readLine_heading hinside
  | passed hheading hnone => exact readLine_passed hheading hnone
  | assigned hheading hp hassigns hreads =>
      rw [readLine_assignment hheading hp hassigns, readValue?_eq_some_iff.mpr hreads]
  | bad hheading hp hassigns hbad =>
      rw [readLine_assignment hheading hp hassigns, readValue?_eq_none_iff.mpr hbad]

/-- The rules are exactly the readings. -/
theorem readLine_eq_iff : readLine number p line = r ↔ LineRead number p (clean line) r := by
  constructor
  · intro h
    obtain ⟨r', hrule⟩ := exists_lineRead number p (clean line)
    rw [← h, readLine_of_lineRead hrule]
    exact hrule
  · exact readLine_of_lineRead

end ReadLine

/-- Lines further down are read from where the lines above them lead. -/
theorem readLines_append (number : Nat) (p : Progress) (ls ls' : List (List Char)) :
    readLines number p (ls ++ ls') =
      match readLines number p ls with
      | .error e => .error e
      | .ok p' => readLines (number + ls.length) p' ls' := by
  induction ls generalizing number p with
  | nil => rfl
  | cons line ls ih =>
      simp only [List.cons_append, readLines]
      cases readLine number p line with
      | error e => rfl
      | ok p' =>
          simp only [ih]
          rw [List.length_cons, Nat.add_right_comm, Nat.add_assoc]

theorem parse_eq_error_iff {content : String} {e : InvalidValue} :
    parse content = .error e ↔
      readLines 1 ⟨false, .empty⟩ (lines content.toList) = .error e := by
  rw [parse]
  cases readLines 1 ⟨false, .empty⟩ (lines content.toList) with
  | error e' => simp only [Except.map, Except.error.injEq]
  | ok p => simp only [Except.map, reduceCtorEq]

theorem parse_eq_ok_iff {content : String} {layer : Layer} :
    parse content = .ok layer ↔
      ∃ opened, readLines 1 ⟨false, .empty⟩ (lines content.toList) = .ok ⟨opened, layer⟩ := by
  rw [parse]
  cases readLines 1 ⟨false, .empty⟩ (lines content.toList) with
  | error e => simp only [Except.map, reduceCtorEq, exists_false]
  | ok p =>
      constructor
      · intro h
        cases h
        exact ⟨p.inMachine, rfl⟩
      · intro h
        obtain ⟨opened, heq⟩ := h
        cases heq
        rfl

end Brainfuck.Config
