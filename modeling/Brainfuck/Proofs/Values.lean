import Brainfuck.Config.Source
import Brainfuck.Proofs.Assignments
import Brainfuck.Proofs.Pieces
import Brainfuck.Proofs.Trims

/-!
Numbers in the two places where a setting can be given one: behind the equals sign of a line in the
config file, and in a variable of the environment. Both leave out the blanks around the number. The
file also leaves out quotes around it and underscores in it, the environment does not.

Main statement: both read the same numerals as the same numbers, apart from quotes and underscores.
-/

namespace Brainfuck.Config

open Text

/-- The config file that gives one key a value. -/
def assigning (key : Key) (value : String) : String :=
  "[machine]\n" ++ key.name ++ " = " ++ value ++ "\n"

/-- What a config file makes of a text in the place of a value: the blanks around it and then the
quotes around it are left out. -/
def unquoted (value : String) : List Char :=
  stripWhile (· == '"') (trim value.toList)

section Assigning

variable {key : Key} {value : String} (hline : '\n' ∉ value.toList) (hcomment : '#' ∉ value.toList)

include hline in
theorem lines_assigning :
    lines (assigning key value).toList =
      ["[machine]\n".toList, key.name.toList ++ " = ".toList ++ value.toList ++ ['\n']] := by
  have htext : (assigning key value).toList = "[machine]".toList ++ '\n' ::
      (key.name.toList ++ " = ".toList ++ value.toList ++ '\n' :: []) := by
    simp [assigning]
  have hname : '\n' ∉ key.name.toList := by cases key <;> decide
  have hfront : '\n' ∉ key.name.toList ++ " = ".toList ++ value.toList := by
    simp [hname, hline]
  rw [htext, lines_line (by decide), lines_line hfront]
  rfl

include hcomment in
/-- The cleaned line of an assignment ends with what is left of the value. -/
theorem exists_clean_assigning :
    ∃ back, clean (key.name.toList ++ " = ".toList ++ value.toList ++ ['\n']) =
      key.name.toList ++ [' '] ++ '=' :: back ∧ trim back = trim value.toList := by
  have hall : ∀ c ∈ key.name.toList ++ " = ".toList ++ value.toList ++ ['\n'],
      (c != '#') = true := by
    have hname : '#' ∉ key.name.toList := by cases key <;> decide
    intro c hc
    rw [bne_iff_ne]
    rintro rfl
    simp [hname, hcomment] at hc
  have hstart : (key.name.toList ++ " = ".toList ++ value.toList ++ ['\n']).dropWhile isBlank =
      key.name.toList ++ [' '] ++ '=' :: (' ' :: (value.toList ++ ['\n'])) := by
    cases key <;> rfl
  refine ⟨dropEndWhile isBlank (' ' :: (value.toList ++ ['\n'])), ?_, ?_⟩
  · rw [clean, List.takeWhile_eq_self_iff.mpr hall, trim, stripWhile, hstart]
    exact dropEndWhile_of_stop (by decide) _ _
  · rw [trim, stripWhile_dropEndWhile]
    exact stripWhile_append (List.forall_mem_singleton.mpr (by decide))
      (List.forall_mem_singleton.mpr (by decide)) value.toList

include hline hcomment

theorem parse_assigning :
    parse (assigning key value) =
      match readValue? (unquoted value) with
      | some n => .ok (Layer.empty.set key n)
      | none => .error ⟨key, String.ofList (unquoted value), 2⟩ := by
  obtain ⟨back, hclean, hback⟩ := @exists_clean_assigning key value hcomment
  have hsection : readLine 1 ⟨false, .empty⟩ "[machine]\n".toList = .ok ⟨true, .empty⟩ := rfl
  have hheading : ¬ IsHeading
      (clean (key.name.toList ++ " = ".toList ++ value.toList ++ ['\n'])) := by
    rw [hclean]
    intro h
    cases key <;> cases h.1
  have hassigns : Assigns (clean (key.name.toList ++ " = ".toList ++ value.toList ++ ['\n']))
      key.name.toList (unquoted value) := by
    refine ⟨key.name.toList ++ [' '], back, hclean, ?_, ?_, ?_⟩
    · cases key <;> decide
    · cases key <;> rfl
    · rw [unquoted, hback]
  have hread := @readLine_assignment 2 ⟨true, .empty⟩ _ key _ hheading rfl hassigns
  rw [parse, lines_assigning hline]
  simp only [readLines, hsection, hread]
  cases readValue? (unquoted value) with
  | some n => rfl
  | none => rfl

theorem exists_layer_iff {n : Nat} :
    (∃ layer, parse (assigning key value) = .ok layer ∧ layer.get? key = some n) ↔
      Reads (unquoted value) n := by
  rw [parse_assigning hline hcomment, ← readValue?_eq_some_iff]
  cases readValue? (unquoted value) with
  | none => simp
  | some m =>
      have hget : (Layer.empty.set key m).get? key = some m := by
        rw [Layer.get?_set, if_pos rfl]
      simp [hget]

theorem parse_of_bad (h : Bad (unquoted value)) :
    parse (assigning key value) = .error ⟨key, String.ofList (unquoted value), 2⟩ := by
  rw [parse_assigning hline hcomment, readValue?_eq_none_iff.mpr h]

end Assigning

section Variables

variable {env : Environment} {key : Key} {raw : String} (hraw : env key.variableName = some raw)
include hraw

theorem get?_layer : env.layer.get? key = readVariable? raw := by
  have hbind : env.layer.get? key = (env key.variableName).bind readVariable? := by
    cases key <;> rfl
  rw [hbind, hraw, Option.bind_some]

theorem get?_layer_eq_some_iff {n : Nat} :
    env.layer.get? key = some n ↔ Denotes (trim raw.toList) n := by
  rw [get?_layer hraw]
  exact readNumeral?_eq_some_iff

theorem get?_layer_of_bad (hbad : ∀ n, ¬ Denotes (trim raw.toList) n) :
    env.layer.get? key = none := by
  rw [get?_layer hraw]
  exact readNumeral?_eq_none_iff.mpr hbad

end Variables

/-- Without quotes and underscores, what the file makes of a value is what the environment does. -/
theorem reads_unquoted_iff {value : String} (hquote : '"' ∉ value.toList)
    (hunderscore : '_' ∉ value.toList) {n : Nat} :
    Reads (unquoted value) n ↔ Denotes (trim value.toList) n := by
  have hmem : ∀ c ∈ trim value.toList, c ∈ value.toList := by
    intro c hc
    rw [trim, stripWhile, dropEndWhile, List.mem_reverse] at hc
    exact (List.dropWhile_sublist _).mem
      (List.mem_reverse.mp ((List.dropWhile_sublist _).mem hc))
  have hplain : unquoted value = trim value.toList := by
    apply stripWhile_of_none
    intro c hc
    rw [beq_eq_false_iff_ne]
    rintro rfl
    exact hquote (hmem _ hc)
  have hkeep : (trim value.toList).filter (· != '_') = trim value.toList := by
    rw [List.filter_eq_self]
    intro c hc
    rw [bne_iff_ne]
    rintro rfl
    exact hunderscore (hmem _ hc)
  rw [Reads, hplain, hkeep]

theorem isBlank_of_digit {c : Char} (h : '0' ≤ c ∧ c ≤ '9') : isBlank c = false := by
  obtain ⟨hzero, hnine⟩ := h
  rw [Char.le_def, UInt32.le_iff_toNat_le] at hzero hnine
  have hlow : 48 ≤ c.toNat := hzero
  have hhigh : c.toNat ≤ 57 := hnine
  simp only [isBlank, inRanges, List.any_cons, List.any_nil, Bool.or_false, Bool.or_eq_false_iff,
    Bool.and_eq_false_iff, decide_eq_false_iff_not]
  omega

section Spelled

variable {text : String} {n : Nat}
  (hspelled : text.toList.filter (· != '_') = (toString n).toList)
include hspelled

theorem mem_spelled {c : Char} (hc : c ∈ text.toList) : c = '_' ∨ '0' ≤ c ∧ c ≤ '9' := by
  by_cases hunderscore : c = '_'
  · exact .inl hunderscore
  · have hmem : c ∈ text.toList.filter (· != '_') := by
      rw [List.mem_filter, bne_iff_ne]
      exact ⟨hc, hunderscore⟩
    rw [hspelled] at hmem
    exact .inr (mem_toString hmem)

/-- A character that is neither an underscore nor a digit does not stand in the text. -/
theorem not_mem_spelled {c : Char} (hunderscore : c ≠ '_') (hdigit : ¬ ('0' ≤ c ∧ c ≤ '9')) :
    c ∉ text.toList := fun hc =>
  (mem_spelled hspelled hc).elim hunderscore hdigit

/-- Quotes around the text are left out, and nothing else is. -/
theorem unquoted_spelled {quotes : String} (hquotes : ∀ c ∈ quotes.toList, c = '"') :
    unquoted (quotes ++ text ++ quotes) = text.toList := by
  have hblank : ∀ c ∈ quotes.toList ++ text.toList ++ quotes.toList, isBlank c = false := by
    intro c hc
    simp only [List.mem_append] at hc
    rcases hc with (hquote | htext) | hquote
    · rw [hquotes c hquote]
      decide
    · rcases mem_spelled hspelled htext with rfl | hdigit
      · decide
      · exact isBlank_of_digit hdigit
    · rw [hquotes c hquote]
      decide
  have hquote : ∀ c ∈ quotes.toList, (c == '"') = true := fun c hc =>
    beq_iff_eq.mpr (hquotes c hc)
  rw [unquoted, String.toList_append, String.toList_append, trim, stripWhile_of_none hblank,
    stripWhile_append hquote hquote]
  apply stripWhile_of_none
  intro c hc
  rw [beq_eq_false_iff_ne]
  rintro rfl
  exact not_mem_spelled hspelled (by decide) (by decide) hc

theorem exists_layer_spelled (hn : n < 2 ^ 64) (key : Key) {quotes : String}
    (hquotes : ∀ c ∈ quotes.toList, c = '"') :
    ∃ layer, parse (assigning key (quotes ++ text ++ quotes)) = .ok layer ∧
      layer.get? key = some n := by
  have hnone (c : Char) (hquote : c ≠ '"') (htext : c ∉ text.toList) :
      c ∉ (quotes ++ text ++ quotes).toList := by
    simp only [String.toList_append, List.mem_append, not_or]
    exact ⟨⟨fun hc => hquote (hquotes c hc), htext⟩, fun hc => hquote (hquotes c hc)⟩
  rw [exists_layer_iff (hnone '\n' (by decide) (not_mem_spelled hspelled (by decide) (by decide)))
    (hnone '#' (by decide) (not_mem_spelled hspelled (by decide) (by decide))),
    unquoted_spelled hspelled hquotes, Reads, hspelled]
  exact denotes_toString hn

end Spelled

/-- Numbers mean the same in the config file and in the environment. A file that gives a key the
value sets it to `n` just if the value, without the blanks around it, then the quotes around it and
then its underscores, is a numeral of `n`, and is in error about it if it is none. The key's variable
sets it to `n` just if the value without the blanks around it is a numeral of `n`, and does not set
it if it is none. So the two agree on values without quotes and underscores; and the file reads the
decimal text of every number back, with underscores anywhere in it, quoted or not. -/
theorem file_and_environment_agree (key : Key) :
    (∀ value : String, '\n' ∉ value.toList → '#' ∉ value.toList →
      (∀ n, (∃ layer, parse (assigning key value) = .ok layer ∧ layer.get? key = some n) ↔
        Denotes ((stripWhile (· == '"') (trim value.toList)).filter (· != '_')) n) ∧
      ((∀ n, ¬ Denotes ((stripWhile (· == '"') (trim value.toList)).filter (· != '_')) n) →
        parse (assigning key value) =
          .error ⟨key, String.ofList (stripWhile (· == '"') (trim value.toList)), 2⟩)) ∧
    (∀ (value : String) (env : Environment), env key.variableName = some value →
      (∀ n, env.layer.get? key = some n ↔ Denotes (trim value.toList) n) ∧
      ((∀ n, ¬ Denotes (trim value.toList) n) → env.layer.get? key = none)) ∧
    (∀ (value : String) (env : Environment), '\n' ∉ value.toList → '#' ∉ value.toList →
      '_' ∉ value.toList → '"' ∉ value.toList → env key.variableName = some value →
      ∀ n, (∃ layer, parse (assigning key value) = .ok layer ∧ layer.get? key = some n) ↔
        env.layer.get? key = some n) ∧
    (∀ n < 2 ^ 64, ∀ text : String, text.toList.filter (· != '_') = (toString n).toList →
      (∃ layer, parse (assigning key text) = .ok layer ∧ layer.get? key = some n) ∧
      ∃ layer, parse (assigning key ("\"" ++ text ++ "\"")) = .ok layer ∧
        layer.get? key = some n) := by
  refine ⟨?_, ?_, ?_, ?_⟩
  · intro value hline hcomment
    exact ⟨fun n => exists_layer_iff hline hcomment, parse_of_bad hline hcomment⟩
  · intro value env hvalue
    exact ⟨fun n => get?_layer_eq_some_iff hvalue, get?_layer_of_bad hvalue⟩
  · intro value env hline hcomment hunderscore hquote hvalue n
    rw [exists_layer_iff hline hcomment, reads_unquoted_iff hquote hunderscore,
      get?_layer_eq_some_iff hvalue]
  · intro n hn text hspelled
    have hbare := @exists_layer_spelled text n hspelled hn key "" (List.forall_mem_nil _)
    have hquoted := @exists_layer_spelled text n hspelled hn key "\"" (by simp)
    rw [String.empty_append, String.append_empty] at hbare
    exact ⟨hbare, hquoted⟩

/-- The largest number that fits, with underscores and quotes, and the next one, which does not fit;
a value with a sign, leading zeros and blanks around it, which the file reads as the environment
does; and a quoted one, which the environment passes over. -/
theorem file_and_environment_agree_largest :
    (∃ layer, parse (assigning .tapeSize "\"_18_446744073709551615_\"") = .ok layer ∧
      layer.get? .tapeSize = some 18446744073709551615) ∧
    parse (assigning .tapeSize " 18446744073709551616") =
      .error ⟨.tapeSize, "18446744073709551616", 2⟩ ∧
    (∃ layer, parse (assigning .tapeSize "\u2003+007\r") = .ok layer ∧
      layer.get? .tapeSize = some 7) ∧
    (Environment.layer fun _ => some "\"7\"").get? .tapeSize = none := by
  obtain ⟨hfile, hvariable, hagree, hspelled⟩ := file_and_environment_agree .tapeSize
  refine ⟨?_, ?_, ?_, ?_⟩
  · exact (hspelled 18446744073709551615 (by decide) "_18_446744073709551615_" (by decide)).2
  · exact (hfile " 18446744073709551616" (by decide) (by decide)).2
      (readNumeral?_eq_none_iff.mp (by decide))
  · exact (hagree "\u2003+007\r" (fun _ => some "\u2003+007\r") (by decide) (by decide) (by decide)
      (by decide) rfl 7).mpr (by decide)
  · exact (hvariable "\"7\"" _ rfl).2 (readNumeral?_eq_none_iff.mp (by decide))

end Brainfuck.Config
