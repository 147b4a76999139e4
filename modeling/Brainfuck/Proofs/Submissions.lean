import Brainfuck.Proofs.Pieces
import Brainfuck.Proofs.Trims
import Brainfuck.Submission

/-!
Submissions as texts. A buffer is cut at its first separator line: what is above it is the source,
and what is below it, less the line break at its end, is the input. So a source of whole lines, none
of them a separator, can be put in front of a separator line and any input, and is found again; the
input is found again unless the line break that was dropped was its own.

Main statement: splitting a buffer loses nothing, and it undoes putting one together.
-/

namespace Brainfuck.Submission

open Text

/-- The line is an exclamation mark, line breaks behind it apart. -/
def Separates (line : List Char) : Prop :=
  ∃ breaks, line = '!' :: breaks ∧ ∀ c ∈ breaks, c = '\r' ∨ c = '\n'

theorem isLineBreak_iff {c : Char} : isLineBreak c = true ↔ c = '\r' ∨ c = '\n' := by
  simp [isLineBreak]

theorem isSeparator_iff {line : List Char} : isSeparator line = true ↔ Separates line := by
  rw [isSeparator, beq_iff_eq]
  constructor
  · intro h
    obtain ⟨breaks, hline, hbreaks⟩ := exists_dropEndWhile isLineBreak line
    rw [h] at hline
    exact ⟨breaks, hline, fun c hc => isLineBreak_iff.mp (hbreaks c hc)⟩
  · intro h
    obtain ⟨breaks, rfl, hbreaks⟩ := h
    exact dropEndWhile_append (fun c hc => isLineBreak_iff.mpr (hbreaks c hc)) ['!']

theorem not_isSeparator_iff {line : List Char} :
    (!isSeparator line) = true ↔ ¬ Separates line := by
  rw [Bool.not_eq_true', ← isSeparator_iff, Bool.not_eq_true]

/-- A separator with a line end is an exclamation mark and carriage returns in front of it. -/
theorem Separates.exists_returns {text line : List Char} (h : Separates line)
    (hline : line ∈ lines text) (hlast : line.getLast? = some '\n') :
    ∃ k, line = '!' :: (List.replicate k '\r' ++ ['\n']) := by
  obtain ⟨breaks, rfl, hbreaks⟩ := h
  obtain ⟨front, hfront⟩ := List.getLast?_eq_some_iff.mp hlast
  have hends := no_end_of_mem_pieces hline
  rw [hfront, List.dropLast_concat] at hends
  cases front with
  | nil => cases hfront
  | cons mark returns =>
      rw [List.cons_append, List.cons.injEq] at hfront
      obtain ⟨rfl, rfl⟩ := hfront
      have hreturns : ∀ c ∈ returns, c = '\r' := by
        intro c hc
        have hbreak := hbreaks c (List.mem_append_left _ hc)
        exact hbreak.resolve_right (beq_eq_false_iff_ne.mp (hends c (List.mem_cons_of_mem _ hc)))
      exact ⟨returns.length, by rw [← List.eq_replicate_of_mem hreturns]⟩

theorem not_separates_of_mem_lines {source : List Char} (hends : source.getLast? = some '\n')
    (hnone : ∀ k, '!' :: (List.replicate k '\r' ++ ['\n']) ∉ lines source) :
    ∀ line ∈ lines source, ¬ Separates line := by
  intro line hline hseparates
  obtain ⟨d, hd, hend⟩ := end_of_mem_pieces hends rfl hline
  obtain rfl : d = '\n' := beq_iff_eq.mp hend
  obtain ⟨k, rfl⟩ := hseparates.exists_returns hline hd
  exact hnone k hline

theorem parse_of_no_separator {buffer : List Char} (h : ∀ line ∈ lines buffer, ¬ Separates line) :
    parse buffer = ⟨buffer, []⟩ := by
  have hpass : ∀ line ∈ lines buffer, (!isSeparator line) = true := fun line hline =>
    not_isSeparator_iff.mpr (h line hline)
  have hbuffer : (lines buffer).flatten = buffer := flatten_pieces _ _
  rw [parse, ofLines, List.takeWhile_eq_self_iff.mpr hpass, List.dropWhile_eq_nil_iff.mpr hpass,
    hbuffer]
  rfl

/-- The first separator line parts the lines of the source from those of the input. -/
theorem parse_of_lines {buffer separator : List Char} {above below : List (List Char)}
    (h : lines buffer = above ++ separator :: below) (habove : ∀ line ∈ above, ¬ Separates line)
    (hseparator : Separates separator) :
    parse buffer = ⟨above.flatten, dropFinalBreak below.flatten⟩ := by
  have hpass : ∀ line ∈ above, (!isSeparator line) = true := fun line hline =>
    not_isSeparator_iff.mpr (habove line hline)
  have hstop : ¬ (!isSeparator separator) = true := fun hpasses =>
    not_isSeparator_iff.mp hpasses hseparator
  rw [parse, h, ofLines, List.takeWhile_append_of_pos hpass, List.dropWhile_append_of_pos hpass,
    List.takeWhile_cons_of_neg (p := (!isSeparator ·)) hstop,
    List.dropWhile_cons_of_neg (p := (!isSeparator ·)) hstop, List.append_nil, List.drop_one,
    List.tail_cons]

theorem exists_first_separator {ls : List (List Char)} (h : ∃ line ∈ ls, Separates line) :
    ∃ above separator below, ls = above ++ separator :: below ∧
      (∀ line ∈ above, ¬ Separates line) ∧ Separates separator := by
  obtain ⟨line, hline, hseparates⟩ := h
  obtain ⟨separator, hfind⟩ := Option.isSome_iff_exists.mp
    (List.find?_isSome.mpr ⟨line, hline, isSeparator_iff.mpr hseparates⟩)
  obtain ⟨hseparator, above, below, hls, habove⟩ := List.find?_eq_some_iff_append.mp hfind
  exact ⟨above, separator, below, hls, fun line hline => not_isSeparator_iff.mp (habove line hline),
    isSeparator_iff.mp hseparator⟩

/-- A source of whole lines, a separator line and a rest. -/
theorem parse_assembled {source : List Char} (hwhole : source = [] ∨ source.getLast? = some '\n')
    (hnone : ∀ line ∈ lines source, ¬ Separates line) {returns : List Char}
    (hreturns : ∀ c ∈ returns, c = '\r') (rest : List Char) :
    parse (source ++ '!' :: (returns ++ '\n' :: rest)) = ⟨source, dropFinalBreak rest⟩ := by
  have hline : '\n' ∉ '!' :: returns := by
    intro hmem
    rcases List.mem_cons.mp hmem with heq | hreturn
    · cases heq
    · cases hreturns _ hreturn
  have hlines : lines (source ++ '!' :: (returns ++ '\n' :: rest)) =
      lines source ++ ('!' :: (returns ++ ['\n'])) :: lines rest := by
    rw [lines_append_of_whole hwhole, ← List.cons_append, lines_line hline, List.cons_append]
  have hseparates : Separates ('!' :: (returns ++ ['\n'])) := by
    refine ⟨returns ++ ['\n'], rfl, ?_⟩
    intro c hc
    rcases List.mem_append.mp hc with hreturn | hend
    · exact .inl (hreturns c hreturn)
    · exact .inr (List.mem_singleton.mp hend)
  have hsource : (lines source).flatten = source := flatten_pieces _ _
  have hrest : (lines rest).flatten = rest := flatten_pieces _ _
  rw [parse_of_lines hlines hnone hseparates, hsource, hrest]

theorem dropFinalBreak_newline (input : List Char) :
    dropFinalBreak (input ++ ['\n']) = dropLastIf '\r' input := by
  rw [dropFinalBreak, dropLastIf_concat]

theorem dropFinalBreak_return_newline (input : List Char) :
    dropFinalBreak (input ++ ['\r'] ++ ['\n']) = input := by
  rw [dropFinalBreak_newline, dropLastIf_concat]

/-- A text stays as it is just if it does not end with a line break. -/
theorem dropFinalBreak_eq_self_iff {input : List Char} :
    dropFinalBreak input = input ↔ input.getLast? ≠ some '\n' ∧ input.getLast? ≠ some '\r' := by
  by_cases hnewline : input.getLast? = some '\n'
  · refine iff_of_false ?_ (fun h => h.1 hnewline)
    obtain ⟨front, rfl⟩ := List.getLast?_eq_some_iff.mp hnewline
    intro h
    have hwithout := without_dropLastIf '\r' front
    rw [dropFinalBreak_newline] at h
    rw [h] at hwithout
    rcases hwithout with hlonger | ⟨-, hsame⟩
    · have hlength := congrArg List.length hlonger
      simp only [List.length_append, List.length_singleton] at hlength
      omega
    · simp at hsame
  · rw [dropFinalBreak, dropLastIf_of_ne hnewline, dropLastIf_eq_self_iff]
    exact (and_iff_right hnewline).symm

/-- The buffer is the source, its first separator line and a rest; the input is the rest without one
newline at its end, and then without one carriage return. -/
structure SplitsAt (buffer separator rest : List Char) (s : Submission) : Prop where
  whole : buffer = s.source ++ separator ++ rest
  line : lines buffer = lines s.source ++ separator :: lines rest
  separates : Separates separator
  first : ∀ line ∈ lines s.source, ¬ Separates line
  input : ∃ middle, Without '\n' rest middle ∧ Without '\r' middle s.input

theorem exists_splitsAt {buffer : List Char} (h : ∃ line ∈ lines buffer, Separates line) :
    ∃ separator rest, SplitsAt buffer separator rest (parse buffer) := by
  obtain ⟨above, separator, below, hlines, habove, hseparates⟩ := exists_first_separator h
  have hsource : lines above.flatten = above := (pieces_flatten hlines).1
  have hrest : lines below.flatten = below := by
    rw [← List.singleton_append, ← List.append_assoc] at hlines
    exact (pieces_flatten hlines).2
  refine ⟨separator, below.flatten, ?_⟩
  rw [parse_of_lines hlines habove hseparates]
  refine ⟨?_, ?_, hseparates, ?_, ?_⟩
  · have hbuffer : (lines buffer).flatten = buffer := flatten_pieces _ _
    rw [hlines, List.flatten_append, List.flatten_cons, ← List.append_assoc] at hbuffer
    exact hbuffer.symm
  · rw [hsource, hrest]
    exact hlines
  · rw [hsource]
    exact habove
  · exact ⟨_, without_dropLastIf '\n' _, without_dropLastIf '\r' _⟩

/-- Splitting loses nothing and undoes putting together. A buffer without a separator line is all
source; any other is its source, its first separator line and a rest, from which the input is taken.
Conversely a source of whole lines that holds no separator line, put in front of a separator line
and an input, is found again. So is the input: always if a carriage return and a newline end the
buffer; just if it does not end with a carriage return, if a newline does; and just if it ends with
neither, if nothing follows it. -/
theorem splitting_round_trips (buffer source input : List Char) :
    ((∀ line ∈ lines buffer, ¬ Separates line) → parse buffer = ⟨buffer, []⟩) ∧
    ((∃ line ∈ lines buffer, Separates line) →
      ∃ separator rest, SplitsAt buffer separator rest (parse buffer)) ∧
    ((source = [] ∨ source.getLast? = some '\n') → (∀ line ∈ lines source, ¬ Separates line) →
      (parse (source ++ "!\n".toList ++ input ++ "\r\n".toList) = ⟨source, input⟩) ∧
      ((parse (source ++ "!\n".toList ++ input ++ "\n".toList)).source = source ∧
        ((parse (source ++ "!\n".toList ++ input ++ "\n".toList)).input = input ↔
          input.getLast? ≠ some '\r')) ∧
      ((parse (source ++ "!\n".toList ++ input)).source = source ∧
        ((parse (source ++ "!\n".toList ++ input)).input = input ↔
          input.getLast? ≠ some '\n' ∧ input.getLast? ≠ some '\r'))) := by
  refine ⟨parse_of_no_separator, exists_splitsAt, ?_⟩
  intro hwhole hnone
  have hparse (rest : List Char) :
      parse (source ++ "!\n".toList ++ rest) = ⟨source, dropFinalBreak rest⟩ := by
    rw [List.append_assoc]
    exact parse_assembled hwhole hnone (List.forall_mem_nil _) rest
  have hreturn : dropFinalBreak (input ++ "\r\n".toList) = input := by
    have hboth := dropFinalBreak_return_newline input
    rw [List.append_assoc] at hboth
    exact hboth
  have hnewline : dropFinalBreak (input ++ "\n".toList) = dropLastIf '\r' input :=
    dropFinalBreak_newline input
  rw [List.append_assoc _ input, List.append_assoc _ input, hparse, hparse, hparse, hreturn,
    hnewline]
  exact ⟨rfl, ⟨rfl, dropLastIf_eq_self_iff⟩, rfl, dropFinalBreak_eq_self_iff⟩

/-- An input with a separator line in it and a carriage return at its end, which only a line break of
two characters keeps; a separator line with two carriage returns; and a buffer with an exclamation
mark that stands in no line of its own. -/
theorem splitting_round_trips_returns :
    (parse (",.\n".toList ++ "!\n".toList ++ "a\n!\nb\r".toList ++ "\r\n".toList) =
        ⟨",.\n".toList, "a\n!\nb\r".toList⟩ ∧
      (parse (",.\n".toList ++ "!\n".toList ++ "a\n!\nb\r".toList ++ "\n".toList)).input ≠
        "a\n!\nb\r".toList) ∧
    (∃ separator rest, SplitsAt "+\n!\r\r\nx".toList separator rest
      (parse "+\n!\r\r\nx".toList)) ∧
    parse "+!\n! ".toList = ⟨"+!\n! ".toList, []⟩ := by
  obtain ⟨-, hsplits, hassembled⟩ :=
    splitting_round_trips "+\n!\r\r\nx".toList ",.\n".toList "a\n!\nb\r".toList
  obtain ⟨hplain, -, -⟩ := splitting_round_trips "+!\n! ".toList [] []
  simp only [← isSeparator_iff] at hsplits hassembled hplain
  obtain ⟨hboth, ⟨-, hnewline⟩, -⟩ := hassembled (.inr (by decide)) (by decide)
  exact ⟨⟨hboth, fun hinput => hnewline.mp hinput (by decide)⟩, hsplits (by decide),
    hplain (by decide)⟩

end Brainfuck.Submission
