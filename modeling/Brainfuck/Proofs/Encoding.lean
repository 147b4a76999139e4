import Brainfuck.Proofs.Pieces
import Brainfuck.Submission

/-!
Texts as bytes. The encoding of a character holds the byte of a newline only if the character is
one, so the lines of encoded text are the encoded lines of the text. Conversely pieces that each
encode a text encode one together. Hence bytes can be checked line by line.

Main statement: what is taken line by line is what is taken whole.
-/

namespace Brainfuck

open Text

/-- The bytes that encode a text. -/
def utf8 (text : String) : List UInt8 :=
  text.toUTF8.data.toList

theorem utf8_eq (text : String) : utf8 text = text.toList.flatMap String.utf8EncodeChar := by
  rw [utf8, String.toUTF8_eq_toByteArray, ← String.utf8Encode_toList, List.utf8Encode,
    List.data_toByteArray]

theorem utf8_append (a b : String) : utf8 (a ++ b) = utf8 a ++ utf8 b := by
  simp only [utf8_eq, String.toList_append, List.flatMap_append]

theorem utf8_eq_nil_iff {text : String} : utf8 text = [] ↔ text = "" := by
  constructor
  · intro h
    rw [utf8_eq, List.flatMap_eq_nil_iff] at h
    rw [← String.toList_eq_nil_iff, List.eq_nil_iff_forall_not_mem]
    intro c hc
    exact String.utf8EncodeChar_ne_nil (h c hc)
  · intro h
    rw [h]
    rfl

theorem decodeText?_utf8 (text : String) : decodeText? (utf8 text) = some text := by
  rw [decodeText?, utf8, Array.toArray_toList, String.toUTF8_eq_toByteArray, String.fromUTF8?,
    dif_pos text.isValidUTF8]
  rfl

theorem decodeText?_eq_some_iff {bytes : List UInt8} {text : String} :
    decodeText? bytes = some text ↔ utf8 text = bytes := by
  constructor
  · intro h
    rw [decodeText?, String.fromUTF8?] at h
    split at h
    · cases h
      rfl
    · cases h
  · intro h
    rw [← h]
    exact decodeText?_utf8 text

theorem decodeText?_eq_none_iff {bytes : List UInt8} :
    decodeText? bytes = none ↔ ¬ ByteArray.IsValidUTF8 ⟨bytes.toArray⟩ := by
  rw [decodeText?, String.fromUTF8?]
  split
  · next hvalid => simp [hvalid]
  · next hinvalid => simp [hinvalid]

theorem readInput_eq_ok_iff {bytes : List UInt8} {text : String} :
    readInput false bytes = .ok text ↔ decodeText? bytes = some text := by
  rw [readInput, if_neg Bool.false_ne_true, decodeText]
  cases decodeText? bytes with
  | none => simp
  | some decoded => simp

theorem readInput_utf8 (text : String) : readInput false (utf8 text) = .ok text :=
  readInput_eq_ok_iff.mpr (decodeText?_utf8 text)

theorem newline_not_mem_utf8EncodeChar {c : Char} (hc : c ≠ '\n') :
    ∀ b ∈ String.utf8EncodeChar c, (b == 0x0A) = false := by
  have hnewline : c.val.toNat ≠ 10 := fun h => hc (Char.ext (UInt32.toNat_inj.mp h))
  have hten : (10 : UInt8).toNat = 10 := rfl
  intro b hb
  rw [beq_eq_false_iff_ne]
  rintro rfl
  simp only [String.utf8EncodeChar] at hb
  -- Only the encoding of one byte stays below 128.
  repeat' split at hb
  all_goals
    simp only [List.mem_cons, List.not_mem_nil, or_false, ← UInt8.toNat_inj, UInt8.toNat_ofNat',
      hten] at hb
    omega

/-- The lines of encoded text are the encoded lines of the text. -/
theorem pieces_encoded (cs : List Char) :
    pieces (· == 0x0A) (cs.flatMap String.utf8EncodeChar) =
      (lines cs).map (·.flatMap String.utf8EncodeChar) := by
  induction cs with
  | nil => rfl
  | cons c cs ih =>
      rw [List.flatMap_cons]
      by_cases hc : c = '\n'
      · subst hc
        have hbytes : String.utf8EncodeChar '\n' = [0x0A] := rfl
        rw [hbytes, List.singleton_append, pieces_cons, ih]
        rfl
      · have hlines : lines (c :: cs) = joinFirst [c] (lines cs) :=
          @consPiece_inside _ (· == '\n') c (beq_eq_false_iff_ne.mpr hc) _
        rw [pieces_append_of_no_end (by simp) (newline_not_mem_utf8EncodeChar hc), ih, hlines]
        cases lines cs with
        | nil => simp [joinFirst]
        | cons line more => simp [joinFirst]

theorem mapM_decodeText? (ls : List (List Char)) :
    (ls.map (·.flatMap String.utf8EncodeChar)).mapM decodeText? =
      some (ls.map String.ofList) := by
  induction ls with
  | nil => rfl
  | cons l ls ih =>
      have hl : decodeText? (l.flatMap String.utf8EncodeChar) = some (String.ofList l) := by
        rw [← decodeText?_utf8, utf8_eq, String.toList_ofList]
      rw [List.map_cons, List.mapM_cons, hl, ih]
      rfl

/-- Pieces that each encode a text encode the texts put together. -/
theorem utf8_join_of_mapM {ps : List (List UInt8)} {texts : List String}
    (h : ps.mapM decodeText? = some texts) : utf8 (String.join texts) = ps.flatten := by
  induction ps generalizing texts with
  | nil =>
      cases h
      rfl
  | cons p ps ih =>
      rw [List.mapM_cons] at h
      obtain ⟨text, htext, hrest⟩ := Option.bind_eq_some_iff.mp h
      obtain ⟨rest, hps, htexts⟩ := Option.bind_eq_some_iff.mp hrest
      cases htexts
      rw [String.join_cons, utf8_append, decodeText?_eq_some_iff.mp htext, ih hps,
        List.flatten_cons]

/-- The bytes encode a text if and only if each of their lines does, and then the texts of the lines
are the lines of the text. -/
theorem mapM_pieces (bytes : List UInt8) :
    (pieces (· == 0x0A) bytes).mapM decodeText? =
      (decodeText? bytes).map fun text => (lines text.toList).map String.ofList := by
  cases hwhole : decodeText? bytes with
  | some text =>
      rw [← decodeText?_eq_some_iff.mp hwhole, utf8_eq, pieces_encoded]
      exact mapM_decodeText? _
  | none =>
      cases hpieces : (pieces (· == 0x0A) bytes).mapM decodeText? with
      | none => rfl
      | some texts =>
          -- The texts of the lines, put together, would be the text of all bytes.
          have hjoin := utf8_join_of_mapM hpieces
          rw [flatten_pieces] at hjoin
          rw [decodeText?_eq_some_iff.mpr hjoin] at hwhole
          cases hwhole

namespace Submission

theorem join_lines (text : String) :
    String.join ((lines text.toList).map String.ofList) = text := by
  rw [← String.toList_inj, String.toList_join, List.flatMap_map]
  simp only [String.toList_ofList, List.flatMap_id']
  exact flatten_pieces _ _

theorem read?_eq_some_iff {bytes : List UInt8} {text : String} :
    read? bytes = some text ↔ decodeText? bytes = some text ∧ text ≠ "" := by
  rw [read?, mapM_pieces]
  cases decodeText? bytes with
  | none => simp
  | some whole =>
      simp only [Option.map_some, join_lines]
      by_cases hempty : whole = ""
      · rw [if_pos hempty]
        grind
      · rw [if_neg hempty]
        grind

theorem read?_utf8 {text : String} (h : text ≠ "") : read? (utf8 text) = some text :=
  read?_eq_some_iff.mpr ⟨decodeText?_utf8 text, h⟩

theorem read?_eq_none_iff {bytes : List UInt8} :
    read? bytes = none ↔ bytes = [] ∨ decodeText? bytes = none := by
  have hread : read? bytes = none ↔ ∀ text, decodeText? bytes = some text → text = "" := by
    rw [Option.eq_none_iff_forall_ne_some]
    simp only [ne_eq, read?_eq_some_iff, not_and, Decidable.not_not]
  rw [hread]
  cases hwhole : decodeText? bytes with
  | none => simp
  | some text =>
      rw [← decodeText?_eq_some_iff.mp hwhole, utf8_eq_nil_iff]
      simp

end Submission

/-- Taking the standard input line by line agrees with taking it at once. Line by line there is
something to take just when the whole is text and not empty, and it is the same text; that text
encodes to all bytes there were. There is nothing to take just from no bytes and from bytes that are
not valid UTF-8, wherever in them the fault is. -/
theorem line_by_line_agrees_with_whole (bytes : List UInt8) :
    (∀ text, Submission.read? bytes = some text ↔
      readInput false bytes = .ok text ∧ text ≠ "") ∧
    (∀ text, Submission.read? bytes = some text → utf8 text = bytes) ∧
    (Submission.read? bytes = none ↔
      bytes = [] ∨ ¬ ByteArray.IsValidUTF8 ⟨bytes.toArray⟩) := by
  refine ⟨?_, ?_, ?_⟩
  · intro text
    rw [readInput_eq_ok_iff]
    exact Submission.read?_eq_some_iff
  · intro text h
    exact decodeText?_eq_some_iff.mp (Submission.read?_eq_some_iff.mp h).1
  · rw [← decodeText?_eq_none_iff]
    exact Submission.read?_eq_none_iff

/-- A character of three bytes in front of a newline, and one that a newline cuts short. -/
theorem line_by_line_agrees_with_whole_cut_short :
    (Submission.read? [0xE2, 0x82, 0xAC, 0x0A, 0x21] = some "€\n!" ∧
      utf8 "€\n!" = [0xE2, 0x82, 0xAC, 0x0A, 0x21]) ∧
    Submission.read? [0x41, 0xE2, 0x82, 0x0A, 0xAC] = none := by
  obtain ⟨hsome, hbytes, -⟩ := line_by_line_agrees_with_whole [0xE2, 0x82, 0xAC, 0x0A, 0x21]
  obtain ⟨-, -, hnone⟩ := line_by_line_agrees_with_whole [0x41, 0xE2, 0x82, 0x0A, 0xAC]
  have hread := (hsome "€\n!").mpr ⟨readInput_eq_ok_iff.mpr (by decide), by decide⟩
  exact ⟨⟨hread, hbytes _ hread⟩, hnone.mpr (.inr (by decide))⟩

end Brainfuck
