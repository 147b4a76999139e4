import Brainfuck.Proofs.ConfigLines
import Brainfuck.Proofs.Pieces

/-!
Config files put one behind the other. What a line comes to depends on the lines above it through
the section they end in and the layer they set, and on its number only for an error. So lines that
start a section of their own are read below others as they are read alone, with their numbers moved
and their layer put over the one from above.

Main statement: the config file of two texts is an error of the first, or else an error of the
second further down, or else overrides what the first and then the second one do.
-/

namespace Brainfuck

/-- The layer, with a lower one for the keys that it does not set. -/
def Layer.over (upper lower : Layer) : Layer :=
  .ofKeys fun key => (upper.get? key).or (lower.get? key)

theorem Layer.empty_over (lower : Layer) : Layer.empty.over lower = lower :=
  rfl

theorem Layer.set_over (upper lower : Layer) (key : Key) (n : Nat) :
    (upper.set key n).over lower = (upper.over lower).set key n := by
  cases key <;> rfl

theorem Settings.apply_over (s : Settings) (upper lower : Layer) :
    s.apply (upper.over lower) = (s.apply lower).apply upper := by
  have hgetD (a b : Option Nat) (n : Nat) : (a.or b).getD n = a.getD (b.getD n) := by
    cases a <;> rfl
  have hor (a b c : Option Nat) : (a.or b).or c = a.or (b.or c) := by
    cases a <;> rfl
  simp only [apply, Layer.over, Layer.ofKeys, Layer.get?, hgetD, hor]

namespace Config

open Text

/-- The error, found that many lines further down. -/
def InvalidValue.movedDown (e : InvalidValue) (count : Nat) : InvalidValue :=
  { e with line := e.line + count }

def Progress.over (p : Progress) (lower : Layer) : Progress :=
  { p with layer := p.layer.over lower }

/-- What lines come to that many lines further down, over a layer. -/
def movedDown (count : Nat) (lower : Layer) :
    Except InvalidValue Progress → Except InvalidValue Progress
  | .error e => .error (e.movedDown count)
  | .ok p => .ok (p.over lower)

theorem LineRead.movedDown {number : Nat} {p : Progress} {cleaned : List Char}
    {r : Except InvalidValue Progress} (h : LineRead number p cleaned r) (count : Nat)
    (lower : Layer) :
    LineRead (number + count) (p.over lower) cleaned (movedDown count lower r) := by
  cases h with
  | heading hinside => exact .heading hinside
  | passed hheading hnone => exact .passed hheading hnone
  | @assigned key value n hheading hp hassigns hreads =>
      have hset : ({ p with layer := p.layer.set key n } : Progress).over lower =
          { p.over lower with layer := (p.over lower).layer.set key n } := by
        simp only [Progress.over, Layer.set_over]
      rw [Config.movedDown, hset]
      exact .assigned hheading hp hassigns hreads
  | bad hheading hp hassigns hbad => exact .bad hheading hp hassigns hbad

theorem readLines_movedDown (number count : Nat) (p : Progress) (lower : Layer)
    (ls : List (List Char)) :
    readLines (number + count) (p.over lower) ls =
      movedDown count lower (readLines number p ls) := by
  induction ls generalizing number p with
  | nil => rfl
  | cons line ls ih =>
      have hline : readLine (number + count) (p.over lower) line =
          movedDown count lower (readLine number p line) :=
        readLine_eq_iff.mpr ((readLine_eq_iff.mp rfl).movedDown count lower)
      rw [readLines, readLines, hline]
      cases readLine number p line with
      | error e => rfl
      | ok p' =>
          have hrest := ih (number + 1) p'
          rw [Nat.add_right_comm] at hrest
          exact hrest

/-- The first of the cleaned lines that is not empty, if there is one, is a heading. -/
def BeginsWithHeading (ls : List (List Char)) : Prop :=
  ∀ line, ls.find? (· ≠ []) = some line → IsHeading line

theorem lineRead_blank (number : Nat) (p : Progress) : LineRead number p [] (.ok p) := by
  refine .passed (fun h => absurd h.1 (by decide)) ?_
  intro _ key value hassigns
  obtain ⟨front, back, hempty, -⟩ := hassigns
  simp at hempty

/-- Lines that begin with a heading set the same, whatever section is open above them. -/
theorem layer_of_beginsWithHeading {ls : List (List Char)} (h : BeginsWithHeading (ls.map clean))
    (number : Nat) (layer : Layer) (opened opened' : Bool) :
    (readLines number ⟨opened, layer⟩ ls).map (·.layer) =
      (readLines number ⟨opened', layer⟩ ls).map (·.layer) := by
  induction ls generalizing number with
  | nil => rfl
  | cons line ls ih =>
      rw [readLines, readLines]
      by_cases hblank : clean line = []
      · have hline (p : Progress) : readLine number p line = .ok p := by
          rw [readLine_eq_iff, hblank]
          exact lineRead_blank number p
        have hrest : BeginsWithHeading (ls.map clean) := by
          intro line' hfind
          apply h line'
          rw [List.map_cons, hblank]
          exact hfind
        simp only [hline]
        exact ih hrest (number + 1)
      · have hfirst : IsHeading (clean line) := by
          apply h
          rw [List.map_cons]
          exact List.find?_cons_of_pos (by simpa using hblank)
        -- From the heading on, both readings are in the section that it starts.
        obtain ⟨inside, hinside⟩ := isHeading_iff.mp hfirst
        simp only [readLine_heading hinside]

section Append

variable {a b : String} (ha : a = "" ∨ a.toList.getLast? = some '\n')
include ha

theorem lines_of_append : lines (a ++ b).toList = lines a.toList ++ lines b.toList := by
  have hwhole : a.toList = [] ∨ a.toList.getLast? = some '\n' :=
    ha.imp_left String.toList_eq_nil_iff.mpr
  rw [String.toList_append]
  exact lines_append_of_whole hwhole b.toList

theorem length_lines_of_whole : (lines a.toList).length = a.toList.count '\n' := by
  cases ha with
  | inl hempty =>
      subst hempty
      rfl
  | inr hends => exact length_lines hends

theorem parse_append_of_error {e : InvalidValue} (h : parse a = .error e) :
    parse (a ++ b) = .error e := by
  rw [parse_eq_error_iff] at h ⊢
  rw [lines_of_append ha, readLines_append, h]

/-- Below a first text that sets a layer, a second one that begins with a heading comes to what it
comes to alone, moved down and over that layer. -/
theorem parse_append_of_ok {la : Layer} (h : parse a = .ok la)
    (hb : BeginsWithHeading ((lines b.toList).map clean)) :
    parse (a ++ b) =
      match parse b with
      | .error e => .error (e.movedDown (a.toList.count '\n'))
      | .ok lb => .ok (lb.over la) := by
  obtain ⟨opened, hread⟩ := parse_eq_ok_iff.mp h
  have hmoved := readLines_movedDown 1 (a.toList.count '\n') ⟨opened, .empty⟩ la (lines b.toList)
  have halone := layer_of_beginsWithHeading hb 1 .empty opened false
  rw [parse, lines_of_append ha, readLines_append, hread, length_lines_of_whole ha]
  -- Alone, the second text is read with no section open; as it begins with a heading, that is all
  -- the same.
  simp only [parse, ← halone]
  rw [Progress.over, Layer.empty_over] at hmoved
  rw [hmoved]
  cases readLines 1 ⟨opened, .empty⟩ (lines b.toList) with
  | error e => rfl
  | ok p => rfl

end Append

/-- Config files compose. Behind a text of whole lines stands a text whose first line that is not
empty, if there is one, is a heading. An error of the first text is the error of both; else an
error of the second one is, with its line counted on; else the layer of both overrides any settings
as the first layer and then the second one do. -/
theorem config_files_compose (a b : String) (ha : a = "" ∨ a.toList.getLast? = some '\n')
    (hb : ∀ line, ((lines b.toList).map clean).find? (· ≠ []) = some line → IsHeading line) :
    (∀ e, parse a = .error e → parse (a ++ b) = .error e) ∧
    (∀ la e, parse a = .ok la → parse b = .error e →
      parse (a ++ b) = .error ⟨e.key, e.value, e.line + a.toList.count '\n'⟩) ∧
    (∀ la lb, parse a = .ok la → parse b = .ok lb →
      ∃ l, parse (a ++ b) = .ok l ∧ ∀ s : Settings, s.apply l = (s.apply la).apply lb) := by
  refine ⟨fun e => parse_append_of_error ha, ?_, ?_⟩
  · intro la e hla he
    rw [parse_append_of_ok ha hla hb, he]
    rfl
  · intro la lb hla hlb
    refine ⟨lb.over la, by rw [parse_append_of_ok ha hla hb, hlb], ?_⟩
    intro s
    exact s.apply_over lb la

/-- A section that is taken up again under a heading with blanks and a comment, where a key is set
anew; and a bad value in it, on the second line of its own text and the fifth of both. -/
theorem config_files_compose_section_again :
    (∃ l, parse ("[machine]\r\ntape_size = 1\nloop_max=3\n" ++
        "# more\n\n [ machine ] # again\ntape_size = \"2_0\"") = .ok l ∧
      ∀ s : Settings, s.apply l =
        (s.apply ⟨some 1, some 3, none, none⟩).apply ⟨some 20, none, none, none⟩) ∧
    parse ("[machine]\r\ntape_size = 1\nloop_max=3\n" ++ "[machine]\nmax_steps = -1") =
      .error ⟨.maxSteps, "-1", 5⟩ := by
  constructor
  · refine (config_files_compose _ _ (.inr rfl) ?_).2.2 _ _ rfl rfl
    intro line hfind
    have hfirst : ((lines "# more\n\n [ machine ] # again\ntape_size = \"2_0\"".toList).map
        clean).find? (· ≠ []) = some "[ machine ]".toList := by decide +kernel
    rw [hfirst] at hfind
    cases hfind
    exact ⟨rfl, rfl⟩
  · refine (config_files_compose _ _ (.inr rfl) ?_).2.1 _ ⟨.maxSteps, "-1", 2⟩ rfl rfl
    intro line hfind
    have hfirst : ((lines "[machine]\nmax_steps = -1".toList).map clean).find? (· ≠ []) =
        some "[machine]".toList := by decide +kernel
    rw [hfirst] at hfind
    cases hfind
    exact ⟨rfl, rfl⟩

end Config
end Brainfuck
