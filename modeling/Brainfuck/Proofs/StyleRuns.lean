import Brainfuck.Highlight
import Mathlib.Data.List.Chain

/-!
The runs of a highlighted line. A grouping of a line cuts it into runs that are not empty, each of
characters of its own style, and no run could be longer, since its neighbours have other styles.
The line is cut from its first character on, with the last run kept open. The same runs come about
from its last character on: a character in front of a line either lengthens the first run of a
grouping or begins a new one, and every grouping of the longer line is obtained so from one of the
shorter.

Main statement: the runs of a line are its only grouping.
-/

namespace Brainfuck.Highlight

/-- Puts a run in front of others; it is one with the first of them if that has its style. -/
def joinRun (run : Run) (rest : List Run) : List Run :=
  match rest with
  | [] => [run]
  | next :: more =>
    if next.style = run.style then ⟨run.style, run.text ++ next.text⟩ :: more
    else run :: next :: more

/-- Puts one character in front of the runs of what follows it. -/
def consRun (c : Char) (rest : List Run) : List Run :=
  joinRun ⟨styleOf c, [c]⟩ rest

theorem joinRun_consRun_same {run : Run} {c : Char} (h : run.style = styleOf c)
    (rest : List Run) :
    joinRun run (consRun c rest) = joinRun ⟨run.style, run.text ++ [c]⟩ rest := by
  cases rest with
  | nil => simp [consRun, joinRun, h]
  | cons next more =>
      by_cases hnext : next.style = styleOf c
      · simp [consRun, joinRun, h, hnext]
      · simp [consRun, joinRun, h, hnext]

theorem joinRun_consRun_new {run : Run} {c : Char} (h : run.style ≠ styleOf c)
    (rest : List Run) : joinRun run (consRun c rest) = run :: consRun c rest := by
  cases rest with
  | nil => simp [consRun, joinRun, Ne.symm h]
  | cons next more =>
      by_cases hnext : next.style = styleOf c
      · simp [consRun, joinRun, Ne.symm h, hnext]
      · simp [consRun, joinRun, Ne.symm h, hnext]

/-- What is cut with a run still open is the runs that are done and, in front of the runs of the
rest of the line, the open one. -/
theorem flush_foldl_push (done : List Run) (run : Run) (line : List Char) :
    (line.foldl Cutting.push ⟨done, some run⟩).flush =
      done ++ joinRun run (line.foldr consRun []) := by
  induction line generalizing done run with
  | nil => rfl
  | cons c line ih =>
      rw [List.foldl_cons, List.foldr_cons, Cutting.push]
      by_cases hstyle : run.style = styleOf c
      · simp only [if_pos hstyle]
        rw [ih, joinRun_consRun_same hstyle]
      · simp only [if_neg hstyle]
        rw [ih, joinRun_consRun_new hstyle, Cutting.flush, List.append_assoc]
        rfl

theorem highlight_eq_foldr (line : List Char) (cursor : Nat) :
    highlight line cursor = line.foldr consRun [] := by
  cases line with
  | nil => rfl
  | cons c line =>
      change (line.foldl Cutting.push ⟨[], some ⟨styleOf c, [c]⟩⟩).flush = _
      rw [flush_foldl_push]
      rfl

/-- The runs are the line cut where the style changes, and nowhere else. -/
structure Groups (line : List Char) (runs : List Run) : Prop where
  whole : runs.flatMap Run.text = line
  nonempty : ∀ run ∈ runs, run.text ≠ []
  uniform : ∀ run ∈ runs, ∀ c ∈ run.text, styleOf c = run.style
  maximal : runs.IsChain fun run next => run.style ≠ next.style

variable {c : Char} {line : List Char} {run : Run} {runs more : List Run}

theorem groups_nil : Groups [] [] :=
  ⟨rfl, by simp, by simp, .nil⟩

theorem groups_nil_iff : Groups [] runs ↔ runs = [] := by
  constructor
  · intro h
    cases runs with
    | nil => rfl
    | cons run more =>
        have hempty := List.flatMap_eq_nil_iff.mp h.whole run List.mem_cons_self
        exact absurd hempty (h.nonempty run List.mem_cons_self)
  · intro h
    rw [h]
    exact groups_nil

/-- A grouping is a first run and a grouping of what is behind it, which starts in another style. -/
theorem groups_cons_iff :
    Groups line (run :: more) ↔
      run.text ≠ [] ∧ (∀ c ∈ run.text, styleOf c = run.style) ∧
        (∀ next ∈ more.head?, run.style ≠ next.style) ∧
        ∃ rest, line = run.text ++ rest ∧ Groups rest more := by
  constructor
  · intro h
    obtain ⟨hne, hmore⟩ := List.forall_mem_cons.mp h.nonempty
    obtain ⟨huniform, huniforms⟩ := List.forall_mem_cons.mp h.uniform
    obtain ⟨hnext, hchain⟩ := List.isChain_cons.mp h.maximal
    exact ⟨hne, huniform, hnext, _, h.whole.symm, rfl, hmore, huniforms, hchain⟩
  · intro h
    obtain ⟨hne, huniform, hnext, rest, hline, hrest⟩ := h
    refine ⟨?_, ?_, ?_, ?_⟩
    · rw [List.flatMap_cons, hrest.whole, hline]
    · exact List.forall_mem_cons.mpr ⟨hne, hrest.nonempty⟩
    · exact List.forall_mem_cons.mpr ⟨huniform, hrest.uniform⟩
    · exact List.isChain_cons.mpr ⟨hnext, hrest.maximal⟩

theorem consRun_same (h : run.style = styleOf c) :
    consRun c (run :: more) = ⟨run.style, c :: run.text⟩ :: more := by
  rw [consRun, joinRun, if_pos h, h]
  rfl

theorem consRun_new (h : ∀ run ∈ runs.head?, styleOf c ≠ run.style) :
    consRun c runs = ⟨styleOf c, [c]⟩ :: runs := by
  cases runs with
  | nil => rfl
  | cons run more => rw [consRun, joinRun, if_neg (h run rfl).symm]

theorem groups_consRun_new (hgroups : Groups line runs)
    (h : ∀ run ∈ runs.head?, styleOf c ≠ run.style) : Groups (c :: line) (consRun c runs) := by
  rw [consRun_new h]
  exact groups_cons_iff.mpr ⟨List.cons_ne_nil _ _, List.forall_mem_singleton.mpr rfl, h, line, rfl,
    hgroups⟩

/-- A character in front of a line keeps its runs a grouping. -/
theorem Groups.consRun (hgroups : Groups line runs) (c : Char) :
    Groups (c :: line) (consRun c runs) := by
  cases runs with
  | nil => exact groups_consRun_new hgroups (by simp)
  | cons run more =>
      by_cases hstyle : run.style = styleOf c
      · obtain ⟨-, huniform, hnext, rest, hline, hrest⟩ := groups_cons_iff.mp hgroups
        rw [consRun_same hstyle]
        exact groups_cons_iff.mpr ⟨List.cons_ne_nil _ _,
          List.forall_mem_cons.mpr ⟨hstyle.symm, huniform⟩, hnext, rest, congrArg _ hline, hrest⟩
      · apply groups_consRun_new hgroups
        intro first hfirst
        cases hfirst
        exact fun h => hstyle h.symm

/-- Without its first character a grouped line is still grouped, and the character makes up the
difference: it was a run of its own, or the first of a longer one. -/
theorem Groups.exists_consRun (hgroups : Groups (c :: line) runs) :
    ∃ rest, Groups line rest ∧ Highlight.consRun c rest = runs := by
  cases runs with
  | nil => cases hgroups.whole
  | cons run more =>
      obtain ⟨hne, huniform, hnext, rest, hline, hrest⟩ := groups_cons_iff.mp hgroups
      obtain ⟨style, text⟩ := run
      cases text with
      | nil => exact absurd rfl hne
      | cons d text =>
          cases hline
          obtain ⟨rfl, hothers⟩ := List.forall_mem_cons.mp huniform
          cases text with
          | nil => exact ⟨more, hrest, consRun_new hnext⟩
          | cons e text =>
              refine ⟨⟨styleOf c, e :: text⟩ :: more, ?_, consRun_same rfl⟩
              exact groups_cons_iff.mpr ⟨List.cons_ne_nil _ _, hothers, hnext, rest, rfl, hrest⟩

/-- The runs of a line are its only grouping, wherever the cursor is. They put together are the
line, none is empty, every character of a run has its style, and neighbours have different ones;
and no other list of runs is so. -/
theorem highlight_only_grouping (line : List Char) (cursor : Nat) :
    (∀ runs, highlight line cursor = runs ↔ Groups line runs) ∧
      ∀ elsewhere, highlight line elsewhere = highlight line cursor := by
  refine ⟨?_, fun elsewhere => rfl⟩
  intro runs
  rw [highlight_eq_foldr]
  induction line generalizing runs with
  | nil => exact eq_comm.trans groups_nil_iff.symm
  | cons c line ih =>
      constructor
      · intro h
        rw [← h]
        exact ((ih _).mp rfl).consRun c
      · intro h
        obtain ⟨rest, hrest, hruns⟩ := h.exists_consRun
        rw [← hruns, ← (ih rest).mpr hrest]
        rfl

example : (highlight "++[]ab".toList 0).map Run.text = ["++".toList, "[]".toList, "ab".toList] := by
  decide

end Brainfuck.Highlight
