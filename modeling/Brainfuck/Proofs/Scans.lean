import Brainfuck.Program
import Brainfuck.Proofs.Blocks

/-!
The two bracket scans over the text of a block. Either scan passes over a whole block with its
depth unchanged, so from one end of a loop it arrives at the other. In a program whose text is
balanced every bracket is an end of some loop and both scans succeed from it.
-/

namespace Brainfuck
namespace Program

/-- The characters `l` stand in the program from position `i` on. -/
def Spells (p : Program) : Nat → List Char → Prop
  | _, [] => True
  | i, c :: l => p[i]? = some c ∧ Spells p (i + 1) l

theorem spells_append {p : Program} {i : Nat} {l₁ l₂ : List Char} :
    p.Spells i (l₁ ++ l₂) ↔ p.Spells i l₁ ∧ p.Spells (i + l₁.length) l₂ := by
  induction l₁ generalizing i with
  | nil => simp [Spells]
  | cons c l₁ ih =>
      have hlen : i + 1 + l₁.length = i + (l₁.length + 1) := by omega
      simp only [List.cons_append, Spells, ih, List.length_cons, hlen, and_assoc]

theorem spells_of_toList {p : Program} (before l after : List Char)
    (h : p.toList = before ++ l ++ after) : p.Spells before.length l := by
  induction l generalizing before with
  | nil => trivial
  | cons c l ih =>
      refine ⟨?_, ?_⟩
      · rw [← Array.getElem?_toList, h]
        simp
      · have hnext : p.toList = (before ++ [c]) ++ l ++ after := by simp [h]
        simpa using ih (before ++ [c]) hnext

theorem toList_split {p : Program} {i : Nat} {c : Char} (h : p[i]? = some c) :
    ∃ before after, p.toList = before ++ c :: after ∧ before.length = i := by
  obtain ⟨hi, rfl⟩ := Array.getElem?_eq_some_iff.mp h
  refine ⟨p.toList.take i, p.toList.drop (i + 1), ?_, by simp; omega⟩
  rw [← Array.getElem_toList, List.getElem_cons_drop, List.take_append_drop]

theorem spells_ofString (source : String) : (ofString source).Spells 0 source.toList := by
  apply spells_of_toList [] source.toList []
  simp [ofString]

theorem balanced_ofString {source : String} (h : balanced source.toList = true) :
    balanced (ofString source).toList = true :=
  h

theorem size_ofString (source : String) : (ofString source).size = source.toList.length := by
  simp [ofString]

theorem getElem?_ofString_end (source : String) :
    (ofString source)[source.toList.length]? = none := by
  rw [← size_ofString]
  exact Array.getElem?_size

theorem lt_size_of_getElem? {p : Program} {i : Nat} {c : Char} (h : p[i]? = some c) :
    i < p.size := by
  obtain ⟨hi, -⟩ := Array.getElem?_eq_some_iff.mp h
  exact hi

theorem lt_length_of_getElem? {source : String} {i : Nat} {c : Char}
    (h : (ofString source)[i]? = some c) : i < source.toList.length := by
  rw [← size_ofString]
  exact lt_size_of_getElem? h

theorem spells_loop {p : Program} {i : Nat} {body rest : Block} :
    p.Spells i (body.loop rest).text ↔
      p[i]? = some '[' ∧ p.Spells (i + 1) body.text ∧ p[i + 1 + body.text.length]? = some ']' ∧
        p.Spells (i + 1 + body.text.length + 1) rest.text := by
  simp only [Block.text, Spells, spells_append]

theorem closeFrom?_open {p : Program} {ip : Nat} (h : p[ip]? = some '[') (left depth : Nat) :
    p.closeFrom? (left + 1) ip depth = p.closeFrom? left (ip + 1) (depth + 1) := by
  simp [closeFrom?, h]

theorem closeFrom?_close {p : Program} {ip : Nat} (h : p[ip]? = some ']') (left depth : Nat) :
    p.closeFrom? (left + 1) ip (depth + 1) = p.closeFrom? left (ip + 1) depth := by
  simp [closeFrom?, h]

theorem closeFrom?_found {p : Program} {ip : Nat} (h : p[ip]? = some ']') (left : Nat) :
    p.closeFrom? (left + 1) ip 0 = some ip := by
  simp [closeFrom?, h]

theorem closeFrom?_plain {p : Program} {ip : Nat} {c : Char} (h : p[ip]? = some c)
    (hc : IsPlain c) (left depth : Nat) :
    p.closeFrom? (left + 1) ip depth = p.closeFrom? left (ip + 1) depth := by
  rw [closeFrom?.eq_def]
  simp only [h]
  split <;> simp_all [IsPlain]

theorem openBelow?_close {p : Program} {ip : Nat} (h : p[ip]? = some ']') (depth : Nat) :
    p.openBelow? (ip + 1) depth = p.openBelow? ip (depth + 1) := by
  simp [openBelow?, h]

theorem openBelow?_open {p : Program} {ip : Nat} (h : p[ip]? = some '[') (depth : Nat) :
    p.openBelow? (ip + 1) (depth + 1) = p.openBelow? ip depth := by
  simp [openBelow?, h]

theorem openBelow?_found {p : Program} {ip : Nat} (h : p[ip]? = some '[') :
    p.openBelow? (ip + 1) 0 = some ip := by
  simp [openBelow?, h]

theorem openBelow?_plain {p : Program} {ip : Nat} {c : Char} (h : p[ip]? = some c)
    (hc : IsPlain c) (depth : Nat) : p.openBelow? (ip + 1) depth = p.openBelow? ip depth := by
  rw [openBelow?.eq_def]
  simp only [h]
  split <;> simp_all [IsPlain]

theorem getElem?_of_closeFrom? {p : Program} {left ip depth j : Nat}
    (h : p.closeFrom? left ip depth = some j) : p[j]? = some ']' := by
  induction left generalizing ip depth with
  | zero => cases h
  | succ left ih =>
      rw [closeFrom?.eq_def] at h
      simp only at h
      split at h
      · exact ih h
      · next hc =>
          cases h
          exact hc
      · exact ih h
      · exact ih h

theorem lt_of_openBelow? {p : Program} {ip depth i : Nat} (h : p.openBelow? ip depth = some i) :
    i < ip := by
  induction ip generalizing depth with
  | zero => cases h
  | succ ip ih =>
      rw [openBelow?.eq_def] at h
      simp only at h
      split at h
      · exact Nat.lt_succ_of_lt (ih h)
      · cases h
        exact Nat.lt_succ_self _
      · exact Nat.lt_succ_of_lt (ih h)
      · exact Nat.lt_succ_of_lt (ih h)

theorem close?_lt_size {p : Program} {ip j : Nat} (h : p.close? ip = some j) : j < p.size :=
  lt_size_of_getElem? (getElem?_of_closeFrom? h)

theorem open?_lt {p : Program} {ip i : Nat} (h : p.open? ip = some i) : i < ip :=
  lt_of_openBelow? h

theorem closeFrom?_text {p : Program} (b : Block) {ip : Nat} (h : p.Spells ip b.text)
    (left depth : Nat) :
    p.closeFrom? (b.text.length + left) ip depth =
      p.closeFrom? left (ip + b.text.length) depth := by
  induction b generalizing ip left depth with
  | done => simp [Block.text]
  | leaf c plain rest ih =>
      obtain ⟨hc, hrest⟩ := h
      rw [Block.text, List.length_cons, Nat.add_right_comm, closeFrom?_plain hc plain, ih hrest]
      congr 1
      omega
  | loop body rest ihb ihr =>
      obtain ⟨ho, hbody, hc, hrest⟩ := spells_loop.mp h
      have hleft : (body.loop rest).text.length + left =
          body.text.length + (rest.text.length + left + 1) + 1 := by
        rw [Block.length_text_loop]
        omega
      rw [hleft, closeFrom?_open ho, ihb hbody, closeFrom?_close hc, ihr hrest]
      congr 1
      rw [Block.length_text_loop]
      omega

theorem openBelow?_text {p : Program} (b : Block) {ip : Nat} (h : p.Spells ip b.text)
    (depth : Nat) : p.openBelow? (ip + b.text.length) depth = p.openBelow? ip depth := by
  induction b generalizing ip depth with
  | done => simp [Block.text]
  | leaf c plain rest ih =>
      obtain ⟨hc, hrest⟩ := h
      have hend : ip + (Block.leaf c plain rest).text.length = ip + 1 + rest.text.length := by
        rw [Block.length_text_leaf, Nat.add_assoc]
      rw [hend, ih hrest, openBelow?_plain hc plain]
  | loop body rest ihb ihr =>
      obtain ⟨ho, hbody, hc, hrest⟩ := spells_loop.mp h
      have hend : ip + (body.loop rest).text.length =
          ip + 1 + body.text.length + 1 + rest.text.length := by
        rw [Block.length_text_loop]
        omega
      rw [hend, ihr hrest, openBelow?_close hc, ihb hbody, openBelow?_open ho]

theorem close?_loop {p : Program} {i : Nat} {body : Block} (hbody : p.Spells (i + 1) body.text)
    (hc : p[i + 1 + body.text.length]? = some ']') :
    p.close? i = some (i + 1 + body.text.length) := by
  have hsize := lt_size_of_getElem? hc
  have hleft : p.size - (i + 1) =
      body.text.length + (p.size - (i + 1 + body.text.length + 1) + 1) := by omega
  rw [close?, hleft, closeFrom?_text body hbody, closeFrom?_found hc]

theorem open?_loop {p : Program} {i : Nat} {body : Block} (ho : p[i]? = some '[')
    (hbody : p.Spells (i + 1) body.text) : p.open? (i + 1 + body.text.length) = some i := by
  rw [open?, openBelow?_text body hbody, openBelow?_found ho]

theorem exists_loop_of_open {p : Program} {i : Nat} (hp : balanced p.toList = true)
    (ho : p[i]? = some '[') :
    ∃ body : Block, p.Spells (i + 1) body.text ∧ p[i + 1 + body.text.length]? = some ']' := by
  obtain ⟨b, hb⟩ := (Block.balanced_iff_exists_parse? _).mp hp
  obtain ⟨before, after, hsplit, rfl⟩ := toList_split ho
  obtain ⟨body, rest, rfl⟩ :=
    Block.exists_body_of_open ((Block.text_of_parse? hb).trans hsplit)
  have hloop : p.Spells before.length ('[' :: (body.text ++ [']'])) :=
    spells_of_toList _ _ rest (by simpa using hsplit)
  simp only [Spells, spells_append] at hloop
  exact ⟨body, hloop.2.1, hloop.2.2.1⟩

theorem exists_loop_of_close {p : Program} {j : Nat} (hp : balanced p.toList = true)
    (hc : p[j]? = some ']') :
    ∃ (i : Nat) (body : Block), p[i]? = some '[' ∧ p.Spells (i + 1) body.text ∧
      j = i + 1 + body.text.length := by
  obtain ⟨b, hb⟩ := (Block.balanced_iff_exists_parse? _).mp hp
  obtain ⟨before, after, hsplit, rfl⟩ := toList_split hc
  obtain ⟨first, body, rfl⟩ :=
    Block.exists_body_of_close ((Block.text_of_parse? hb).trans hsplit)
  have hloop : p.Spells first.length ('[' :: body.text) :=
    spells_of_toList _ _ (']' :: after) (by simpa using hsplit)
  refine ⟨first.length, body, hloop.1, hloop.2, ?_⟩
  simp
  omega

end Program
end Brainfuck
