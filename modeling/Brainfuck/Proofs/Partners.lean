import Brainfuck.Proofs.Safety

/-!
Partners: the two ends of a loop, in a program that need not be balanced. An opening and a closing
bracket are partners if the text strictly between them is balanced. The forward scan counts the
loops it still has to close; when it stops, the text it has passed closes exactly those. The
backward scan counts closing brackets that it still has to open, which is said by putting them
behind the text it has passed.

Main statement: either scan finds the partner of the bracket that it starts from, or nothing if
there is none, and looks at no place outside the program on its way.
-/

namespace Brainfuck

namespace Program

/-- A loop opens at `i` and closes at `j`: the text strictly between is balanced. -/
structure Partners (p : Program) (i j : Nat) : Prop where
  lt : i < j
  opens : p[i]? = some '['
  closes : p[j]? = some ']'
  between : balanced (p.extract (i + 1) j).toList = true

variable {p : Program} {i j : Nat} {c : Char}

theorem toList_extract_self (p : Program) (i : Nat) : (p.extract i i).toList = [] := by
  simp

theorem toList_extract_cons (hc : p[i]? = some c) (hij : i < j) :
    (p.extract i j).toList = c :: (p.extract (i + 1) j).toList := by
  obtain ⟨hi, hget⟩ := Array.getElem?_eq_some_iff.mp hc
  have hlength : j - i = j - (i + 1) + 1 := by omega
  rw [Array.toList_extract, Array.toList_extract, List.extract_eq_take_drop,
    List.extract_eq_take_drop, List.drop_eq_getElem_cons (by simpa using hi), hlength,
    List.take_succ_cons, Array.getElem_toList, hget]

theorem toList_extract_concat (hc : p[j]? = some c) (hij : i ≤ j) :
    (p.extract i (j + 1)).toList = (p.extract i j).toList ++ [c] := by
  have hlength : j + 1 - i = j - i + 1 := by omega
  have hplace : i + (j - i) = j := by omega
  rw [Array.toList_extract, Array.toList_extract, List.extract_eq_take_drop,
    List.extract_eq_take_drop, hlength, List.take_add_one, List.getElem?_drop, hplace,
    Array.getElem?_toList, hc]
  rfl

/-- What the forward scan has passed when it stops closes the loops it had open. -/
theorem balancedFrom_of_closeFrom? {left ip depth : Nat} (hend : ip + left ≤ p.size)
    (h : p.closeFrom? left ip depth = some j) :
    ip ≤ j ∧ balancedFrom depth (p.extract ip j).toList = true := by
  induction left generalizing ip depth with
  | zero => cases h
  | succ left ih =>
      have hc : p[ip]? = some p[ip] := Array.getElem?_eq_getElem (by omega)
      generalize p[ip] = c at hc
      have hnext : ip + 1 + left ≤ p.size := by omega
      rcases bracket_cases c with rfl | rfl | hplain
      · rw [closeFrom?_open hc] at h
        obtain ⟨hle, hbody⟩ := ih hnext h
        rw [toList_extract_cons hc hle, balancedFrom_open]
        exact ⟨Nat.le_of_lt hle, hbody⟩
      · cases depth with
        | zero =>
            rw [closeFrom?_found hc] at h
            cases h
            rw [toList_extract_self]
            exact ⟨Nat.le_refl _, rfl⟩
        | succ depth =>
            rw [closeFrom?_close hc] at h
            obtain ⟨hle, hbody⟩ := ih hnext h
            rw [toList_extract_cons hc hle, balancedFrom_close]
            exact ⟨Nat.le_of_lt hle, hbody⟩
      · rw [closeFrom?_plain hc hplain] at h
        obtain ⟨hle, hbody⟩ := ih hnext h
        rw [toList_extract_cons hc hle, balancedFrom_plain hplain]
        exact ⟨Nat.le_of_lt hle, hbody⟩

/-- What the backward scan has passed when it stops is balanced together with the closing brackets
that were still to be opened. -/
theorem balanced_of_openBelow? {ip depth : Nat} (hip : ip ≤ p.size)
    (h : p.openBelow? ip depth = some i) :
    p[i]? = some '[' ∧
      balanced ((p.extract (i + 1) ip).toList ++ List.replicate depth ']') = true := by
  induction ip generalizing depth with
  | zero => cases h
  | succ ip ih =>
      have hc : p[ip]? = some p[ip] := Array.getElem?_eq_getElem (by omega)
      generalize p[ip] = c at hc
      have hbelow : ip ≤ p.size := by omega
      rcases bracket_cases c with rfl | rfl | hplain
      · cases depth with
        | zero =>
            rw [openBelow?_found hc] at h
            cases h
            rw [toList_extract_self]
            exact ⟨hc, rfl⟩
        | succ depth =>
            rw [openBelow?_open hc] at h
            obtain ⟨hopens, hbody⟩ := ih hbelow h
            have hloop : ∀ d, balancedFrom d ('[' :: List.replicate (depth + 1) ']') =
                balancedFrom d (List.replicate depth ']') := by
              intro d
              rw [balancedFrom_open, List.replicate_succ, balancedFrom_close]
            rw [toList_extract_concat hc (lt_of_openBelow? h), List.append_assoc, balanced,
              List.singleton_append, balancedFrom_append_congr hloop]
            exact ⟨hopens, hbody⟩
      · rw [openBelow?_close hc] at h
        obtain ⟨hopens, hbody⟩ := ih hbelow h
        rw [toList_extract_concat hc (lt_of_openBelow? h), List.append_assoc,
          List.singleton_append, ← List.replicate_succ]
        exact ⟨hopens, hbody⟩
      · rw [openBelow?_plain hc hplain] at h
        obtain ⟨hopens, hbody⟩ := ih hbelow h
        have hpassed : ∀ d, balancedFrom d (c :: List.replicate depth ']') =
            balancedFrom d (List.replicate depth ']') := fun d => balancedFrom_plain hplain d _
        rw [toList_extract_concat hc (lt_of_openBelow? h), List.append_assoc, balanced,
          List.singleton_append, balancedFrom_append_congr hpassed]
        exact ⟨hopens, hbody⟩

/-- The text between partners is that of a block. -/
theorem Partners.exists_body (h : p.Partners i j) :
    ∃ body : Block, p.Spells (i + 1) body.text ∧ i + 1 + body.text.length = j := by
  obtain ⟨body, hbody⟩ := (Block.balanced_iff_exists_parse? _).mp h.between
  have htext := Block.text_of_parse? hbody
  have hj := lt_size_of_getElem? h.closes
  have hlt := h.lt
  have hdrop : p.toList.drop j = (p.toList.drop (i + 1)).drop (j - (i + 1)) := by
    rw [List.drop_drop]
    congr 1
    omega
  have hsplit : p.toList = p.toList.take (i + 1) ++ body.text ++ p.toList.drop j := by
    rw [htext, Array.toList_extract, List.extract_eq_take_drop, hdrop, List.append_assoc,
      List.take_append_drop, List.take_append_drop]
  have hstart : (p.toList.take (i + 1)).length = i + 1 := by
    rw [List.length_take, Array.length_toList]
    omega
  have hlength : body.text.length = j - (i + 1) := by
    rw [htext, Array.length_toList, Array.size_extract]
    omega
  have hspells := spells_of_toList _ _ _ hsplit
  rw [hstart] at hspells
  exact ⟨body, hspells, by omega⟩

theorem close?_eq_some_iff (ho : p[i]? = some '[') : p.close? i = some j ↔ p.Partners i j := by
  constructor
  · intro h
    have hi := lt_size_of_getElem? ho
    obtain ⟨hle, hbody⟩ := balancedFrom_of_closeFrom? (by omega) h
    exact ⟨hle, ho, getElem?_of_closeFrom? h, hbody⟩
  · intro h
    obtain ⟨body, hbody, rfl⟩ := h.exists_body
    exact close?_loop hbody h.closes

theorem open?_eq_some_iff (hc : p[j]? = some ']') : p.open? j = some i ↔ p.Partners i j := by
  constructor
  · intro h
    have hj := lt_size_of_getElem? hc
    obtain ⟨hopens, hbody⟩ := balanced_of_openBelow? (Nat.le_of_lt hj) h
    rw [List.replicate_zero, List.append_nil] at hbody
    exact ⟨open?_lt h, hopens, hc, hbody⟩
  · intro h
    obtain ⟨body, hbody, rfl⟩ := h.exists_body
    exact open?_loop h.opens hbody

/-- In a balanced program every opening bracket has a partner. -/
theorem exists_close? (hp : balanced p.toList = true) (ho : p[i]? = some '[') :
    ∃ j, p.close? i = some j := by
  obtain ⟨body, hbody, hc⟩ := exists_loop_of_open hp ho
  exact ⟨_, close?_loop hbody hc⟩

/-- In a balanced program every closing bracket has a partner. -/
theorem exists_open? (hp : balanced p.toList = true) (hc : p[j]? = some ']') :
    ∃ i, p.open? j = some i := by
  obtain ⟨i, body, ho, hbody, rfl⟩ := exists_loop_of_close hp hc
  exact ⟨i, open?_loop ho hbody⟩

/-- The two scans are exact and inverse to each other in every program, balanced or not. From an
opening bracket the forward scan arrives at the closing bracket with balanced text in between, from
a closing bracket the backward scan arrives at such an opening one, and neither is refused when it
may only look inside the program. So one leads back where the other led from. A bracket without a
partner makes the step at it fail in its place, an opening one if the step has to find its partner.
In a balanced program neither scan fails. -/
theorem scans_find_partners (p : Program) :
    (∀ i, p[i]? = some '[' →
      (∀ j, p.close? i = some j ↔ p.Partners i j) ∧
      p.closeFromWithin? p.size (p.size - (i + 1)) (i + 1) 0 = some (p.close? i)) ∧
    (∀ j, p[j]? = some ']' →
      (∀ i, p.open? j = some i ↔ p.Partners i j) ∧
      p.openBelowWithin? p.size j 0 = some (p.open? j)) ∧
    (∀ i j, p[i]? = some '[' → p[j]? = some ']' →
      (p.close? i = some j ↔ p.open? j = some i)) ∧
    (∀ s : State, p[s.ip]? = some '[' → s.cell = 0 → (∀ j, ¬ p.Partners s.ip j) →
      step p s = (s, .error (.unbalancedScan s.ip))) ∧
    (∀ s : State, p[s.ip]? = some ']' → (∀ i, ¬ p.Partners i s.ip) →
      step p s = (s, .error (.unbalancedScan s.ip))) ∧
    (balanced p.toList = true →
      (∀ i, p[i]? = some '[' → ∃ j, p.close? i = some j) ∧
      ∀ j, p[j]? = some ']' → ∃ i, p.open? j = some i) := by
  refine ⟨?_, ?_, ?_, ?_, ?_, ?_⟩
  · intro i ho
    have hi := lt_size_of_getElem? ho
    exact ⟨fun j => close?_eq_some_iff ho,
      closeFromWithin?_eq (Nat.le_refl _) (by omega) (by omega)⟩
  · intro j hc
    have hj := lt_size_of_getElem? hc
    exact ⟨fun i => open?_eq_some_iff hc,
      openBelowWithin?_eq (Nat.le_refl _) (by omega) (by omega)⟩
  · intro i j ho hc
    rw [close?_eq_some_iff ho, open?_eq_some_iff hc]
  · intro s ho hcell hnone
    apply step_unclosed ho hcell
    rw [Option.eq_none_iff_forall_ne_some]
    intro j hj
    exact hnone j ((close?_eq_some_iff ho).mp hj)
  · intro s hc hnone
    apply step_unopened hc
    rw [Option.eq_none_iff_forall_ne_some]
    intro i hi
    exact hnone i ((open?_eq_some_iff hc).mp hi)
  · intro hp
    exact ⟨fun i => exists_close? hp, fun j => exists_open? hp⟩

/-- A stray closing bracket in front, a loop around a loop that is never closed, and a program that
is balanced. -/
theorem scans_find_partners_stray :
    (ofString "][[]").Partners 2 3 ∧ (ofString "][[]").open? 3 = some 2 ∧
      step (ofString "][[]") (.initial 0 []) = (.initial 0 [], .error (.unbalancedScan 0)) ∧
      ∃ j, (ofString "[[]]").close? 0 = some j := by
  obtain ⟨hclose, -, hinverse, -, hstray, -⟩ := scans_find_partners (ofString "][[]")
  obtain ⟨-, -, -, -, -, hbalanced⟩ := scans_find_partners (ofString "[[]]")
  have hfound : (ofString "][[]").close? 2 = some 3 := by decide
  refine ⟨((hclose 2 rfl).1 3).mp hfound, (hinverse 2 3 rfl rfl).mp hfound, ?_, ?_⟩
  · exact hstray (.initial 0 []) rfl fun i h => Nat.not_lt_zero i h.lt
  · exact (hbalanced rfl).1 0 rfl

end Program
end Brainfuck
