/-! White space in the sense of the Unicode property White_Space, and texts freed of it. -/
namespace LogBench.Text

/-- The code points of the property, in ranges of first and last. -/
def blankRanges : List (Nat × Nat) :=
  [(0x0009, 0x000D), (0x0020, 0x0020), (0x0085, 0x0085), (0x00A0, 0x00A0), (0x1680, 0x1680),
   (0x2000, 0x200A), (0x2028, 0x2029), (0x202F, 0x202F), (0x205F, 0x205F), (0x3000, 0x3000)]

def isBlank (c : Char) : Bool :=
  blankRanges.any fun (first, last) => first ≤ c.toNat ∧ c.toNat ≤ last

def trim (text : List Char) : List Char :=
  ((text.dropWhile isBlank).reverse.dropWhile isBlank).reverse

/-- The five blanks that may stand between digits: space, tab, line feed, form feed and carriage
return. -/
def isGap (c : Char) : Bool :=
  c = ' ' || c = '\t' || c = '\n' || c = '\x0c' || c = '\r'

theorem isBlank_of_isGap {c : Char} (h : isGap c = true) : isBlank c = true := by
  simp only [isGap, Bool.or_eq_true, decide_eq_true_eq] at h
  rcases h with (((rfl | rfl) | rfl) | rfl) | rfl <;> rfl

theorem trim_of_blank {text : List Char} (h : ∀ c ∈ text, isBlank c = true) : trim text = [] := by
  have hdrop : text.dropWhile isBlank = [] := by
    rw [← List.append_nil text, List.dropWhile_append_of_pos h, List.dropWhile_nil]
  rw [trim, hdrop]
  rfl

/-- A blank at the end goes with the others. -/
theorem trim_concat {c : Char} (h : isBlank c = true) (text : List Char) :
    trim (text ++ [c]) = trim text := by
  unfold trim
  rw [List.dropWhile_append]
  split
  · rename_i hempty
    rw [List.isEmpty_iff.mp hempty, List.dropWhile_cons_of_pos h]
    rfl
  · rw [List.reverse_append, List.reverse_singleton, List.singleton_append,
      List.dropWhile_cons_of_pos h]

structure Trimmed (text core : List Char) : Prop where
  between : ∃ before after, text = before ++ core ++ after ∧
    (∀ c ∈ before, isBlank c = true) ∧ ∀ c ∈ after, isBlank c = true
  head : ∀ c, core.head? = some c → isBlank c = false
  last : ∀ c, core.getLast? = some c → isBlank c = false

private theorem dropWhile_isBlank {blanks rest : List Char} (h : ∀ c ∈ blanks, isBlank c = true)
    (hrest : ∀ c, rest.head? = some c → isBlank c = false) :
    (blanks ++ rest).dropWhile isBlank = rest := by
  rw [List.dropWhile_append_of_pos h]
  cases rest with
  | nil => rfl
  | cons c rest => exact List.dropWhile_cons_of_neg (ne_true_of_eq_false (hrest c rfl))

private theorem head?_dropWhile_isBlank {text : List Char} {c : Char}
    (h : (text.dropWhile isBlank).head? = some c) : isBlank c = false := by
  have hhead := List.head?_dropWhile_not isBlank text
  rwa [h] at hhead

theorem Trimmed.trim_eq {text core : List Char} (h : Trimmed text core) : trim text = core := by
  obtain ⟨⟨before, after, rfl, hbefore, hafter⟩, hhead, hlast⟩ := h
  cases core with
  | nil =>
    apply trim_of_blank
    intro c hc
    rw [List.append_nil] at hc
    exact (List.mem_append.mp hc).elim (hbefore c) (hafter c)
  | cons first rest =>
    have hfront : (before ++ first :: rest ++ after).dropWhile isBlank = first :: rest ++ after := by
      rw [List.append_assoc]
      exact dropWhile_isBlank hbefore hhead
    have hback : (first :: rest ++ after).reverse.dropWhile isBlank = (first :: rest).reverse := by
      rw [List.reverse_append]
      refine dropWhile_isBlank (fun c hc => hafter c (List.mem_reverse.mp hc)) fun c hc => ?_
      rw [List.head?_reverse] at hc
      exact hlast c hc
    rw [trim, hfront, hback, List.reverse_reverse]

theorem exists_trimEnd (text : List Char) : ∃ after, (∀ c ∈ after, isBlank c = true) ∧
    text = (text.reverse.dropWhile isBlank).reverse ++ after := by
  refine ⟨(text.reverse.takeWhile isBlank).reverse, fun c hc => ?_, ?_⟩
  · exact List.all_eq_true.mp List.all_takeWhile c (List.mem_reverse.mp hc)
  · rw [← List.reverse_append, List.takeWhile_append_dropWhile, List.reverse_reverse]

theorem getLast?_trimEnd {text : List Char} {c : Char}
    (h : (text.reverse.dropWhile isBlank).reverse.getLast? = some c) : isBlank c = false := by
  rw [List.getLast?_reverse] at h
  exact head?_dropWhile_isBlank h

theorem trimmed_trim (text : List Char) : Trimmed text (trim text) := by
  obtain ⟨after, hafter, hfront⟩ := exists_trimEnd (text.dropWhile isBlank)
  rw [← trim] at hfront
  refine ⟨⟨text.takeWhile isBlank, after, ?_, ?_, hafter⟩, ?_, fun c hc => getLast?_trimEnd hc⟩
  · rw [List.append_assoc, ← hfront, List.takeWhile_append_dropWhile]
  · exact List.all_eq_true.mp List.all_takeWhile
  · intro c hc
    have hhead : (text.dropWhile isBlank).head? = some c := by
      rw [hfront, List.head?_append, hc, Option.some_or]
    exact head?_dropWhile_isBlank hhead

end LogBench.Text
