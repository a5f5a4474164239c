/-! Texts cut into fields at a separator. -/
namespace LogBench.Text

/-- The fields between separators; a text without a separator is one field. -/
def fields (separator : Char) : List Char → List (List Char)
  | [] => [[]]
  | c :: rest =>
    if c = separator then [] :: fields separator rest
    else
      match fields separator rest with
      | [] => [[c]]
      | first :: others => (c :: first) :: others

variable {separator : Char}

theorem fields_eq_splitOn (separator : Char) (text : List Char) :
    fields separator text = text.splitOn separator := by
  induction text with
  | nil => rfl
  | cons c rest ih =>
    rw [fields, ih, List.splitOn_cons_eq_if_modifyHead]
    simp only [beq_iff_eq]
    split
    · rfl
    · cases h : rest.splitOn separator with
      | nil => exact absurd h (List.splitOn_ne_nil separator rest)
      | cons first others => rfl

theorem fields_append_cons (a b : List Char) :
    fields separator (a ++ separator :: b) = fields separator a ++ fields separator b := by
  simp only [fields_eq_splitOn, List.splitOn_append_cons_self]

theorem fields_of_not_mem {text : List Char} (h : separator ∉ text) :
    fields separator text = [text] := by
  rw [fields_eq_splitOn, List.splitOn_eq_singleton h]

/-- No separator is left in a field. -/
theorem not_mem_of_mem_fields {text field : List Char} (h : field ∈ fields separator text) :
    separator ∉ field := by
  induction text generalizing field with
  | nil =>
    rw [List.mem_singleton.mp h]
    exact List.not_mem_nil
  | cons c rest ih =>
    rw [fields] at h
    split at h
    · rcases List.mem_cons.mp h with rfl | h
      · exact List.not_mem_nil
      · exact ih h
    · rename_i hc
      split at h
      · rw [List.mem_singleton.mp h, List.mem_singleton]
        exact Ne.symm hc
      · rename_i first others hfields
        rw [hfields] at ih
        rcases List.mem_cons.mp h with rfl | h
        · rw [List.mem_cons, not_or]
          exact ⟨Ne.symm hc, ih List.mem_cons_self⟩
        · exact ih (List.mem_cons_of_mem _ h)

/-- A text has the fields that it is put together from. -/
theorem fields_eq_iff {text : List Char} {parts : List (List Char)} :
    fields separator text = parts ↔
      parts ≠ [] ∧ (∀ part ∈ parts, separator ∉ part) ∧ [separator].intercalate parts = text := by
  constructor
  · rintro rfl
    refine ⟨?_, fun _ => not_mem_of_mem_fields, ?_⟩
    · rw [fields_eq_splitOn]
      exact List.splitOn_ne_nil separator text
    · rw [fields_eq_splitOn, List.intercalate_splitOn]
  · rintro ⟨hne, hparts, rfl⟩
    rw [fields_eq_splitOn, List.splitOn_intercalate separator hparts hne]

theorem length_fields (text : List Char) :
    (fields separator text).length = text.count separator + 1 := by
  induction text with
  | nil => rfl
  | cons c rest ih =>
    rw [fields, List.count_cons]
    by_cases hc : c = separator
    · simp [hc, ih]
    · cases hfields : fields separator rest with
      | nil => simp [hfields] at ih
      | cons first others => simpa [hc, hfields] using ih

end LogBench.Text
