import LogBench.RecordFile

/-!
Record files are read line by line: what stands behind whole lines is read as a file of its own, with later
line numbers, and neither empty lines nor comments say anything.
-/
namespace LogBench.RecordFile

open Text

/-- Nothing, or whole lines. -/
def EndsLine (text : List Char) : Prop := text = [] ∨ text.getLast? = some '\n'

def FileError.later (e : FileError) (lines : Nat) : FileError := { e with line := e.line + lines }

/-- The reading of a file whose second part begins so many lines further down. -/
def joined (front : Except FileError (List Record)) (lines : Nat)
    (back : Except FileError (List Record)) : Except FileError (List Record) := do
  let records ← front
  let later ← back.mapError (·.later lines)
  return records ++ later

/-- A line that says nothing: blanks, and perhaps a comment behind them. -/
def Silent (line : List Char) : Prop :=
  '\n' ∉ line ∧ ∃ blanks comment, line = blanks ++ comment ∧ (∀ c ∈ blanks, isBlank c = true) ∧
    (comment = [] ∨ comment.head? = some '#')

/-- A text begins where a line ends: with the end of the file or with a line break of either kind. -/
def AtLineEnd (rest : List Char) : Prop :=
  rest = [] ∨ (∃ later, rest = '\n' :: later) ∨ ∃ later, rest = '\r' :: '\n' :: later

structure Composes (a b : List Char) : Prop where
  front_bad : ∀ e, read a = .error e → read (a ++ b) = .error e
  back_bad : ∀ records e, read a = .ok records → read b = .error e →
    read (a ++ b) = .error { e with line := e.line + a.count '\n' }
  good : ∀ records later, read a = .ok records → read b = .ok later →
    read (a ++ b) = .ok (records ++ later)

structure Inserts (a line b : List Char) : Prop where
  good : ∀ records, read (a ++ b) = .ok records → read (a ++ line ++ '\n' :: b) = .ok records
  bad : ∀ e, read (a ++ b) = .error e → read (a ++ line ++ '\n' :: b) =
    .error { e with line := if e.line ≤ a.count '\n' then e.line else e.line + 1 }
  /-- A line may also be put behind the last one, whether that is ended or not. -/
  last : read (a ++ line) = read a
  behind : read (a ++ b ++ '\n' :: line) = read (a ++ b)

section Parts

variable {front back : Except FileError (List Record)} {n : Nat} {records : List Record}
  {e : FileError}

private theorem joined_map (records : List Record) (front back : Except FileError (List Record))
    (n : Nat) : (records ++ ·) <$> joined front n back = joined ((records ++ ·) <$> front) n back := by
  cases front with
  | error e => rfl
  | ok found =>
    cases back with
    | error e => rfl
    | ok later => exact congrArg Except.ok (List.append_assoc ..).symm

private theorem joined_succ (front back : Except FileError (List Record)) (n : Nat) :
    joined front n (back.mapError (·.later 1)) = joined front (n + 1) back := by
  cases back with
  | error e =>
    have hlater : (e.later 1).later n = e.later (n + 1) := by
      simp only [FileError.later, Nat.add_assoc, Nat.add_comm 1 n]
    cases front with
    | error e => rfl
    | ok records => exact congrArg Except.error hlater
  | ok records => rfl

private theorem joined_nil (front : Except FileError (List Record)) (n : Nat) :
    joined front n (.ok []) = front := by
  cases front with
  | error e => rfl
  | ok records => exact congrArg Except.ok (List.append_nil records)

private theorem joined_eq_ok_iff : joined front n back = .ok records ↔
    ∃ found later, front = .ok found ∧ back = .ok later ∧ found ++ later = records := by
  cases front with
  | error e => exact iff_of_false nofun nofun
  | ok found =>
    cases back with
    | error e => exact iff_of_false nofun nofun
    | ok later =>
      constructor
      · intro h
        exact ⟨found, later, rfl, rfl, Except.ok.inj h⟩
      · rintro ⟨_, _, hfront, hback, rfl⟩
        cases hfront
        cases hback
        rfl

/-- The first error is reported, and one in the second part as standing further down. -/
private theorem joined_eq_error_iff : joined front n back = .error e ↔
    front = .error e ∨ ∃ found e', front = .ok found ∧ back = .error e' ∧ e'.later n = e := by
  cases front with
  | error e' =>
    constructor
    · intro h
      exact Or.inl (congrArg Except.error (Except.error.inj h))
    · rintro (h | ⟨found, e'', hfront, -⟩)
      · exact congrArg Except.error (Except.error.inj h)
      · cases hfront
  | ok found =>
    cases back with
    | error e' =>
      constructor
      · intro h
        exact Or.inr ⟨found, e', rfl, rfl, Except.error.inj h⟩
      · rintro (h | ⟨_, _, hfront, hback, rfl⟩)
        · cases h
        · cases hfront
          cases hback
          rfl
    | ok later => exact iff_of_false nofun nofun

end Parts

section Lines

variable {number : Nat} {line line' : List Char} {lines : List (List Char)} {e : FileError}

private theorem readContent_of_parts {text front back : List Char} {address : UInt16}
    {program : Program} {record : Record} (hsplit : splitColon? text = some (front, back))
    (haddress : Address.read? addressMarks (trim front) = some address)
    (hbytes : Hex.read? back = some program)
    (hrecord : Record.ofProgram? address program = .ok record) :
    readContent text = .ok record := by
  rw [readContent, hsplit]
  simp only [haddress, hbytes, hrecord]

theorem readLines_cons_bad {cause : LineError} (h : readLine line = .error cause) :
    readLines number (line :: lines) = .error ⟨number, cause⟩ := by
  rw [readLines, h]

theorem readLines_cons_good {found : Option Record} (h : readLine line = .ok found) :
    readLines number (line :: lines) = (found.toList ++ ·) <$> readLines (number + 1) lines := by
  rw [readLines, h]
  cases readLines (number + 1) lines <;> rfl

theorem readLines_cons_eq_error_iff {found : Option Record} (h : readLine line = .ok found) :
    readLines number (line :: lines) = .error e ↔ readLines (number + 1) lines = .error e := by
  rw [readLines_cons_good h]
  cases readLines (number + 1) lines with
  | error e' => exact Iff.rfl
  | ok later => exact iff_of_false nofun nofun

theorem readLines_cons_eq_ok_iff {found : Option Record} {records : List Record}
    (h : readLine line = .ok found) : readLines number (line :: lines) = .ok records ↔
      ∃ later, readLines (number + 1) lines = .ok later ∧ found.toList ++ later = records := by
  rw [readLines_cons_good h]
  cases readLines (number + 1) lines with
  | error e' => exact iff_of_false nofun nofun
  | ok later =>
    simp only [Except.ok.injEq, exists_eq_left']
    exact ⟨Except.ok.inj, congrArg Except.ok⟩

/-- A line may be replaced by one that reads the same. -/
theorem readLines_congr (h : readLine line = readLine line') (number : Nat)
    (lines : List (List Char)) :
    readLines number (line :: lines) = readLines number (line' :: lines) := by
  rw [readLines, readLines, h]

/-- Only the numbers in errors depend on where the lines stand. -/
theorem readLines_succ (number : Nat) (lines : List (List Char)) :
    readLines (number + 1) lines = (readLines number lines).mapError (·.later 1) := by
  induction lines generalizing number with
  | nil => rfl
  | cons line lines ih =>
    cases hline : readLine line with
    | error cause =>
      rw [readLines_cons_bad hline, readLines_cons_bad hline]
      rfl
    | ok found =>
      rw [readLines_cons_good hline, readLines_cons_good hline, ih]
      cases readLines (number + 1) lines <;> rfl

private theorem readLines_append (number : Nat) (lines lines' : List (List Char)) :
    readLines number (lines ++ lines') =
      joined (readLines number lines) lines.length (readLines number lines') := by
  induction lines generalizing number with
  | nil =>
    rw [List.nil_append, readLines]
    cases readLines number lines' <;> rfl
  | cons line lines ih =>
    -- The rest is numbered from the next line on, so what is wrong there moves by one more line.
    rw [List.cons_append]
    cases hline : readLine line with
    | error cause =>
      rw [readLines_cons_bad hline, readLines_cons_bad hline]
      rfl
    | ok found =>
      rw [readLines_cons_good hline, readLines_cons_good hline, ih, readLines_succ number lines',
        joined_succ, joined_map, List.length_cons]

/-- The number in an error is that of one of the lines. -/
private theorem line_of_readLines (h : readLines number lines = .error e) :
    number ≤ e.line ∧ e.line < number + lines.length := by
  induction lines generalizing number with
  | nil => cases h
  | cons line lines ih =>
    rw [List.length_cons]
    cases hline : readLine line with
    | error cause =>
      rw [readLines_cons_bad hline] at h
      cases h
      exact ⟨Nat.le_refl number, Nat.lt_add_of_pos_right (Nat.succ_pos lines.length)⟩
    | ok found =>
      have hbounds := ih ((readLines_cons_eq_error_iff hline).mp h)
      omega

end Lines

section Files

variable {a line line' comment : List Char} {e : FileError}

private theorem read_cons_line (text b : List Char) :
    read (text ++ '\n' :: b) = joined (read text) (text.count '\n' + 1) (read b) := by
  rw [read, fields_append_cons, readLines_append, length_fields]
  rfl

/-- It makes no difference whether the last line is ended. -/
theorem read_concat_newline (text : List Char) : read (text ++ ['\n']) = read text := by
  rw [read_cons_line]
  exact joined_nil _ _

theorem read_of_whole (h : '\n' ∉ line) : read line = readLines 1 [line] := by
  rw [read, fields_of_not_mem h]

private theorem EndsLine.read_append (h : EndsLine a) (b : List Char) :
    read (a ++ b) = joined (read a) (a.count '\n') (read b) := by
  rcases h with rfl | h
  · exact readLines_append 1 [] (fields '\n' b)
  · obtain ⟨text, rfl⟩ := List.getLast?_eq_some_iff.mp h
    rw [read_concat_newline, List.append_assoc, List.singleton_append, read_cons_line,
      List.count_append, List.count_singleton_self]

private theorem EndsLine.line_le (h : EndsLine a) (he : read a = .error e) :
    e.line ≤ a.count '\n' := by
  rcases h with rfl | h
  · cases he
  · obtain ⟨text, rfl⟩ := List.getLast?_eq_some_iff.mp h
    rw [read_concat_newline] at he
    have hbounds := line_of_readLines he
    rw [length_fields] at hbounds
    rw [List.count_append, List.count_singleton_self]
    omega

private theorem EndsLine.composes (h : EndsLine a) (b : List Char) : Composes a b := by
  refine ⟨?_, ?_, ?_⟩
  · intro e he
    rw [h.read_append, joined_eq_error_iff]
    exact Or.inl he
  · intro records e ha he
    rw [h.read_append, joined_eq_error_iff]
    exact Or.inr ⟨records, e, ha, he, rfl⟩
  · intro records later ha hb
    rw [h.read_append, joined_eq_ok_iff]
    exact ⟨records, later, ha, hb, rfl⟩

private theorem takeWhile_append_of_whole (h : '#' ∉ line) (rest : List Char) :
    (line ++ rest).takeWhile (· ≠ '#') = line ++ rest.takeWhile (· ≠ '#') := by
  apply List.takeWhile_append_of_pos
  intro c hc
  apply decide_eq_true
  rintro rfl
  exact h hc

/-- Nothing stands before the comment but blanks. -/
private theorem Silent.content_eq (h : Silent line) : content line = [] := by
  obtain ⟨-, blanks, comment, rfl, hblanks, hcomment⟩ := h
  have hhash : '#' ∉ blanks := fun hc => by cases hblanks '#' hc
  have hrest : comment.takeWhile (· ≠ '#') = [] := by
    rcases hcomment with rfl | hcomment
    · rfl
    · obtain ⟨rest, rfl⟩ := List.head?_eq_some_iff.mp hcomment
      rfl
  rw [content, takeWhile_append_of_whole hhash, hrest, List.append_nil]
  exact trim_of_blank hblanks

private theorem Silent.read_eq (h : Silent line) : read line = .ok [] := by
  rw [read_of_whole h.1, readLines, readLine, h.content_eq]
  rfl

private theorem EndsLine.inserts (h : EndsLine a) (hline : Silent line) (b : List Char) :
    Inserts a line b := by
  have hlast : read (a ++ line) = read a := by
    rw [h.read_append, hline.read_eq, joined_nil]
  have hcount : line.count '\n' = 0 := List.count_eq_zero.mpr hline.1
  have hread : read (a ++ line ++ '\n' :: b) = joined (read a) (a.count '\n' + 1) (read b) := by
    rw [read_cons_line, hlast, List.count_append, hcount, Nat.add_zero]
  refine ⟨?_, ?_, hlast, ?_⟩
  · intro records hgood
    rw [h.read_append, joined_eq_ok_iff] at hgood
    rw [hread, joined_eq_ok_iff]
    exact hgood
  · intro e hbad
    rw [h.read_append, joined_eq_error_iff] at hbad
    rw [hread, joined_eq_error_iff]
    rcases hbad with ha | ⟨found, e', ha, hb, rfl⟩
    · rw [if_pos (h.line_le ha)]
      exact Or.inl ha
    · -- Lines are counted from one, so the error stands behind every line of the first part.
      have hpos : 1 ≤ e'.line := (line_of_readLines hb).1
      have hbehind : ¬ (e'.later (a.count '\n')).line ≤ a.count '\n' := by
        change ¬ e'.line + a.count '\n' ≤ a.count '\n'
        omega
      rw [if_neg hbehind]
      exact Or.inr ⟨found, e', ha, hb, rfl⟩
  · rw [read_cons_line, hline.read_eq, joined_nil]

section Comments

theorem content_of_whole (h : '#' ∉ line) : content line = trim line := by
  rw [content, ← List.append_nil line, takeWhile_append_of_whole h, List.takeWhile_nil]

theorem content_comment (h : '#' ∉ line) (comment : List Char) :
    content (line ++ '#' :: comment) = content line := by
  rw [content_of_whole h, content, takeWhile_append_of_whole h,
    List.takeWhile_cons_of_neg (by decide), List.append_nil]

/-- The first half of a line break belongs to the line, as a blank. -/
theorem content_concat_return (h : '#' ∉ line) : content (line ++ ['\r']) = content line := by
  have h' : '#' ∉ line ++ ['\r'] := by
    rw [List.mem_append, List.mem_singleton]
    exact not_or_intro h (by decide)
  rw [content_of_whole h, content_of_whole h', trim_concat (by decide)]

private theorem read_line_congr (hline : '\n' ∉ line) (hline' : '\n' ∉ line')
    (h : content line = content line') : read line = read line' := by
  rw [read_of_whole hline, read_of_whole hline']
  apply readLines_congr
  rw [readLine, readLine, h]

private theorem read_append_congr (hline : '\n' ∉ line) (hline' : '\n' ∉ line')
    (h : content line = content line') (later : List Char) :
    read (line ++ '\n' :: later) = read (line' ++ '\n' :: later) := by
  rw [read_cons_line, read_cons_line, read_line_congr hline hline' h,
    List.count_eq_zero.mpr hline, List.count_eq_zero.mpr hline']

private theorem read_comment (hline : '\n' ∉ line) (hhash : '#' ∉ line) (hcomment : '\n' ∉ comment)
    {rest : List Char} (hrest : AtLineEnd rest) :
    read (line ++ ('#' :: comment ++ rest)) = read (line ++ rest) := by
  have hwhole {comment : List Char} (hcomment : '\n' ∉ comment) :
      '\n' ∉ line ++ '#' :: comment := by
    rw [List.mem_append, List.mem_cons]
    exact not_or_intro hline (not_or_intro (by decide) hcomment)
  rcases hrest with rfl | ⟨later, rfl⟩ | ⟨later, rfl⟩
  · rw [List.append_nil, List.append_nil]
    exact read_line_congr (hwhole hcomment) hline (content_comment hhash comment)
  · rw [← List.append_assoc]
    exact read_append_congr (hwhole hcomment) hline (content_comment hhash comment) later
  · have hreturn {text : List Char} (h : '\n' ∉ text) : '\n' ∉ text ++ ['\r'] := by
      rw [List.mem_append, List.mem_singleton]
      exact not_or_intro h (by decide)
    have hcontent : content (line ++ '#' :: (comment ++ ['\r'])) = content (line ++ ['\r']) := by
      rw [content_comment hhash, content_concat_return hhash]
    have hread := read_append_congr (hwhole (hreturn hcomment)) (hreturn hline) hcontent later
    simpa only [List.append_assoc, List.cons_append, List.nil_append] using hread

end Comments

end Files

/-- For every file of whole lines and whatever stands behind them. -/
theorem record_lines_compose {a : List Char} (h : EndsLine a) (b : List Char) :
    Composes a b ∧ (∀ line, Silent line → Inserts a line b) ∧
    ∀ line comment, '\n' ∉ line → '#' ∉ line → '\n' ∉ comment → AtLineEnd b →
      read (a ++ line ++ '#' :: comment ++ b) = read (a ++ line ++ b) := by
  refine ⟨h.composes b, fun line hline => h.inserts hline b, ?_⟩
  intro line comment hline hhash hcomment hb
  rw [List.append_assoc, List.append_assoc, h.read_append, read_comment hline hhash hcomment hb,
    ← h.read_append, List.append_assoc]

def letter : Record where
  address := 0
  program := [0x41]
  output := [0x41]
  print_eq := by cbv

private theorem read_letter : read "0: 41 # A\n".toList = .ok [letter] := by
  have hline : readLine "0: 41 # A".toList = .ok (some letter) := by
    have hcontent : readContent "0: 41".toList = .ok letter :=
      readContent_of_parts rfl rfl rfl (Record.ofProgram?_of_print letter.print_eq 0)
    change some <$> readContent "0: 41".toList = _
    rw [hcontent]
    rfl
  change readLines 1 ["0: 41 # A".toList, []] = _
  rw [readLines_cons_good hline]
  rfl

/-- A good line and a bad one: a comment line between them, and a comment behind the good one. -/
theorem record_lines_compose_samples :
    let a := "0: 41 # A\n".toList
    let b := "\r\ng: 41".toList
    let e (line : Nat) : FileError := ⟨line, .illegibleAddress ['g']⟩
    EndsLine a ∧ read a = .ok [letter] ∧ AtLineEnd b ∧ Silent " # none".toList ∧
      read b = .error (e 2) ∧ read (a ++ b) = .error (e 3) ∧
      read (a ++ " # none".toList ++ '\n' :: b) = .error (e 4) ∧
      read (a ++ "1: 42".toList ++ '#' :: "B".toList ++ b) = read (a ++ "1: 42".toList ++ b) := by
  have ha : EndsLine "0: 41 # A\n".toList := Or.inr rfl
  have hb : AtLineEnd "\r\ng: 41".toList := Or.inr (Or.inr ⟨_, rfl⟩)
  have hblank : ∀ c ∈ [' '], isBlank c = true := List.forall_mem_singleton.mpr rfl
  have hsilent : Silent " # none".toList :=
    ⟨by decide, [' '], "# none".toList, rfl, hblank, Or.inr rfl⟩
  have hread : read "\r\ng: 41".toList = .error ⟨2, .illegibleAddress ['g']⟩ := rfl
  obtain ⟨hcomposes, hinserts, hcomment⟩ := record_lines_compose ha "\r\ng: 41".toList
  have hbad := hcomposes.back_bad _ _ read_letter hread
  exact ⟨ha, read_letter, hb, hsilent, hread, hbad, (hinserts _ hsilent).bad _ hbad,
    hcomment "1: 42".toList "B".toList (by decide) (by decide) (by decide) hb⟩

end LogBench.RecordFile
