import LogBench.Command.Run
import LogBench.Proofs.Script.Decoding
import LogBench.Proofs.Script.Texts
import LogBench.Proofs.Text.Hex

/-! The line that a script is printed on: it is read back as bytes that decode to the script, so it
tells apart all scripts, though not all texts of one. -/
namespace LogBench

namespace Script

/-- No operation is named behind a dash. -/
private theorem ofText?_dash (rest : List Char) :
    Operation.ofText? ('-' :: rest) = .error (.unknown ('-' :: rest)) := by
  apply ofText?_of_unknown
  · intro h
    cases h
  · rintro mode width count ⟨htext, -, -⟩
    cases mode <;> cases htext

/-- In an accepted list every text is accepted. -/
private theorem exists_ofText?_of_mem {texts : List (List Char)} {script : Script}
    (h : ofTexts? texts = .ok script) {text : List Char} (ht : text ∈ texts) :
    ∃ op, Operation.ofText? text = .ok op := by
  rw [ofTexts?_eq_ok_iff] at h
  induction h with
  | nil => cases ht
  | cons hop _ ih =>
    rcases List.mem_cons.mp ht with rfl | ht
    · exact ⟨_, hop⟩
    · exact ih ht

end Script

namespace Command
open Script

variable {ops : List String} {script : Script}

private theorem exists_dash_of_isOption {arg : String} (h : isOption arg = true) :
    ∃ rest, arg.toList = '-' :: rest := by
  unfold isOption at h
  split at h
  · rename_i c rest harg
    exact ⟨c :: rest, harg⟩
  · cases h

private theorem exists_dash_of_asksHelp {arg : String} (h : asksHelp arg = true) :
    ∃ rest, arg.toList = '-' :: rest := by
  rw [asksHelp, Bool.or_eq_true, decide_eq_true_iff, decide_eq_true_iff] at h
  rcases h with rfl | rfl
  · exact ⟨_, rfl⟩
  · exact ⟨_, rfl⟩

/-- No argument that is an operation can be taken for an option or a call for help. -/
private theorem not_dash_of_mem (h : ofTexts? (ops.map String.toList) = .ok script) {arg : String}
    (ha : arg ∈ ops) (rest : List Char) : arg.toList ≠ '-' :: rest := by
  intro hdash
  obtain ⟨op, hop⟩ := exists_ofText?_of_mem h (List.mem_map_of_mem ha)
  rw [hdash, ofText?_dash] at hop
  cases hop

private theorem ofArguments?_script (hne : ops ≠ [])
    (h : ofTexts? (ops.map String.toList) = .ok script) :
    Request.ofArguments? ("script" :: ops) = .ok (.command (.script ops)) := by
  have hhelp : ops.any asksHelp = false := by
    apply List.any_eq_false.mpr
    intro arg ha hask
    obtain ⟨rest, hdash⟩ := exists_dash_of_asksHelp hask
    exact not_dash_of_mem h ha rest hdash
  have hoption : ops.find? isOption = none := by
    apply List.find?_eq_none.mpr
    intro arg ha hopt
    obtain ⟨rest, hdash⟩ := exists_dash_of_isOption hopt
    exact not_dash_of_mem h ha rest hdash
  have hempty : ops.isEmpty = false := by rwa [List.isEmpty_eq_false_iff]
  have hread : readOps ops = .ok ops := by
    rw [readOps, hoption]
    simp only [hempty, Bool.false_eq_true, if_false]
  have hself : asksHelp "script" = false := by decide
  rw [Request.ofArguments?, hself, hhelp, named, hread]
  rfl

def scriptLine (script : Script) : String :=
  lines [String.ofList (Hex.writeSpaced (encode script))]

private theorem respond_script (hne : ops ≠ []) (h : ofTexts? (ops.map String.toList) = .ok script)
    (contents : Contents) :
    respond ("script" :: ops) contents = { stdout := scriptLine script } := by
  rw [respond, ofArguments?_script hne h]
  change runScript ops = _
  rw [runScript, h]
  rfl

/-- A line is read back as the bytes of its script. -/
theorem read?_scriptLine (script : Script) :
    Hex.read? (scriptLine script).toList = some (encode script) := by
  have hline : (scriptLine script).toList = Hex.writeSpaced (encode script) ++ ['\n'] := by
    simp [scriptLine, lines, String.join]
  rw [hline]
  apply Hex.read?_writeSpaced_append
  intro c hc
  rw [List.mem_singleton.mp hc]
  rfl

private theorem scriptLine_inj {script' : Script} :
    scriptLine script = scriptLine script' ↔ script = script' := by
  constructor
  · intro h
    have hread := read?_scriptLine script
    rw [h, read?_scriptLine] at hread
    have hdecoded := decode_encode script
    rw [← Option.some.inj hread, decode_encode] at hdecoded
    exact (Except.ok.inj hdecoded).symm
  · rintro rfl
    rfl

/-- For every list of operations that are all accepted. -/
theorem script_line_decodes (hne : ops ≠ [])
    (h : ofTexts? (ops.map String.toList) = .ok script) (contents : Contents) :
    (respond ("script" :: ops) contents).code = 0 ∧
    (respond ("script" :: ops) contents).stderr = "" ∧
    (∃ bytes, Hex.read? (respond ("script" :: ops) contents).stdout.toList = some bytes ∧
      decode bytes = .ok script) ∧
    ∀ ops' script' contents', ops' ≠ [] → ofTexts? (ops'.map String.toList) = .ok script' →
      ((respond ("script" :: ops) contents).stdout =
        (respond ("script" :: ops') contents').stdout ↔ script = script') := by
  rw [respond_script hne h]
  refine ⟨rfl, rfl, ⟨encode script, read?_scriptLine script, decode_encode script⟩, ?_⟩
  intro ops' script' contents' hne' h'
  rw [respond_script hne' h']
  exact scriptLine_inj

def widest : Script := [.status, .read .upTo ⟨64, 65536, by decide, by decide, by decide, by decide⟩]

/-- Two lists of texts for one script, and one for another script. -/
theorem script_line_decodes_widest :
    ofTexts? (["status", "read:+0512:065536"].map String.toList) = .ok widest ∧
    ofTexts? (["status", "read:512:65536"].map String.toList) = .ok widest ∧
    ofTexts? (["status"].map String.toList) = .ok [.status] ∧
    ∃ line bytes,
      respond ["script", "status", "read:+0512:065536"] (.error .notFound) =
        { code := 0, stdout := line, stderr := "" } ∧
      Hex.read? line.toList = some bytes ∧ decode bytes = .ok widest ∧
      (respond ["script", "status", "read:512:65536"] (.error .notFound)).stdout = line ∧
      (respond ["script", "status"] (.error .notFound)).stdout ≠ line := by
  have hspelled : ofTexts? (["status", "read:+0512:065536"].map String.toList) = .ok widest := rfl
  have hplain : ofTexts? (["status", "read:512:65536"].map String.toList) = .ok widest := rfl
  have hother : ofTexts? (["status"].map String.toList) = .ok [.status] := rfl
  obtain ⟨hcode, hstderr, ⟨bytes, hread, hdecode⟩, hline⟩ :=
    script_line_decodes (List.cons_ne_nil _ _) hspelled (.error .notFound)
  refine ⟨hspelled, hplain, hother, _, bytes, ?_, hread, hdecode, ?_, ?_⟩
  · rw [← hcode, ← hstderr]
  · exact ((hline _ _ _ (List.cons_ne_nil _ _) hplain).mpr rfl).symm
  · intro hsame
    have hscripts := (hline _ _ _ (List.cons_ne_nil _ _) hother).mp hsame.symm
    cases hscripts

end Command

end LogBench
